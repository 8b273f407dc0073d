import SocketHandoff.Apache.Brigades
import SocketHandoff.Apache.Deadline
import SocketHandoff.Apache.Containment
import SocketHandoff.Rust.Limit
import SocketHandoff.Rust.Drain
import SocketHandoff.Rust.Stream
import SocketHandoff.Go.Shutdown
import SocketHandoff.Go.AcceptLoop
import SocketHandoff.Uring.Base
import SocketHandoff.Uring.SlotPool
import SocketHandoff.Uring.WorkerPool
import SocketHandoff.Uring.Fifo
import SocketHandoff.Uring.Isolation
import SocketHandoff.Uring.Burst
import SocketHandoff.Uring.CoreSteps
import SocketHandoff.Uring.Wakeup
import SocketHandoff.Uring.Region
import SocketHandoff.Uring.Stalled
import SocketHandoff.Uring.Received
import SocketHandoff.Lib.JsonString
import SocketHandoff.Uring.TopLevel
import SocketHandoff.Uring.Relay
import SocketHandoff.Uring.Backend
import SocketHandoff.Uring.Answer
import SocketHandoff.Uring.Modes
import SocketHandoff.Go.Headers
import SocketHandoff.Lib.Json
import SocketHandoff.Go.Encode
import SocketHandoff.Go.Content
import SocketHandoff.Go.Attachments
import SocketHandoff.Go.RunBody
import SocketHandoff.Go.Answered
import SocketHandoff.Go.ErrorEvent
import SocketHandoff.Go.Contained
import SocketHandoff.Go.Hygiene
import SocketHandoff.Lib.RingBuffer
import SocketHandoff.Uring.WorkerPool
import SocketHandoff.Rust.Reply
import SocketHandoff.Rust.Accounting
import SocketHandoff.Rust.OpenAI
import SocketHandoff.Rust.Shutdown
import SocketHandoff.Swoole.Pool
import SocketHandoff.Swoole.Capacity
import SocketHandoff.Swoole.Dispatch
import SocketHandoff.Swoole.Delivery
import SocketHandoff.Go.RawMessage
import SocketHandoff.Go.LGBody
import SocketHandoff.Apache.CachedPrefix
import SocketHandoff.Apache.Inherit
import SocketHandoff.Lib.Memory
import SocketHandoff.Uring.FormatSse
import SocketHandoff.Uring.Backpressure
import SocketHandoff.Uring.HandoffMemory
import SocketHandoff.Uring.LineBuffer
import SocketHandoff.Uring.CurlTimer
import SocketHandoff.Uring.DirtyList
import SocketHandoff.Amp.OpenAI
import SocketHandoff.Swoole.OpenAI
import SocketHandoff.Swow.OpenAI
import SocketHandoff.Php.Complete
import SocketHandoff.Swow.Lifetime
import SocketHandoff.Go.ContentFast
import SocketHandoff.Go.ReceiveFd
import SocketHandoff.Rust.RecvFd
import SocketHandoff.Rust.Gauges
import SocketHandoff.Go.MemLimit
import SocketHandoff.Rust.Preview
import SocketHandoff.Go.ProxyEvents
import SocketHandoff.Go.Placeholders
import SocketHandoff.Go.Tally
import SocketHandoff.Go.Budget
import SocketHandoff.Swoole.Agreement
import SocketHandoff.Swoole.Accept
import SocketHandoff.Uring.Upstream
import SocketHandoff.Uring.Relayed
import SocketHandoff.Wire
import SocketHandoff.Go.Profile
import SocketHandoff.Go.Threads
import SocketHandoff.Takeover
import SocketHandoff.Go.Reload
import SocketHandoff.MockLlmApi
import SocketHandoff.Go.Typing
import SocketHandoff.Agreement
