import SocketHandoff.Lib.Utf8
import SocketHandoff.Go.Script

/-!
# The typing backend

`Stream` of `backends/typing.go`, from where it has its text: every character is an event of its own,
with the offset at which it begins. What the client has been sent at any time is the text as far as it
has been typed, with U+FFFD for what is no UTF-8.
-/

namespace SocketHandoff.Go

open Json

/-! ## The loop -/

end SocketHandoff.Go
