import SocketHandoff.Uring.Context
import SocketHandoff.Lib.CText
import Mathlib.Data.List.TakeWhile

/-!
# Handoff messages

`handoff.c` and `json.c`: the message header for the receive, the descriptor in its control
message, and the fields of the JSON text. The tokens come from `jsmn_parse`; a text that it does
not parse stands for a handoff without data.
-/

namespace SocketHandoff.Uring

/-! ## Receiving -/

/-- `handoff_prepare_msghdr`. -/
def handoffPrepareMsghdr (dataBuf : Option Block) (dataBufLen ctrlBufLen : Nat) : RecvCtx where
  iovBase := dataBuf
  iovLen := dataBufLen
  controlLen := ctrlBufLen
  control := []
  trunc := false
  ctrunc := false

/-- `handoff_extract_fd`: the first descriptor of the first control message. -/
def handoffExtractFd (msg : RecvCtx) : Option Fd :=
  match msg.control with
  | .rights (fd :: _) :: _ => some fd
  | _ => none

/-- `handoff_validate_socket`. -/
def handoffValidateSocket (ω : Env) (fd : Fd) : Bool := ω.soType fd = some .stream

/-! ## Tokens -/

/-- The text of a token. -/
def Token.text (tok : Token) (json : List UInt8) : List UInt8 :=
  (json.drop tok.start).take (tok.stop - tok.start)

/-- `json_tok_eq`. -/
def jsonTokEq (json : List UInt8) (tok : Token) (s : String) : Bool :=
  tok.type = .string ∧ tok.text json = ascii s

/-- `json_tok_int`; a token of 32 bytes or more does not fit its buffer. -/
def jsonTokInt (json : List UInt8) (tok : Token) : Int :=
  if tok.type = .primitive ∧ tok.stop - tok.start < 32 then
    match strtol (cstring (tok.text json)) with
    | some parsed => parsed.value
    | none => 0
  else 0

/-- The loop of `json_find_key` from token `i` on. It moves on by two tokens at least, so as much
fuel as there are tokens is enough. -/
def jsonFindFrom (json : List UInt8) (tokens : List Token) (key : String) :
    (fuel i : Nat) → Option Token
  | 0, _ => none
  | fuel + 1, i =>
    match tokens[i]?, tokens[i + 1]? with
    | some name, some value =>
      if jsonTokEq json name key then some value
      else if value.type = .object ∨ value.type = .array then
        jsonFindFrom json tokens key fuel (i + 2 + value.size * 2)
      else jsonFindFrom json tokens key fuel (i + 2)
    | _, _ => none

/-- `json_find_key`, with the token in place of its index. -/
def jsonFindKey (json : List UInt8) (tokens : List Token) (key : String) : Option Token :=
  match tokens with
  | root :: _ =>
    if root.type = .object then jsonFindFrom json tokens key tokens.length 1 else none
  | [] => none

/-- The string under a key. -/
def jsonFindString (json : List UInt8) (tokens : List Token) (key : String) : Option Token :=
  (jsonFindKey json tokens key).filter (·.type = .string)

/-! ## `handoff_parse_data` -/

/-- The bytes skipped at both ends of the data. -/
def isBlank (c : UInt8) : Bool := c = 0 ∨ c = 32 ∨ c = 9 ∨ c = 10 ∨ c = 13

/-- Skip the blanks at the end. -/
def trimEnd (text : List UInt8) : List UInt8 := (text.reverse.dropWhile isBlank).reverse

/-- Put a NUL behind a token of the text at `offset` in the buffer. -/
def terminate (buf : List UInt8) (offset : Nat) : Option Token → List UInt8
  | some tok => buf.set (offset + tok.stop) 0
  | none => buf

/-- `handoff_parse_data` on the first `len` bytes of a buffer: the fields, and the buffer with the
NULs it writes behind the strings. -/
def handoffParseData (jsonParse : List UInt8 → Option (List Token)) (buf : List UInt8)
    (len : Nat) : HandoffData × List UInt8 :=
  let offset := ((buf.take len).takeWhile isBlank).length
  let json := trimEnd ((buf.take len).drop offset)
  if json = [] then (.zero, buf)
  else
    match jsonParse json with
    | none => (.zero, buf)
    | some tokens =>
      let prompt := jsonFindString json tokens "prompt"
      let bufPrompt := terminate buf offset prompt
      let jsonPrompt := (bufPrompt.drop offset).take json.length
      let model := jsonFindString jsonPrompt tokens "model"
      let bufModel := terminate bufPrompt offset model
      let pointee := fun tok : Token => cstring (bufModel.drop (offset + tok.start))
      let number := fun key => ((jsonFindKey json tokens key).map (jsonTokInt json)).getD 0
      ({ userId := number "user_id"
         prompt := prompt.map pointee
         model := model.map pointee
         maxTokens := (number "max_tokens").bmod 4294967296 }, bufModel)

end SocketHandoff.Uring
