import SocketHandoff.Uring.Jsmn
import SocketHandoff.Lib.Memory

/-!
# The memory of `handoff_parse_data`

`handoff_parse_data` once more, on the memory from `data` on and with every access checked. The
buffer is the one an earlier connection used, and is not cleared: what is behind the first `len`
bytes must have no part in the result. With the tokens of `jsmn_parse` inside the text and a
closing quote behind each string, no access leaves these bytes, and the NULs that end the strings
are among them.
-/

namespace SocketHandoff.Uring

/-! ## The code -/

/-- The first loop: the position and the length without the blanks in front. -/
def skipBlanks (mem : List UInt8) (data : Nat) : Nat → Checked (Nat × Nat)
  | 0 => .ok (data, 0)
  | len + 1 => do
    let c ← load mem data
    if isBlank c then skipBlanks mem (data + 1) len else .ok (data, len + 1)

/-- The second loop: the length without the blanks at the end. -/
def trimBlanks (mem : List UInt8) (data : Nat) : Nat → Checked Nat
  | 0 => .ok 0
  | len + 1 => do
    let c ← load mem (data + len)
    if isBlank c then trimBlanks mem data len else .ok (len + 1)

/-- `json_tok_eq`. -/
def jsonTokEqIn (mem : List UInt8) (data : Nat) (tok : Token) (s : String) : Checked Bool :=
  if tok.type = .string ∧ (ascii s).length = tok.stop - tok.start then do
    let text ← loadBytes mem (data + tok.start) (tok.stop - tok.start)
    return decide (text = ascii s)
  else .ok false

/-- `json_tok_int`. -/
def jsonTokIntIn (mem : List UInt8) (data : Nat) (tok : Token) : Checked Int :=
  if tok.type = .primitive ∧ tok.stop - tok.start < 32 then do
    let buf ← loadBytes mem (data + tok.start) (tok.stop - tok.start)
    return ((strtol (cstring buf)).map Strtol.value).getD 0
  else .ok 0

/-- The loop of `json_find_key` from token `i` on. It skips a value by its size, which counts the
members of an object and the elements of an array, but not the tokens within them; the same loop
without memory is `jsonFindFrom`. -/
def jsonFindFromIn (mem : List UInt8) (data : Nat) (tokens : List Token) (key : String) :
    (fuel i : Nat) → Checked (Option Token)
  | 0, _ => .ok none
  | fuel + 1, i =>
    match tokens[i]?, tokens[i + 1]? with
    | some name, some value => do
      if ← jsonTokEqIn mem data name key then return some value
      else if value.type = .object ∨ value.type = .array then
        jsonFindFromIn mem data tokens key fuel (i + 2 + value.size * 2)
      else jsonFindFromIn mem data tokens key fuel (i + 2)
    | some name, none => do
      let _ ← jsonTokEqIn mem data name key
      return none
    | none, _ => .ok none

/-- `json_find_key`, with the token in place of its index. -/
def jsonFindKeyIn (mem : List UInt8) (data : Nat) (tokens : List Token) (key : String) :
    Checked (Option Token) :=
  match tokens with
  | root :: _ =>
    if root.type = .object then jsonFindFromIn mem data tokens key tokens.length 1 else .ok none
  | [] => .ok none

/-- A number under a key. -/
def numberIn (mem : List UInt8) (data : Nat) (tokens : List Token) (key : String) :
    Checked Int := do
  match ← jsonFindKeyIn mem data tokens key with
  | some tok => jsonTokIntIn mem data tok
  | none => return 0

/-- A string under a key: where it starts, with a NUL put behind it. -/
def stringIn (mem : List UInt8) (data : Nat) (tokens : List Token) (key : String) :
    Checked (Option Nat × List UInt8) := do
  match ← jsonFindKeyIn mem data tokens key with
  | some tok =>
    if tok.type = .string then do
      let mem ← store mem (data + tok.stop) [0]
      return (some (data + tok.start), mem)
    else return (none, mem)
  | none => return (none, mem)

/-- `handoff_data_t`: the strings are pointers into the buffer. -/
structure HandoffPointers where
  userId : Int
  prompt : Option Nat
  model : Option Nat
  maxTokens : Int
  deriving DecidableEq, Repr

/-- `handoff_data_t` after `memset`. -/
def HandoffPointers.zero : HandoffPointers := ⟨0, none, none, 0⟩

/-- What is taken out of the tokens. -/
def handoffFieldsIn (mem : List UInt8) (data : Nat) (tokens : List Token) :
    Checked (HandoffPointers × List UInt8) := do
  let userId ← numberIn mem data tokens "user_id"
  let maxTokens ← numberIn mem data tokens "max_tokens"
  let (prompt, mem) ← stringIn mem data tokens "prompt"
  let (model, mem) ← stringIn mem data tokens "model"
  return (⟨userId, prompt, model, maxTokens.bmod 4294967296⟩, mem)

/-- `handoff_parse_data` on the memory of a buffer, with every access checked: a result says that
nothing behind the memory was touched. What `jsmn` finds in the text is a parameter, which is given
the bytes of the message and no others. -/
def handoffParseDataIn (jsonParse : List UInt8 → Option (List Token)) (mem : List UInt8)
    (len : Nat) : Checked (HandoffPointers × List UInt8) := do
  let (data, len) ← skipBlanks mem 0 len
  let len ← trimBlanks mem data len
  if len = 0 then return (.zero, mem)
  else do
    let json ← loadBytes mem data len
    match jsonParse json with
    | none => return (.zero, mem)
    | some tokens => handoffFieldsIn mem data tokens

/-! ## Trimming -/

variable {mem : List UInt8} {data len : Nat}

theorem skipBlanks_eq (h : data + len ≤ mem.length) :
    skipBlanks mem data len =
      .ok (data + (((mem.drop data).take len).takeWhile isBlank).length,
        len - (((mem.drop data).take len).takeWhile isBlank).length) := by
  induction len generalizing data with
  | zero => rw [skipBlanks, List.take_zero]; rfl
  | succ len ih =>
    have hlt : data < mem.length := by omega
    rw [skipBlanks, load_ok hlt, List.drop_eq_getElem_cons hlt, List.take_succ_cons]
    by_cases hc : isBlank mem[data] = true
    · have hrest := @ih (data + 1) (by omega)
      rw [List.takeWhile_cons_of_pos hc, List.length_cons]
      simp only [bind, Except.bind, hc, if_true, hrest]
      congr 2 <;> omega
    · rw [List.takeWhile_cons_of_neg hc]
      simp only [bind, Except.bind, if_neg hc]
      rfl

theorem trimEnd_concat (text : List UInt8) (c : UInt8) :
    trimEnd (text ++ [c]) = if isBlank c then trimEnd text else text ++ [c] := by
  rw [trimEnd, trimEnd, List.reverse_append, List.reverse_singleton, List.singleton_append,
    List.dropWhile_cons]
  split
  · rfl
  · rw [List.reverse_cons, List.reverse_reverse]

theorem trimBlanks_eq (h : data + len ≤ mem.length) :
    trimBlanks mem data len = .ok (trimEnd ((mem.drop data).take len)).length := by
  induction len with
  | zero => rw [trimBlanks, List.take_zero]; rfl
  | succ len ih =>
    have hlt : data + len < mem.length := by omega
    have hget : len < (mem.drop data).length := by rw [List.length_drop]; omega
    have hlast : (mem.drop data).take (len + 1) = (mem.drop data).take len ++ [mem[data + len]] := by
      rw [List.take_succ_eq_append_getElem hget, List.getElem_drop]
    rw [trimBlanks, load_ok hlt, hlast, trimEnd_concat]
    by_cases hc : isBlank mem[data + len] = true
    · simp only [bind, Except.bind, hc, if_true, ih (by omega)]
    · simp only [bind, Except.bind, if_neg hc]
      rw [List.length_append, List.length_take, List.length_singleton, Nat.min_eq_left (by omega)]

/-! ## The tokens -/

/-- **What is assumed of `jsmn_parse`**: the range of a token lies within the text, and a string
ends at a closing quote inside it. -/
def TokensInside (jsonParse : List UInt8 → Option (List Token)) : Prop :=
  ∀ json tokens, jsonParse json = some tokens → ∀ tok ∈ tokens,
    tok.start ≤ tok.stop ∧ tok.stop ≤ json.length ∧
      (tok.type = .string → json[tok.stop]? = some 34)

theorem tokensInside_jsonParse : TokensInside jsonParse := fun _ _ h => Jsmn.parse_inside h

/-- A text in memory, with tokens inside it. A string ends before the text does, so that there is a
byte for the NUL that ends it. -/
structure TextAt (mem : List UInt8) (data : Nat) (json : List UInt8) (tokens : List Token) :
    Prop where
  text : (mem.drop data).take json.length = json
  fits : data + json.length ≤ mem.length
  ordered : ∀ tok ∈ tokens, tok.start ≤ tok.stop
  inside : ∀ tok ∈ tokens, tok.stop ≤ json.length
  closed : ∀ tok ∈ tokens, tok.type = .string → tok.stop < json.length

variable {json : List UInt8} {tokens : List Token} {tok : Token} {key : String}

/-- The text of a token is read inside the text. -/
theorem TextAt.loadBytes_token (h : TextAt mem data json tokens) (ht : tok ∈ tokens) :
    loadBytes mem (data + tok.start) (tok.stop - tok.start) = .ok (tok.text json) := by
  have hfits := h.fits
  have hordered := h.ordered tok ht
  have hinside := h.inside tok ht
  rw [loadBytes, if_pos (by omega), ← text_take hinside, h.text]

theorem TextAt.jsonTokEqIn (h : TextAt mem data json tokens) (ht : tok ∈ tokens) (s : String) :
    jsonTokEqIn mem data tok s = .ok (jsonTokEq json tok s) := by
  have hlen : (tok.text json).length = tok.stop - tok.start := by
    have hinside := h.inside tok ht
    rw [Token.text, List.length_take, List.length_drop]
    omega
  rw [Uring.jsonTokEqIn, jsonTokEq]
  by_cases hs : tok.type = .string
  · by_cases hl : (ascii s).length = tok.stop - tok.start
    · rw [if_pos ⟨hs, hl⟩, h.loadBytes_token ht]
      simp only [bind, Except.bind, pure, Except.pure, hs, true_and]
    · have hne : tok.text json ≠ ascii s := fun heq => hl (by rw [← heq, hlen])
      rw [if_neg fun hand => hl hand.2]
      simp [hne]
  · rw [if_neg fun hand => hs hand.1]
    simp [hs]

theorem TextAt.jsonTokIntIn (h : TextAt mem data json tokens) (ht : tok ∈ tokens) :
    jsonTokIntIn mem data tok = .ok (jsonTokInt json tok) := by
  rw [Uring.jsonTokIntIn, jsonTokInt]
  by_cases hp : tok.type = .primitive ∧ tok.stop - tok.start < 32
  · rw [if_pos hp, if_pos hp, h.loadBytes_token ht]
    simp only [bind, Except.bind, pure, Except.pure]
    cases strtol (cstring (tok.text json)) with
    | none => rfl
    | some parsed => rfl
  · rw [if_neg hp, if_neg hp]

theorem TextAt.jsonFindFromIn (h : TextAt mem data json tokens) (key : String) (fuel i : Nat) :
    jsonFindFromIn mem data tokens key fuel i = .ok (jsonFindFrom json tokens key fuel i) := by
  induction fuel generalizing i with
  | zero => rfl
  | succ fuel ih =>
    rw [Uring.jsonFindFromIn, jsonFindFrom]
    cases hname : tokens[i]? with
    | none => rfl
    | some name =>
      have heq := h.jsonTokEqIn (List.mem_of_getElem? hname) key
      cases tokens[i + 1]? with
      | none => simp only [heq, bind, Except.bind, pure, Except.pure]
      | some value =>
        simp only [heq, bind, Except.bind, pure, Except.pure, ih]
        split
        · rfl
        · split <;> rfl

theorem TextAt.jsonFindKeyIn (h : TextAt mem data json tokens) (key : String) :
    jsonFindKeyIn mem data tokens key = .ok (jsonFindKey json tokens key) := by
  cases tokens with
  | nil => rfl
  | cons root rest =>
    rw [Uring.jsonFindKeyIn, jsonFindKey]
    split
    · exact h.jsonFindFromIn key _ 1
    · rfl

/-- The value found is a token. -/
theorem mem_of_jsonFindKey (h : jsonFindKey json tokens key = some tok) : tok ∈ tokens := by
  rw [jsonFindKey_eq] at h
  obtain ⟨j, -, hj⟩ := Option.bind_eq_some_iff.mp h
  exact List.mem_of_getElem? hj

theorem TextAt.numberIn (h : TextAt mem data json tokens) (key : String) :
    numberIn mem data tokens key =
      .ok (((jsonFindKey json tokens key).map (jsonTokInt json)).getD 0) := by
  rw [Uring.numberIn, h.jsonFindKeyIn]
  cases hfound : jsonFindKey json tokens key with
  | none => rfl
  | some tok => exact h.jsonTokIntIn (mem_of_jsonFindKey hfound)

/-- One byte replaced. -/
theorem overwritten_singleton {a : List UInt8} {i : Nat} (h : i < a.length) (c : UInt8) :
    overwritten a i [c] = a.set i c := by
  rw [overwritten, List.set_eq_take_append_cons_drop, if_pos h, List.length_singleton,
    List.append_assoc, List.singleton_append]

/-- **A string is found and ended** inside the text. -/
theorem TextAt.stringIn (h : TextAt mem data json tokens) (key : String) :
    stringIn mem data tokens key =
      .ok ((jsonFindString json tokens key).map (data + ·.start),
        terminate mem data (jsonFindString json tokens key)) := by
  rw [Uring.stringIn, h.jsonFindKeyIn, jsonFindString]
  cases hfound : jsonFindKey json tokens key with
  | none => rfl
  | some tok =>
    have ht := mem_of_jsonFindKey hfound
    by_cases hs : tok.type = .string
    · have hfits := h.fits
      have hclosed := h.closed tok ht hs
      have hstore : store mem (data + tok.stop) [0] = .ok (mem.set (data + tok.stop) 0) := by
        rw [store_ok (by rw [List.length_singleton]; omega), overwritten_singleton (by omega)]
      have hkeep : Option.filter (fun t => decide (t.type = .string)) (some tok) = some tok :=
        Option.filter_some_pos (by simpa using hs)
      simp only [bind, Except.bind, pure, Except.pure, if_pos hs, hstore, hkeep]
      rfl
    · have hdrop : Option.filter (fun t => decide (t.type = .string)) (some tok) = none :=
        Option.filter_some_neg (by simpa using hs)
      simp only [bind, Except.bind, pure, Except.pure, if_neg hs, hdrop]
      rfl

@[simp] theorem length_terminate (mem : List UInt8) (data : Nat) (u : Option Token) :
    (terminate mem data u).length = mem.length := by
  cases u with
  | none => rfl
  | some t => exact List.length_set

/-- A NUL behind a string of the text, seen in the text. -/
theorem take_drop_terminate (h : (mem.drop data).take json.length = json) (u : Option Token) :
    ((terminate mem data u).drop data).take json.length = terminate json 0 u := by
  cases u with
  | none => exact h
  | some t =>
    rw [terminate, terminate, List.drop_set, if_neg (by omega), Nat.add_sub_cancel_left,
      List.take_set, h, Nat.zero_add]

/-- **Behind a string that is ended** the tokens are where they were: the NUL replaces the quote
behind the string, which no other string has in it. -/
theorem TextAt.terminate (h : TextAt mem data json tokens) (u : Option Token) :
    TextAt (terminate mem data u) data (terminate json 0 u) tokens where
  text := by rw [length_terminate]; exact take_drop_terminate h.text u
  fits := by rw [length_terminate, length_terminate]; exact h.fits
  ordered := h.ordered
  inside := fun tok ht => by rw [length_terminate]; exact h.inside tok ht
  closed := fun tok ht hs => by rw [length_terminate]; exact h.closed tok ht hs

/-! ## The whole function -/

/-- The token of the prompt. -/
def promptToken (json : List UInt8) (tokens : List Token) : Option Token :=
  jsonFindString json tokens "prompt"

/-- The token of the model, found when the prompt has been ended. -/
def modelToken (json : List UInt8) (tokens : List Token) : Option Token :=
  jsonFindString (terminate json 0 (promptToken json tokens)) tokens "model"

/-- The fields of a text at `data`. -/
def pointersOf (json : List UInt8) (tokens : List Token) (data : Nat) : HandoffPointers where
  userId := ((jsonFindKey json tokens "user_id").map (jsonTokInt json)).getD 0
  prompt := (promptToken json tokens).map (data + ·.start)
  model := (modelToken json tokens).map (data + ·.start)
  maxTokens :=
    (((jsonFindKey json tokens "max_tokens").map (jsonTokInt json)).getD 0).bmod 4294967296

/-- The memory with both strings ended. -/
def endStrings (mem json : List UInt8) (tokens : List Token) (data : Nat) : List UInt8 :=
  terminate (terminate mem data (promptToken json tokens)) data (modelToken json tokens)

theorem TextAt.handoffFieldsIn (h : TextAt mem data json tokens) :
    handoffFieldsIn mem data tokens =
      .ok (pointersOf json tokens data, endStrings mem json tokens data) := by
  have hmodel := (h.terminate (promptToken json tokens)).stringIn "model"
  rw [Uring.handoffFieldsIn, h.numberIn, h.numberIn, h.stringIn]
  simp only [bind, Except.bind, pure, Except.pure]
  rw [show jsonFindString json tokens "prompt" = promptToken json tokens from rfl, hmodel]
  rfl

/-- What comes of a text at `data`. -/
def handoffResult (jsonParse : List UInt8 → Option (List Token)) (mem json : List UInt8)
    (data : Nat) : HandoffPointers × List UInt8 :=
  if json = [] then (.zero, mem)
  else
    match jsonParse json with
    | none => (.zero, mem)
    | some tokens => (pointersOf json tokens data, endStrings mem json tokens data)

/-- Where the text starts: behind the blanks. -/
def blanksBefore (mem : List UInt8) (len : Nat) : Nat := ((mem.take len).takeWhile isBlank).length

/-- The text lies within the first bytes. -/
theorem handoffText_fits (hlen : len ≤ mem.length) :
    blanksBefore mem len + (handoffText mem len).length ≤ len := by
  have hblank : blanksBefore mem len ≤ (mem.take len).length := (List.takeWhile_sublist isBlank).length_le
  have htext : (handoffText mem len).length ≤ ((mem.take len).drop (blanksBefore mem len)).length := by
    rw [handoffText, trimEnd, List.length_reverse, blanksBefore]
    exact Nat.le_trans (List.dropWhile_sublist isBlank).length_le (Nat.le_of_eq List.length_reverse)
  rw [List.length_drop] at htext
  rw [List.length_take] at hblank htext
  omega

/-- The text of the data, where the function leaves it. -/
theorem textAt_handoffText {jsonParse : List UInt8 → Option (List Token)}
    (hj : TokensInside jsonParse) (hlen : len ≤ mem.length)
    (hparse : jsonParse (handoffText mem len) = some tokens) :
    TextAt mem (blanksBefore mem len) (handoffText mem len) tokens where
  text := (handoffText_start mem len).symm
  fits := Nat.le_trans (handoffText_fits hlen) hlen
  ordered := fun tok ht => (hj _ _ hparse tok ht).1
  inside := fun tok ht => (hj _ _ hparse tok ht).2.1
  closed := fun tok ht hs => by
    obtain ⟨-, -, hquote⟩ := hj _ _ hparse tok ht
    exact (List.getElem?_eq_some_iff.mp (hquote hs)).1

/-- **What `handoff_parse_data` does**, without a fault. The result is put together from the text
alone, which is why what lies behind the text in the buffer makes no difference. -/
theorem handoffParseDataIn_eq {jsonParse : List UInt8 → Option (List Token)}
    (hj : TokensInside jsonParse) (hlen : len ≤ mem.length) :
    handoffParseDataIn jsonParse mem len =
      .ok (handoffResult jsonParse mem (handoffText mem len) (blanksBefore mem len)) := by
  have hskip := @skipBlanks_eq mem 0 len (by omega)
  rw [List.drop_zero, Nat.zero_add] at hskip
  have hfits := handoffText_fits hlen
  have htrim := @trimBlanks_eq mem (blanksBefore mem len) (len - blanksBefore mem len) (by omega)
  rw [← List.drop_take] at htrim
  rw [handoffParseDataIn, hskip, handoffResult]
  simp only [bind, Except.bind, pure, Except.pure]
  rw [show trimBlanks mem ((mem.take len).takeWhile isBlank).length
    (len - ((mem.take len).takeWhile isBlank).length) = .ok (handoffText mem len).length from htrim]
  by_cases hnil : handoffText mem len = []
  · simp only [hnil, List.length_nil, if_true]
  · have hne : (handoffText mem len).length ≠ 0 := fun h0 => hnil (List.length_eq_zero_iff.mp h0)
    have hload : loadBytes mem ((mem.take len).takeWhile isBlank).length
        (handoffText mem len).length = .ok (handoffText mem len) := by
      rw [loadBytes]
      exact (if_pos (Nat.le_trans hfits hlen)).trans
        (congrArg Except.ok (handoffText_start mem len).symm)
    simp only [hload, if_neg hne, if_neg hnil]
    cases hparse : jsonParse (handoffText mem len) with
    | none => rfl
    | some tokens => exact (textAt_handoffText hj hlen hparse).handoffFieldsIn

/-! ## Nothing behind the message counts -/

/-- The data with its strings read from memory. -/
def HandoffPointers.fields (out : HandoffPointers) (mem : List UInt8) : Checked HandoffData := do
  let prompt ← out.prompt.mapM (loadString mem)
  let model ← out.model.mapM (loadString mem)
  return ⟨out.userId, prompt, model, out.maxTokens⟩

/-- The token of a string that is found is one of the tokens. -/
theorem mem_of_stringToken (ht : tok ∈ promptToken json tokens ∨ tok ∈ modelToken json tokens) :
    tok ∈ tokens ∧ tok.type = .string :=
  ht.elim mem_of_jsonFindString mem_of_jsonFindString

/-- **Behind each string is a NUL**: the strings are read without a fault. -/
theorem TextAt.loadString_ended (h : TextAt mem data json tokens)
    (ht : tok ∈ promptToken json tokens ∨ tok ∈ modelToken json tokens) :
    loadString (endStrings mem json tokens data) (data + tok.start) =
      .ok (cstring ((endStrings mem json tokens data).drop (data + tok.start))) := by
  obtain ⟨hmem, hstring⟩ := mem_of_stringToken ht
  have hfits := h.fits
  have hordered := h.ordered tok hmem
  have hclosed := h.closed tok hmem hstring
  have hnul : (endStrings mem json tokens data)[data + tok.stop]? = some 0 := by
    rw [endStrings]
    rcases ht with hprompt | hmodel
    · rw [Option.mem_def.mp hprompt]
      exact terminate_keeps (terminate_nul (by omega))
    · rw [Option.mem_def.mp hmodel]
      exact terminate_nul (by rw [length_terminate]; omega)
  have hin : 0 ∈ (endStrings mem json tokens data).drop (data + tok.start) := by
    refine List.mem_of_getElem? (i := tok.stop - tok.start) ?_
    rw [List.getElem?_drop, show data + tok.start + (tok.stop - tok.start) = data + tok.stop by omega,
      hnul]
  exact if_pos hin

/-- What a pointer reads, with both strings ended. -/
def pointee (mem json : List UInt8) (tokens : List Token) (data : Nat) (tok : Token) :
    List UInt8 :=
  cstring ((endStrings mem json tokens data).drop (data + tok.start))

theorem TextAt.mapM_loadString (h : TextAt mem data json tokens) {u : Option Token}
    (hu : ∀ t ∈ u, t ∈ promptToken json tokens ∨ t ∈ modelToken json tokens) :
    (u.map (data + ·.start)).mapM (loadString (endStrings mem json tokens data)) =
      .ok (u.map (pointee mem json tokens data)) := by
  cases u with
  | none => rfl
  | some t =>
    have hload := h.loadString_ended (hu t rfl)
    simp only [Option.map_some, Option.mapM_some, hload, Functor.map, Except.map]
    rfl

/-- The data of the whole function. -/
theorem TextAt.fields (h : TextAt mem data json tokens) :
    (pointersOf json tokens data).fields (endStrings mem json tokens data) =
      .ok { userId := (pointersOf json tokens data).userId
            prompt := (promptToken json tokens).map (pointee mem json tokens data)
            model := (modelToken json tokens).map (pointee mem json tokens data)
            maxTokens := (pointersOf json tokens data).maxTokens } := by
  have hprompt := h.mapM_loadString (u := promptToken json tokens) fun _ ht => .inl ht
  have hmodel := h.mapM_loadString (u := modelToken json tokens) fun _ ht => .inr ht
  rw [HandoffPointers.fields]
  simp only [pointersOf, hprompt, hmodel, bind, Except.bind, pure, Except.pure]

/-- The model on lists, when there are tokens. -/
theorem handoffParseData_tokens {jsonParse : List UInt8 → Option (List Token)}
    (hne : handoffText mem len ≠ []) (hparse : jsonParse (handoffText mem len) = some tokens) :
    handoffParseData jsonParse mem len =
      ({ userId := (pointersOf (handoffText mem len) tokens (blanksBefore mem len)).userId
         prompt := (promptToken (handoffText mem len) tokens).map
           (pointee mem (handoffText mem len) tokens (blanksBefore mem len))
         model := (modelToken (handoffText mem len) tokens).map
           (pointee mem (handoffText mem len) tokens (blanksBefore mem len))
         maxTokens := (pointersOf (handoffText mem len) tokens (blanksBefore mem len)).maxTokens },
        endStrings mem (handoffText mem len) tokens (blanksBefore mem len)) := by
  have hunfold : handoffText mem len =
    trimEnd ((mem.take len).drop ((mem.take len).takeWhile isBlank).length) := rfl
  have hended := take_drop_terminate (handoffText_start mem len).symm
    (promptToken (handoffText mem len) tokens)
  have hmodel : jsonFindString
      (((terminate mem ((mem.take len).takeWhile isBlank).length
        (jsonFindString (handoffText mem len) tokens "prompt")).drop
          ((mem.take len).takeWhile isBlank).length).take (handoffText mem len).length)
      tokens "model" = modelToken (handoffText mem len) tokens :=
    congrArg (jsonFindString · tokens "model") hended
  simp only [handoffParseData, ← hunfold, if_neg hne, hparse, hmodel]
  rfl

/-- **The model of the function on lists is right**: the code in memory computes it. -/
theorem handoffParseDataIn_refines {jsonParse : List UInt8 → Option (List Token)}
    (hj : TokensInside jsonParse) (hlen : len ≤ mem.length) :
    ∃ out, handoffParseDataIn jsonParse mem len =
        .ok (out, (handoffParseData jsonParse mem len).2) ∧
      out.fields (handoffParseData jsonParse mem len).2 =
        .ok (handoffParseData jsonParse mem len).1 := by
  have hunfold : handoffText mem len =
    trimEnd ((mem.take len).drop ((mem.take len).takeWhile isBlank).length) := rfl
  rw [handoffParseDataIn_eq hj hlen]
  by_cases hnil : handoffText mem len = []
  · have hdata : handoffParseData jsonParse mem len = (.zero, mem) := by
      simp only [handoffParseData, ← hunfold, if_pos hnil]
    rw [hdata, handoffResult, if_pos hnil]
    exact ⟨.zero, rfl, rfl⟩
  · cases hparse : jsonParse (handoffText mem len) with
    | none =>
      have hdata : handoffParseData jsonParse mem len = (.zero, mem) := by
        simp only [handoffParseData, ← hunfold, if_neg hnil, hparse]
      simp only [hdata, handoffResult, if_neg hnil, hparse]
      exact ⟨.zero, rfl, rfl⟩
    | some tokens =>
      simp only [handoffParseData_tokens hnil hparse, handoffResult, if_neg hnil, hparse]
      exact ⟨_, rfl, (textAt_handoffText hj hlen hparse).fields⟩

/-! ## The frame -/

theorem terminate_append {a b : List UInt8} {u : Option Token}
    (h : ∀ t ∈ u, data + t.stop < a.length) :
    terminate (a ++ b) data u = terminate a data u ++ b := by
  cases u with
  | none => rfl
  | some t => exact List.set_append_left _ _ (h t rfl)

/-- What is behind the text is not touched. -/
theorem TextAt.endStrings_append (h : TextAt mem data json tokens) (rest : List UInt8) :
    endStrings (mem ++ rest) json tokens data = endStrings mem json tokens data ++ rest := by
  have hend : ∀ u : Option Token, (∀ t ∈ u, t ∈ tokens ∧ t.type = .string) →
      ∀ t ∈ u, data + t.stop < mem.length := by
    intro u hu t ht
    have hclosed := h.closed t (hu t ht).1 (hu t ht).2
    have hfits := h.fits
    omega
  have hprompt := hend (promptToken json tokens) fun t ht => mem_of_stringToken (.inl ht)
  have hmodel := hend (modelToken json tokens) fun t ht => mem_of_stringToken (.inr ht)
  rw [endStrings, endStrings, terminate_append hprompt, terminate_append]
  intro t ht
  rw [length_terminate]
  exact hmodel t ht

@[simp] theorem length_endStrings (mem json : List UInt8) (tokens : List Token) (data : Nat) :
    (endStrings mem json tokens data).length = mem.length := by
  rw [endStrings, length_terminate, length_terminate]

theorem mapM_loadString_append {a : List UInt8} {u : Option Nat} {v : Option (List UInt8)}
    (h : u.mapM (loadString a) = .ok v) (b : List UInt8) :
    u.mapM (loadString (a ++ b)) = .ok v := by
  cases u with
  | none => exact h
  | some p =>
    rw [Option.mapM_some] at h ⊢
    cases hload : loadString a p with
    | error fault => rw [hload] at h; cases h
    | ok text => rw [loadString_append hload, ← hload]; exact h

/-- Strings that end in the first part of the memory are read from the whole. -/
theorem HandoffPointers.fields_append {out : HandoffPointers} {a : List UInt8} {d : HandoffData}
    (h : out.fields a = .ok d) (b : List UInt8) : out.fields (a ++ b) = .ok d := by
  rw [HandoffPointers.fields] at h ⊢
  cases hprompt : out.prompt.mapM (loadString a) with
  | error fault => rw [hprompt] at h; cases h
  | ok prompt =>
    cases hmodel : out.model.mapM (loadString a) with
    | error fault => rw [hprompt, hmodel] at h; cases h
    | ok model =>
      rw [mapM_loadString_append hprompt, mapM_loadString_append hmodel, ← hprompt, ← hmodel]
      exact h

/-- **A run on the message alone** is the run on the message with anything behind it. -/
theorem handoffParseDataIn_append {jsonParse : List UInt8 → Option (List Token)}
    (hj : TokensInside jsonParse) (first rest : List UInt8) :
    handoffParseDataIn jsonParse (first ++ rest) first.length =
      (handoffParseDataIn jsonParse first first.length).map fun r => (r.1, r.2 ++ rest) := by
  have hlen : first.length ≤ (first ++ rest).length := by
    rw [List.length_append]
    exact Nat.le_add_right _ _
  have htext : handoffText (first ++ rest) first.length = handoffText first first.length := by
    rw [handoffText, handoffText, List.take_left, List.take_length]
  have hblank : blanksBefore (first ++ rest) first.length = blanksBefore first first.length := by
    rw [blanksBefore, blanksBefore, List.take_left, List.take_length]
  rw [handoffParseDataIn_eq hj hlen, handoffParseDataIn_eq hj (Nat.le_refl _), htext, hblank]
  by_cases hnil : handoffText first first.length = []
  · rw [handoffResult, handoffResult, if_pos hnil, if_pos hnil]
    rfl
  · cases hparse : jsonParse (handoffText first first.length) with
    | none =>
      simp only [handoffResult, if_neg hnil, hparse]
      rfl
    | some tokens =>
      have h := textAt_handoffText hj (Nat.le_refl _) hparse
      simp only [handoffResult, if_neg hnil, hparse, h.endStrings_append]
      rfl

/-- The first bytes keep their number. -/
theorem length_handoffResult (jsonParse : List UInt8 → Option (List Token))
    (mem json : List UInt8) (data : Nat) :
    (handoffResult jsonParse mem json data).2.length = mem.length := by
  by_cases hnil : json = []
  · rw [handoffResult, if_pos hnil]
  · cases hparse : jsonParse json with
    | none => simp only [handoffResult, if_neg hnil, hparse]
    | some tokens => simp only [handoffResult, if_neg hnil, hparse, length_endStrings]

/-- **Confined to the message.** On the first `len` bytes alone the function makes no access outside
them. In every buffer that starts with these bytes it leaves the others alone, and yields the same
numbers and the same strings. -/
def Confined (jsonParse : List UInt8 → Option (List Token)) (buf : List UInt8) (len : Nat) : Prop :=
  ∃ out first d, handoffParseDataIn jsonParse (buf.take len) len = .ok (out, first) ∧
    first.length = len ∧ out.fields first = .ok d ∧
      ∀ buf' : List UInt8, buf'.take len = buf.take len →
        handoffParseDataIn jsonParse buf' len = .ok (out, first ++ buf'.drop len) ∧
          out.fields (first ++ buf'.drop len) = .ok d

theorem confined_of_inside {jsonParse : List UInt8 → Option (List Token)}
    (hj : TokensInside jsonParse) {buf : List UInt8} (hlen : len ≤ buf.length) :
    Confined jsonParse buf len := by
  have hfirst : (buf.take len).length = len := List.length_take_of_le hlen
  obtain ⟨out, hrun, hfields⟩ := handoffParseDataIn_refines hj (Nat.le_of_eq hfirst.symm)
  refine ⟨out, _, _, hrun, ?_, hfields, fun buf' hsame => ⟨?_, HandoffPointers.fields_append hfields _⟩⟩
  · have hlength := length_handoffResult jsonParse (buf.take len)
      (handoffText (buf.take len) len) (blanksBefore (buf.take len) len)
    have heq := handoffParseDataIn_eq hj (Nat.le_of_eq hfirst.symm)
    rw [hrun] at heq
    rw [← Except.ok.inj heq, hfirst] at hlength
    exact hlength
  · have happend := handoffParseDataIn_append hj (buf.take len) (buf'.drop len)
    rw [hfirst, hrun] at happend
    have hsplit := List.take_append_drop len buf'
    rw [hsame] at hsplit
    rw [hsplit] at happend
    exact happend

/-- **Handoff parsing is confined to the message**, whatever parser it calls, if the tokens of this
parser lie inside the text: nothing behind the message is read or written, and so nothing there, an
earlier message in the same buffer among it, makes a difference. -/
theorem handoffParseData_confined {jsonParse : List UInt8 → Option (List Token)}
    (hj : TokensInside jsonParse) {buf : List UInt8} (hlen : len ≤ buf.length) :
    Confined jsonParse buf len :=
  confined_of_inside hj hlen

/-- With the `jsmn_parse` of the daemon nothing is assumed. -/
theorem confined_jsonParse {buf : List UInt8} (hlen : len ≤ buf.length) :
    Confined jsonParse buf len :=
  confined_of_inside tokensInside_jsonParse hlen

/-- The text `{"prompt":"a"}`. -/
def promptText : List UInt8 := [123, 34, 112, 114, 111, 109, 112, 116, 34, 58, 34, 97, 34, 125]

theorem handoffParseData_promptText :
    (handoffParseData jsonParse promptText 14).1 = ⟨0, some [97], none, 0⟩ := by
  decide +kernel

/-- The prompt `a` is found, in a new buffer and in one that holds more of an earlier message. -/
theorem handoffParseData_confined_promptText : ∃ out first,
    handoffParseDataIn jsonParse promptText 14 = .ok (out, first) ∧
      out.fields first = .ok ⟨0, some [97], none, 0⟩ ∧
      handoffParseDataIn jsonParse (promptText ++ [115, 34, 125]) 14 =
        .ok (out, first ++ [115, 34, 125]) ∧
      out.fields (first ++ [115, 34, 125]) = .ok ⟨0, some [97], none, 0⟩ := by
  have hlen : 14 ≤ promptText.length := by decide
  obtain ⟨out, first, d, hrun, -, hd, hall⟩ :=
    handoffParseData_confined tokensInside_jsonParse hlen
  obtain ⟨hmore, hdmore⟩ := hall (promptText ++ [115, 34, 125]) (by decide)
  obtain ⟨out', hrun', hfields⟩ := handoffParseDataIn_refines tokensInside_jsonParse hlen
  rw [show promptText.take 14 = promptText from rfl] at hrun
  obtain ⟨rfl, rfl⟩ := Prod.mk.inj (Except.ok.inj (hrun.symm.trans hrun'))
  rw [handoffParseData_promptText] at hfields
  obtain rfl := Except.ok.inj (hd.symm.trans hfields)
  exact ⟨out, _, hrun, hd, hmore, hdmore⟩

end SocketHandoff.Uring
