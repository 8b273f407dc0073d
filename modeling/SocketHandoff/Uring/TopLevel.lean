import SocketHandoff.Uring.Handoff
import SocketHandoff.Lib.JsonString
import Mathlib.Data.List.Infix

/-!
# The members of a handoff

`jsmn_parse` yields the tokens of a text in document order, each container with the number of its
children. `json_find_key` skips a container by twice that number, which leads to the next member
when every child of an object is a scalar, and beyond it or not far enough otherwise.
-/

namespace SocketHandoff.Uring

/-! ## Documents -/

/-- A stretch of a text. -/
structure Span where
  start : Nat
  stop : Nat
  deriving DecidableEq, Repr

/-- A JSON value, with the stretch of each token. -/
inductive Node
  | string (span : Span)
  | primitive (span : Span)
  | array (span : Span) (elems : List Node)
  | object (span : Span) (members : List (Span × Node))

/-- The text of a stretch. -/
def Span.text (span : Span) (json : List UInt8) : List UInt8 :=
  (json.drop span.start).take (span.stop - span.start)

def Span.token (span : Span) (type : TokenType) (size : Nat) : Token :=
  ⟨type, span.start, span.stop, size⟩

mutual

/-- The tokens of a value. -/
def Node.tokens : Node → List Token
  | .string span => [span.token .string 0]
  | .primitive span => [span.token .primitive 0]
  | .array span elems => span.token .array elems.length :: elemTokens elems
  | .object span members => span.token .object members.length :: memberTokens members

def elemTokens : List Node → List Token
  | [] => []
  | v :: rest => v.tokens ++ elemTokens rest

/-- The tokens of members: the value is the one child of its name. -/
def memberTokens : List (Span × Node) → List Token
  | [] => []
  | (k, v) :: rest => k.token .string 1 :: (v.tokens ++ memberTokens rest)

end

/-- The token of the value itself. -/
def Node.head : Node → Token
  | .string span => span.token .string 0
  | .primitive span => span.token .primitive 0
  | .array span elems => span.token .array elems.length
  | .object span members => span.token .object members.length

theorem Node.tokens_eq (v : Node) : v.tokens = v.head :: v.tokens.tail := by
  cases v <;> rw [tokens] <;> rfl

/-- By how many tokens `json_find_key` skips a value. -/
def Token.skip (tok : Token) : Nat :=
  if tok.type = .object ∨ tok.type = .array then 1 + tok.size * 2 else 1

/-- A value is skipped as a whole. The code reckons with two tokens for each thing that the size of
the token counts, be it a member of an object or an element of an array. -/
def Node.Even (v : Node) : Prop := v.head.skip = v.tokens.length

instance (v : Node) : Decidable v.Even := inferInstanceAs (Decidable (_ = _))

/-! ## `json_find_key` -/

variable {json json' : List UInt8} {tokens : List Token} {key : String} {i fuel : Nat} {k : Span}
  {v : Node} {members rest : List (Span × Node)}

/-- The loop of `json_find_key`, with the index it returns; see `jsonFindFrom`. -/
def jsonFindIndexFrom (json : List UInt8) (tokens : List Token) (key : String) :
    (fuel i : Nat) → Option Nat
  | 0, _ => none
  | fuel + 1, i =>
    match tokens[i]?, tokens[i + 1]? with
    | some name, some value =>
      if jsonTokEq json name key then some (i + 1)
      else if value.type = .object ∨ value.type = .array then
        jsonFindIndexFrom json tokens key fuel (i + 2 + value.size * 2)
      else jsonFindIndexFrom json tokens key fuel (i + 2)
    | _, _ => none

/-- `json_find_key`; `none` for -1. -/
def jsonFindIndex (json : List UInt8) (tokens : List Token) (key : String) : Option Nat :=
  match tokens with
  | root :: _ =>
    if root.type = .object then jsonFindIndexFrom json tokens key tokens.length 1 else none
  | [] => none

theorem jsonFindFrom_eq (fuel i : Nat) : jsonFindFrom json tokens key fuel i =
    (jsonFindIndexFrom json tokens key fuel i).bind fun j => tokens[j]? := by
  induction fuel generalizing i with
  | zero => rfl
  | succ fuel ih =>
    simp only [jsonFindFrom, jsonFindIndexFrom]
    cases hname : tokens[i]? with
    | none => rfl
    | some name =>
      cases hvalue : tokens[i + 1]? with
      | none => rfl
      | some value =>
        simp only [ih]
        split
        · simp [hvalue]
        · split <;> rfl

/-- `jsonFindKey` is `json_find_key` with the token in place of its index. -/
theorem jsonFindKey_eq : jsonFindKey json tokens key =
    (jsonFindIndex json tokens key).bind fun j => tokens[j]? := by
  cases tokens with
  | nil => rfl
  | cons root tokens =>
    simp only [jsonFindKey, jsonFindIndex]
    split
    · exact jsonFindFrom_eq _ _
    · rfl

/-- Nothing is found behind the last token. -/
theorem jsonFindIndexFrom_end (h : tokens.length ≤ i) :
    jsonFindIndexFrom json tokens key fuel i = none := by
  cases fuel with
  | zero => rfl
  | succ fuel => rw [jsonFindIndexFrom, List.getElem?_eq_none h]

/-- One round of the loop. -/
theorem jsonFindIndexFrom_step {name value : Token} (hname : tokens[i]? = some name)
    (hvalue : tokens[i + 1]? = some value) :
    jsonFindIndexFrom json tokens key (fuel + 1) i =
      if jsonTokEq json name key then some (i + 1)
      else jsonFindIndexFrom json tokens key fuel (i + 1 + value.skip) := by
  rw [jsonFindIndexFrom, hname, hvalue]
  simp only [Token.skip]
  split
  · rfl
  · split <;> congr 1
    omega

/-! ## The members at the top -/

/-- A member has this name. -/
def Named (json : List UInt8) (key : String) (k : Span) : Prop :=
  Json.decode (k.text json) = some (ascii key)

instance (key : String) (k : Span) : Decidable (Named json key k) :=
  inferInstanceAs (Decidable (_ = _))

/-- The index of the value of the first member with a name, when the members begin at `i`. -/
def memberIndex (json : List UInt8) (key : String) : List (Span × Node) → Nat → Option Nat
  | [], _ => none
  | (k, v) :: rest, i =>
    if Named json key k then some (i + 1) else memberIndex json key rest (i + 1 + v.tokens.length)

/-- Up to the member with a name no name has an escape, and every value is skipped as a whole; the
last value may also be skipped by more than there is. What comes behind the member does not matter,
for the search is over by then. -/
def Clear (json : List UInt8) (key : String) : List (Span × Node) → Prop
  | [] => True
  | (k, v) :: rest =>
    (92 : UInt8) ∉ k.text json ∧
      (Named json key k ∨
        (v.Even ∨ rest = [] ∧ v.tokens.length ≤ v.head.skip) ∧ Clear json key rest)

theorem jsonTokEq_name : jsonTokEq json (k.token .string 1) key = true ↔
    k.text json = ascii key := by
  simp [jsonTokEq, Span.token, Token.text, Span.text]

/-- A name without escapes is compared as it is. -/
theorem named_iff (hb : (92 : UInt8) ∉ k.text json) (hd : (Json.decode (k.text json)).isSome) :
    Named json key k ↔ k.text json = ascii key := by
  rw [Named, Json.decode_plain (Json.plain_of_decode hb hd), Option.some_inj]

/-- **The loop goes from member to member.** The induction is on the members. The condition is what
it needs on the way: no name has an escape, as names are compared as they are written, and each
value is skipped as a whole. -/
theorem jsonFindIndexFrom_members {pre : List Token} (htok : tokens = pre ++ memberTokens members)
    (hfuel : (memberTokens members).length ≤ fuel)
    (hvalid : ∀ m ∈ members, (Json.decode (m.1.text json)).isSome)
    (hclear : Clear json key members) :
    jsonFindIndexFrom json tokens key fuel pre.length =
      memberIndex json key members pre.length := by
  induction members generalizing pre fuel with
  | nil =>
    rw [memberIndex]
    refine jsonFindIndexFrom_end ?_
    rw [htok, memberTokens, List.append_nil]
  | cons m rest ih =>
    obtain ⟨k, v⟩ := m
    obtain ⟨hb, hrest⟩ := hclear
    have hd : (Json.decode (k.text json)).isSome := hvalid (k, v) List.mem_cons_self
    rw [memberTokens] at htok hfuel
    have hname : tokens[pre.length]? = some (k.token .string 1) := by
      simp [htok]
    have hvalue : tokens[pre.length + 1]? = some v.head := by
      rw [htok, v.tokens_eq]
      simp
    obtain ⟨fuel, rfl⟩ : ∃ n, fuel = n + 1 := by
      refine Nat.exists_eq_succ_of_ne_zero ?_
      rw [List.length_cons] at hfuel
      omega
    rw [jsonFindIndexFrom_step hname hvalue, memberIndex]
    by_cases hn : Named json key k
    · rw [if_pos hn, if_pos (jsonTokEq_name.mpr ((named_iff hb hd).mp hn))]
    · have hne : ¬ jsonTokEq json (k.token .string 1) key = true :=
        fun h => hn ((named_iff hb hd).mpr (jsonTokEq_name.mp h))
      rw [if_neg hn, if_neg hne]
      obtain ⟨heven, hclear⟩ := hrest.resolve_left hn
      rcases heven with heven | ⟨rfl, hover⟩
      · have hpre : pre.length + 1 + v.head.skip =
            (pre ++ k.token .string 1 :: v.tokens).length := by
          rw [heven]
          simp
          omega
        have hnext : pre.length + 1 + v.tokens.length =
            (pre ++ k.token .string 1 :: v.tokens).length := by
          simp
          omega
        rw [hpre, hnext]
        refine ih (by simp [htok]) ?_ (fun m hm => hvalid m (List.mem_cons_of_mem _ hm)) hclear
        simp only [List.length_cons, List.length_append] at hfuel
        omega
      · rw [memberIndex]
        refine jsonFindIndexFrom_end ?_
        rw [htok]
        simp [memberTokens]
        omega

/-- The token of the first member with a name. -/
def topMember (json : List UInt8) (members : List (Span × Node)) (key : String) : Option Token :=
  (members.find? fun m => Named json key m.1).map fun m => m.2.head

theorem memberIndex_token {pre : List Token} (htok : tokens = pre ++ memberTokens members) :
    (memberIndex json key members pre.length).bind (fun j => tokens[j]?) =
      topMember json members key := by
  induction members generalizing pre with
  | nil => rfl
  | cons m rest ih =>
    obtain ⟨k, v⟩ := m
    rw [memberTokens] at htok
    rw [memberIndex, topMember]
    by_cases hn : Named json key k
    · rw [if_pos hn, List.find?_cons_of_pos (by simpa using hn), Option.bind_some, htok, v.tokens_eq]
      simp
    · rw [if_neg hn, List.find?_cons_of_neg (by simpa using hn)]
      have hnext : pre.length + 1 + v.tokens.length =
          (pre ++ k.token .string 1 :: v.tokens).length := by
        simp
        omega
      rw [hnext]
      exact ih (by simp [htok])

/-! ## `handoff_parse_data` -/

/-- The JSON text of the data: the blanks at both ends are skipped. -/
def handoffText (buf : List UInt8) (len : Nat) : List UInt8 :=
  trimEnd ((buf.take len).drop ((buf.take len).takeWhile isBlank).length)

/-- The fields of the members at the top. -/
def topLevelData (json : List UInt8) (members : List (Span × Node)) : HandoffData where
  userId := ((topMember json members "user_id").map (jsonTokInt json)).getD 0
  prompt := ((topMember json members "prompt").filter (·.type = .string)).map (·.text json)
  model := ((topMember json members "model").filter (·.type = .string)).map (·.text json)
  maxTokens := (((topMember json members "max_tokens").map (jsonTokInt json)).getD 0).bmod 4294967296

/-- What the tokens of a JSON text have to do with it: it has no NUL, and behind each string is a
quote that is part of no other. The strings are ended by a NUL in the place of that quote, one after
the other, which must not cut another one off. -/
structure Quoted (json : List UInt8) (tokens : List Token) : Prop where
  nonempty : json ≠ []
  noNul : (0 : UInt8) ∉ json
  bounds : ∀ t ∈ tokens, t.type = .string → t.start ≤ t.stop ∧ t.stop < json.length
  apart : ∀ t ∈ tokens, ∀ u ∈ tokens, t.type = .string → u.type = .string →
    u.stop < t.start ∨ t.stop ≤ u.stop

theorem handoffText_start (buf : List UInt8) (len : Nat) :
    handoffText buf len = (buf.drop ((buf.take len).takeWhile isBlank).length).take
      (handoffText buf len).length := by
  refine List.prefix_iff_eq_take.mp ?_
  have htrim : ∀ text : List UInt8, trimEnd text <+: text := by
    intro text
    have h := List.reverse_prefix.mpr (List.dropWhile_suffix isBlank (l := text.reverse))
    rwa [List.reverse_reverse] at h
  exact (htrim _).trans (List.IsPrefix.drop (List.take_prefix len buf) _)

/-- The text of a token whose NUL is in place. -/
theorem cstring_drop {bytes : List UInt8} {p n : Nat} (h : (0 : UInt8) ∉ (bytes.drop p).take n)
    (hn : bytes[p + n]? = some 0) : cstring (bytes.drop p) = (bytes.drop p).take n := by
  have hdrop : (bytes.drop p).drop n = 0 :: bytes.drop (p + n + 1) := by
    rw [List.drop_drop]
    obtain ⟨hlt, heq⟩ := List.getElem?_eq_some_iff.mp hn
    rw [List.drop_eq_getElem_cons hlt, heq]
  conv_lhs => rw [← List.take_append_drop n (bytes.drop p), hdrop]
  rw [cstring, List.takeWhile_append_of_pos, List.takeWhile_cons_of_neg (by simp), List.append_nil]
  intro c hc
  have hne : c ≠ 0 := fun e => h (e ▸ hc)
  simpa using hne

variable {buf : List UInt8} {offset : Nat} {tok : Token}

/-- The text of a token in the buffer. -/
theorem text_take (h : tok.stop ≤ fuel) : tok.text ((buf.drop offset).take fuel) =
    (buf.drop (offset + tok.start)).take (tok.stop - tok.start) := by
  rw [Token.text, List.drop_take, List.drop_drop, List.take_take, Nat.min_eq_left (by omega)]

/-- A NUL behind another string leaves a text as it is. -/
theorem terminate_text {u : Option Token}
    (h : ∀ t ∈ u, t.stop < tok.start ∨ tok.stop ≤ t.stop) :
    ((terminate buf offset u).drop (offset + tok.start)).take (tok.stop - tok.start) =
      (buf.drop (offset + tok.start)).take (tok.stop - tok.start) := by
  cases u with
  | none => rfl
  | some t =>
    have ht := h t rfl
    refine List.ext_getElem? fun j => ?_
    simp only [terminate, List.getElem?_take, List.getElem?_drop]
    split
    · rw [List.getElem?_set_ne (by omega)]
    · rfl

theorem terminate_nul (h : offset + tok.stop < buf.length) :
    (terminate buf offset (some tok))[offset + tok.stop]? = some 0 := by
  rw [terminate, List.getElem?_set_self h]

theorem terminate_keeps {u : Option Token} {p : Nat} (h : buf[p]? = some 0) :
    (terminate buf offset u)[p]? = some 0 := by
  cases u with
  | none => exact h
  | some t =>
    rw [terminate, List.getElem?_set]
    split
    · rename_i hp
      rw [if_pos (by rw [hp]; exact (List.getElem?_eq_some_iff.mp h).1)]
    · exact h

/-- Only the texts of the strings count. -/
theorem jsonFindKey_congr (h : ∀ t ∈ tokens, t.type = .string → t.text json' = t.text json) :
    jsonFindKey json' tokens key = jsonFindKey json tokens key := by
  have heq : ∀ t ∈ tokens, jsonTokEq json' t key = jsonTokEq json t key := by
    intro t ht
    by_cases hs : t.type = .string
    · simp only [jsonTokEq, h t ht hs]
    · simp [jsonTokEq, hs]
  have hfrom : ∀ fuel i, jsonFindFrom json' tokens key fuel i =
      jsonFindFrom json tokens key fuel i := by
    intro fuel
    induction fuel with
    | zero => exact fun i => rfl
    | succ fuel ih =>
      intro i
      simp only [jsonFindFrom, ih]
      cases hname : tokens[i]? with
      | none => rfl
      | some name =>
        cases tokens[i + 1]? with
        | none => rfl
        | some value => simp only [heq name (List.mem_of_getElem? hname)]
  cases tokens with
  | nil => rfl
  | cons root tokens => simp only [jsonFindKey, hfrom]

theorem mem_of_jsonFindString {t : Token} (h : jsonFindString json tokens key = some t) :
    t ∈ tokens ∧ t.type = .string := by
  obtain ⟨hkey, hs⟩ := Option.filter_eq_some_iff.mp h
  rw [jsonFindKey_eq] at hkey
  obtain ⟨j, -, hj⟩ := Option.bind_eq_some_iff.mp hkey
  exact ⟨List.mem_of_getElem? hj, by simpa using hs⟩

/-- A NUL behind one string of a text leaves the other strings as they are. -/
theorem text_terminate {u : Option Token} (hq : Quoted json tokens)
    (htake : json = (buf.drop offset).take json.length)
    (hu : ∀ t ∈ u, t ∈ tokens ∧ t.type = .string) (ht : tok ∈ tokens) (hs : tok.type = .string) :
    tok.text (((terminate buf offset u).drop offset).take json.length) = tok.text json := by
  have hle := Nat.le_of_lt (hq.bounds tok ht hs).2
  rw [text_take hle, terminate_text fun t hmem => ?_, ← text_take hle, ← htake]
  exact hq.apart tok ht t (hu t hmem).1 hs (hu t hmem).2

/-- What a pointer to a string reads when the NULs are in place. -/
theorem cstring_terminate {u w : Option Token} (hq : Quoted json tokens)
    (htake : json = (buf.drop offset).take json.length)
    (hu : ∀ t ∈ u, t ∈ tokens ∧ t.type = .string) (hw : ∀ t ∈ w, t ∈ tokens ∧ t.type = .string)
    (htok : tok ∈ u ∨ tok ∈ w) :
    cstring ((terminate (terminate buf offset u) offset w).drop (offset + tok.start)) =
      tok.text json := by
  obtain ⟨ht, hs⟩ : tok ∈ tokens ∧ tok.type = .string := htok.elim (hu tok) (hw tok)
  obtain ⟨hle, hlt⟩ := hq.bounds tok ht hs
  have hlen : offset + tok.stop < buf.length := by
    have h := congrArg List.length htake
    rw [List.length_take, List.length_drop] at h
    omega
  have hsame : ((terminate (terminate buf offset u) offset w).drop (offset + tok.start)).take
      (tok.stop - tok.start) = tok.text json := by
    rw [terminate_text fun t hmem => hq.apart tok ht t (hw t hmem).1 hs (hw t hmem).2,
      terminate_text fun t hmem => hq.apart tok ht t (hu t hmem).1 hs (hu t hmem).2,
      ← text_take (Nat.le_of_lt hlt), ← htake]
  have hnul : (terminate (terminate buf offset u) offset w)[offset + tok.stop]? = some 0 := by
    rcases htok with rfl | rfl
    · exact terminate_keeps (terminate_nul hlen)
    · refine terminate_nul ?_
      cases u <;> simpa [terminate] using hlen
  rw [← hsame]
  refine cstring_drop ?_ ?_
  · rw [hsame]
    exact fun h0 => hq.noNul (List.mem_of_mem_drop (List.mem_of_mem_take h0))
  · rwa [show offset + tok.start + (tok.stop - tok.start) = offset + tok.stop by omega]

/-- **The strings that are taken out of the buffer** are the texts of their tokens. -/
theorem handoffParseData_fields {jsonParse : List UInt8 → Option (List Token)} {len : Nat}
    (hjson : handoffText buf len = json) (hparse : jsonParse json = some tokens)
    (hq : Quoted json tokens) :
    (handoffParseData jsonParse buf len).1 =
      { userId := ((jsonFindKey json tokens "user_id").map (jsonTokInt json)).getD 0
        prompt := (jsonFindString json tokens "prompt").map (·.text json)
        model := (jsonFindString json tokens "model").map (·.text json)
        maxTokens :=
          (((jsonFindKey json tokens "max_tokens").map (jsonTokInt json)).getD 0).bmod
            4294967296 } := by
  have htake := handoffText_start buf len
  rw [hjson] at htake
  have hmem : ∀ {key}, ∀ t ∈ jsonFindString json tokens key, t ∈ tokens ∧ t.type = .string :=
    fun t ht => mem_of_jsonFindString ht
  have hprompt : ∀ t ∈ jsonFindString json tokens "prompt", t ∈ tokens ∧ t.type = .string := hmem
  have hkey : jsonFindKey _ tokens "model" = _ := jsonFindKey_congr fun t ht hs =>
    text_terminate hq htake hprompt ht hs
  have hmodel := congrArg (Option.filter fun t => decide (t.type = .string)) hkey
  have hpointee : ∀ tok, tok ∈ jsonFindString json tokens "prompt" ∨
      tok ∈ jsonFindString json tokens "model" → _ = tok.text json :=
    fun tok => cstring_terminate hq htake hmem hmem
  simp only [handoffText] at hjson
  simp only [handoffParseData, hjson, if_neg hq.nonempty, hparse]
  rw [show jsonFindString _ tokens "model" = _ from hmodel]
  congr 1
  · exact Option.map_congr fun t ht => hpointee t (.inl ht)
  · exact Option.map_congr fun t ht => hpointee t (.inr ht)

/-! ## Objects that are not too deep -/

/-- No value is skipped by less than there is, as when arrays hold scalars, and objects too. -/
def Flat (members : List (Span × Node)) : Prop :=
  ∀ m ∈ members, m.2.tokens.length ≤ m.2.head.skip

/-- No name has an escape, and every value but the last is skipped as a whole. -/
def Regular (json : List UInt8) (members : List (Span × Node)) : Prop :=
  (∀ m ∈ members, (92 : UInt8) ∉ m.1.text json) ∧ ∀ m ∈ members.dropLast, m.2.Even

/-- The names of an object, as they read. -/
def names (json : List UInt8) (members : List (Span × Node)) : List (Option (List UInt8)) :=
  members.map fun m => Json.decode (m.1.text json)

/-- What is found is behind where the search began, and its name is before it. -/
theorem jsonFindIndexFrom_some {j : Nat} (h : jsonFindIndexFrom json tokens key fuel i = some j) :
    i < j ∧ (j = i + 1 → ∃ name, tokens[i]? = some name ∧ jsonTokEq json name key = true) := by
  induction fuel generalizing i with
  | zero => cases h
  | succ fuel ih =>
    cases hname : tokens[i]? with
    | none => rw [jsonFindIndexFrom, hname] at h; cases h
    | some name =>
      cases hvalue : tokens[i + 1]? with
      | none => rw [jsonFindIndexFrom, hname, hvalue] at h; cases h
      | some value =>
        rw [jsonFindIndexFrom_step hname hvalue] at h
        split at h
        · rename_i heq
          obtain rfl := Option.some.inj h
          exact ⟨Nat.lt_succ_self i, fun _ => ⟨name, rfl, heq⟩⟩
        · obtain ⟨hlt, -⟩ := ih h
          exact ⟨by omega, fun hj => by omega⟩

/-- Every text is some key. -/
theorem exists_key (text : List UInt8) : ∃ key : String, ascii key = text := by
  refine ⟨String.ofList (text.map fun c => Char.ofNat c.toNat), ?_⟩
  rw [ascii, String.toList_ofList, List.map_map]
  refine List.map_id'' (fun c => ?_) text
  have hc : c.toNat.isValidChar := .inl (Nat.lt_trans c.toNat_lt (by decide))
  have hn : (Char.ofNat c.toNat).toNat = c.toNat := by
    rw [Char.ofNat, dif_pos hc]
    rfl
  simp only [Function.comp_apply, hn, UInt8.ofNat_toNat]

theorem clear_of_regular (hflat : Flat members) (hreg : Regular json members) :
    Clear json key members := by
  induction members with
  | nil => trivial
  | cons m rest ih =>
    obtain ⟨k, v⟩ := m
    obtain ⟨hplain, heven⟩ := hreg
    refine ⟨hplain (k, v) List.mem_cons_self, .inr ?_⟩
    cases rest with
    | nil => exact ⟨.inr ⟨rfl, hflat (k, v) List.mem_cons_self⟩, trivial⟩
    | cons m' rest =>
      rw [List.dropLast_cons_cons] at heven
      refine ⟨.inl (heven (k, v) List.mem_cons_self), ih ?_ ⟨?_, ?_⟩⟩
      · exact fun m hm => hflat m (List.mem_cons_of_mem _ hm)
      · exact fun m hm => hplain m (List.mem_cons_of_mem _ hm)
      · exact fun m hm => heven m (List.mem_cons_of_mem _ hm)

/-- When the members are found by their names, none has an escape and none but the last is skipped
by too much. -/
theorem regular_of_found {pre : List Token} (htok : tokens = pre ++ memberTokens members)
    (hfuel : (memberTokens members).length ≤ fuel)
    (hvalid : ∀ m ∈ members, (Json.decode (m.1.text json)).isSome) (hflat : Flat members)
    (hnames : (names json members).Nodup)
    (hfound : ∀ m ∈ members, ∀ key, Named json key m.1 →
      jsonFindIndexFrom json tokens key fuel pre.length = memberIndex json key members pre.length) :
    Regular json members := by
  induction members generalizing pre fuel with
  | nil => exact ⟨fun m hm => absurd hm List.not_mem_nil, fun m hm => absurd hm List.not_mem_nil⟩
  | cons m rest ih =>
    obtain ⟨k, v⟩ := m
    rw [memberTokens] at htok hfuel
    have hname : tokens[pre.length]? = some (k.token .string 1) := by
      simp [htok]
    have hvalue : tokens[pre.length + 1]? = some v.head := by
      rw [htok, v.tokens_eq]
      simp
    obtain ⟨fuel, rfl⟩ : ∃ n, fuel = n + 1 := by
      refine Nat.exists_eq_succ_of_ne_zero ?_
      rw [List.length_cons] at hfuel
      omega
    -- the name itself is found where it is
    have hplain : (92 : UInt8) ∉ k.text json := by
      intro hb
      obtain ⟨d, hd⟩ := Option.isSome_iff_exists.mp (hvalid (k, v) List.mem_cons_self)
      obtain ⟨key, rfl⟩ := exists_key d
      have hn : Named json key k := hd
      have hf := hfound (k, v) List.mem_cons_self key hn
      rw [memberIndex, if_pos hn] at hf
      obtain ⟨name, hname', heq⟩ := (jsonFindIndexFrom_some hf).2 rfl
      obtain rfl := Option.some.inj (hname.symm.trans hname')
      have hlen := Json.length_decode hd hb
      rw [jsonTokEq_name.mp heq] at hlen
      exact absurd hlen (Nat.lt_irrefl _)
    have hother : ∀ m ∈ rest, ∀ key, Named json key m.1 → ¬ Named json key k := by
      intro m hm key hn hk
      rw [names, List.map_cons, List.nodup_cons] at hnames
      exact hnames.1 (List.mem_map.mpr ⟨m, hm, hn.trans hk.symm⟩)
    have hstep : ∀ m ∈ rest, ∀ key, Named json key m.1 →
        jsonFindIndexFrom json tokens key fuel (pre.length + 1 + v.head.skip) =
          memberIndex json key rest (pre.length + 1 + v.tokens.length) := by
      intro m hm key hn
      have hk := hother m hm key hn
      have hf := hfound m (List.mem_cons_of_mem _ hm) key hn
      have hd := hvalid (k, v) List.mem_cons_self
      rw [jsonFindIndexFrom_step hname hvalue, memberIndex, if_neg hk, if_neg] at hf
      · exact hf
      · exact fun h => hk ((named_iff hplain hd).mpr (jsonTokEq_name.mp h))
    cases rest with
    | nil =>
      refine ⟨fun m hm => ?_, fun m hm => absurd hm List.not_mem_nil⟩
      rw [List.mem_singleton.mp hm]
      exact hplain
    | cons m' rest =>
      have heven : v.Even := by
        obtain ⟨d, hd⟩ := Option.isSome_iff_exists.mp
          (hvalid m' (List.mem_cons_of_mem _ List.mem_cons_self))
        obtain ⟨key, rfl⟩ := exists_key d
        have hn : Named json key m'.1 := hd
        have hf := hstep m' List.mem_cons_self key hn
        rw [memberIndex, if_pos hn] at hf
        have hlt := (jsonFindIndexFrom_some hf).1
        have hle : v.tokens.length ≤ v.head.skip := hflat (k, v) List.mem_cons_self
        exact Nat.le_antisymm (by omega) hle
      have hpre : pre.length + 1 + v.tokens.length =
          (pre ++ k.token .string 1 :: v.tokens).length := by
        simp
        omega
      rw [names, List.map_cons, List.nodup_cons] at hnames
      have hrest := @ih fuel (pre ++ k.token .string 1 :: v.tokens) (by simp [htok]) ?_
        (fun m hm => hvalid m (List.mem_cons_of_mem _ hm))
        (fun m hm => hflat m (List.mem_cons_of_mem _ hm)) hnames.2 ?_
      · refine ⟨fun m hm => ?_, fun m hm => ?_⟩
        · rcases List.mem_cons.mp hm with rfl | hm
          · exact hplain
          · exact hrest.1 m hm
        · rw [List.dropLast_cons_cons] at hm
          rcases List.mem_cons.mp hm with rfl | hm
          · exact heven
          · exact hrest.2 m hm
      · simp only [List.length_cons, List.length_append] at hfuel
        omega
      · intro m hm key hn
        have hf := hstep m hm key hn
        rwa [heven, hpre] at hf

/-- **The fields of a handoff are the members at the top** when no name has an escape and every
value is skipped as a whole, up to the member that is looked for. Where no value is skipped by less
than there is, nothing else will do. -/
theorem jsonFindIndex_topLevel (span : Span)
    (hvalid : ∀ m ∈ members, (Json.decode (m.1.text json)).isSome) :
    (∀ key, Clear json key members → jsonFindIndex json (Node.object span members).tokens key =
      memberIndex json key members 1) ∧
    (∀ jsonParse buf len, handoffText buf len = json →
      jsonParse json = some (Node.object span members).tokens →
      Quoted json (Node.object span members).tokens →
      (∀ key ∈ ["user_id", "max_tokens", "prompt", "model"], Clear json key members) →
      (handoffParseData jsonParse buf len).1 = topLevelData json members) ∧
    (Flat members → (names json members).Nodup →
      ((∀ key, jsonFindIndex json (Node.object span members).tokens key =
        memberIndex json key members 1) ↔ Regular json members)) := by
  let root := span.token .object members.length
  have htokens : (Node.object span members).tokens = [root] ++ memberTokens members := by
    rw [Node.tokens]
    rfl
  have hfuel : (memberTokens members).length ≤ (Node.object span members).tokens.length := by
    rw [htokens]
    simp
  have hloop : ∀ key, jsonFindIndex json (Node.object span members).tokens key =
      jsonFindIndexFrom json (Node.object span members).tokens key
        (Node.object span members).tokens.length [root].length := by
    intro key
    rw [Node.tokens]
    rfl
  have hfind : ∀ key, Clear json key members →
      jsonFindIndex json (Node.object span members).tokens key = memberIndex json key members 1 := by
    intro key hclear
    rw [hloop]
    exact jsonFindIndexFrom_members htokens hfuel hvalid hclear
  refine ⟨hfind, fun jsonParse buf len hjson hparse hq hclear => ?_, fun hflat hnames => ?_⟩
  · have htop : ∀ key ∈ ["user_id", "max_tokens", "prompt", "model"],
        jsonFindKey json (Node.object span members).tokens key = topMember json members key := by
      intro key hkey
      rw [jsonFindKey_eq, hfind key (hclear key hkey)]
      exact memberIndex_token htokens
    rw [handoffParseData_fields hjson hparse hq, topLevelData, jsonFindString, jsonFindString,
      htop _ (by decide), htop _ (by decide), htop _ (by decide), htop _ (by decide)]
  · refine ⟨fun hall => ?_, fun hreg key => hfind key (clear_of_regular hflat hreg)⟩
    refine regular_of_found htokens hfuel hvalid hflat hnames fun m _ key _ => ?_
    rw [← hloop]
    exact hall key

/-- The text `{"user_id":7,"meta":{"prompt":"no"},"prompt":"hi"}`. -/
def promptJson : List UInt8 :=
  [123, 34, 117, 115, 101, 114, 95, 105, 100, 34, 58, 55, 44, 34, 109, 101, 116, 97, 34, 58, 123,
    34, 112, 114, 111, 109, 112, 116, 34, 58, 34, 110, 111, 34, 125, 44, 34, 112, 114, 111, 109,
    112, 116, 34, 58, 34, 104, 105, 34, 125]

/-- Its members; the second one has a prompt of its own. -/
def promptMembers : List (Span × Node) :=
  [(⟨2, 9⟩, .primitive ⟨11, 12⟩),
    (⟨14, 18⟩, .object ⟨20, 35⟩ [(⟨22, 28⟩, .string ⟨31, 33⟩)]),
    (⟨37, 43⟩, .string ⟨46, 48⟩)]

/-- The object that comes before the prompt is skipped as a whole: the prompt is `hi`. -/
theorem jsonFindIndex_topLevel_prompt :
    jsonFindIndex promptJson (Node.object ⟨0, 50⟩ promptMembers).tokens "prompt" =
      memberIndex promptJson "prompt" promptMembers 1 ∧
    (handoffParseData (fun _ => some (Node.object ⟨0, 50⟩ promptMembers).tokens) promptJson 50).1 =
      topLevelData promptJson promptMembers ∧
    ∀ key, jsonFindIndex promptJson (Node.object ⟨0, 50⟩ promptMembers).tokens key =
      memberIndex promptJson key promptMembers 1 := by
  have htop := @jsonFindIndex_topLevel promptJson promptMembers ⟨0, 50⟩ (by decide)
  have hflat : Flat promptMembers := by
    simp [Flat, promptMembers, Node.tokens, memberTokens, Node.head, Token.skip, Span.token]
  have heven : ∀ m ∈ promptMembers.dropLast, m.2.Even := by
    simp [promptMembers, Node.Even, Node.tokens, memberTokens, Node.head, Token.skip, Span.token]
  have hreg : Regular promptJson promptMembers := ⟨by decide, heven⟩
  have hclear : ∀ key, Clear promptJson key promptMembers := fun key => clear_of_regular hflat hreg
  refine ⟨htop.1 "prompt" (hclear _), ?_, (htop.2.2 hflat (by decide)).mpr hreg⟩
  refine htop.2.1 _ promptJson 50 (by decide) rfl ?_ fun key _ => hclear key
  exact ⟨by decide, by decide, by decide, by decide⟩

/-- The text `{"a":[1],"prompt":"x"}`. -/
def arrayJson : List UInt8 :=
  [123, 34, 97, 34, 58, 91, 49, 93, 44, 34, 112, 114, 111, 109, 112, 116, 34, 58, 34, 120, 34, 125]

/-- Its members. -/
def arrayMembers : List (Span × Node) :=
  [(⟨2, 3⟩, .array ⟨5, 8⟩ [.primitive ⟨6, 7⟩]), (⟨10, 16⟩, .string ⟨19, 20⟩)]

/-- **A key can be missed**: behind an array with an element the prompt is not found, for the skip
counts two tokens for each element, as it does for a member, and steps over the name. -/
theorem not_jsonFindIndex_topLevel :
    jsonFindIndex arrayJson (Node.object ⟨0, 22⟩ arrayMembers).tokens "prompt" = none ∧
      memberIndex arrayJson "prompt" arrayMembers 1 = some 5 := by
  have hkey : ascii "prompt" = [112, 114, 111, 109, 112, 116] := by simp [ascii]
  constructor
  · simp [jsonFindIndex, jsonFindIndexFrom, arrayMembers, Node.tokens, elemTokens, memberTokens,
      Span.token, jsonTokEq, Token.text, hkey, arrayJson]
  · simp only [memberIndex, arrayMembers, Named, hkey]
    decide

end SocketHandoff.Uring
