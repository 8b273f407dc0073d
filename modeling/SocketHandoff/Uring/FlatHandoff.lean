import SocketHandoff.Uring.Jsmn

/-!
# Flat handoffs

`handoff_parse_data` on the text of a flat object, with the tokens of `jsmn_parse`: a field is the
member whose name is spelled like it, as that member is written. A text with more than fifteen
members has more tokens than there is room for, and stands for a handoff without data.
-/

namespace SocketHandoff.Uring

/-! ## The fields of a flat object -/

def scalarType : Json.Scalar → TokenType
  | .string _ => .string
  | .literal _ => .primitive

/-- What is between the quotes of a string. -/
def scalarBody : Json.Scalar → List UInt8
  | .string body => body
  | .literal text => text

/-- `json_tok_int` of a scalar. -/
def scalarInt : Json.Scalar → Int
  | .string _ => 0
  | .literal text => if text.length < 32 then ((strtol text).map Strtol.value).getD 0 else 0

/-- What is between the quotes of a member that is a string. -/
def spelledString (written : List Json.Written) (name : String) : Option (List UInt8) :=
  ((Json.spelled written (ascii name)).filter (scalarType · = .string)).map scalarBody

def spelledInt (written : List Json.Written) (name : String) : Int :=
  ((Json.spelled written (ascii name)).map scalarInt).getD 0

/-- The fields of a flat object. -/
def writtenData (written : List Json.Written) : HandoffData where
  userId := spelledInt written "user_id"
  prompt := spelledString written "prompt"
  model := spelledString written "model"
  maxTokens := (spelledInt written "max_tokens").bmod 4294967296

/-! ## Where the members are -/

open Jsmn

variable {json front tail text : List UInt8} {written : List Json.Written}
  {members : List (List UInt8 × Json.Value)} {located : List (Span × Node)} {start stop : Nat}

theorem span_text (h : json = front ++ (text ++ tail)) (hstart : start = front.length)
    (hstop : stop = front.length + text.length) : (⟨start, stop⟩ : Span).text json = text := by
  rw [Span.text, h, hstart, hstop, List.drop_left, Nat.add_sub_cancel_left, List.take_left]

/-- Where a member is in a text. Each part is what one of the functions that search the tokens looks
at, so that they need not be followed into the text again. -/
structure Located (json : List UInt8) (m : Json.Written) (p : Span × Node) : Prop where
  name : p.1.text json = m.name
  tokens : p.2.tokens = [p.2.head]
  type : p.2.head.type = scalarType m.value
  body : p.2.head.text json = scalarBody m.value
  int : jsonTokInt json p.2.head = scalarInt m.value
  skip : p.2.head.skip = 1

theorem located_scalar {value : Json.Scalar} {v : Json.Value} (hv : value.Reads v)
    (h : json = front ++ (value.text ++ tail)) (hstart : start = front.length) :
    (scalarNode start value).head.text json = scalarBody value ∧
      jsonTokInt json (scalarNode start value).head = scalarInt value := by
  cases hv with
  | @string s body hbody =>
    constructor
    · have hbehind : json = (front ++ [34]) ++ (body ++ 34 :: tail) := by
        rw [h]
        simp [Json.Scalar.text]
      exact span_text hbehind (by rw [List.length_append, hstart]; rfl)
        (by rw [List.length_append, hstart]; rfl)
    · rfl
  | @literal _ text hliteral =>
    have htext : (scalarNode start (.literal text)).head.text json = text :=
      span_text h hstart (by rw [hstart]; rfl)
    refine ⟨htext, ?_⟩
    have hnul : (0 : UInt8) ∉ text := (Json.Scalar.Reads.literal hliteral).nul_not_mem
    have hcstring : cstring text = text :=
      List.takeWhile_eq_self_iff.mpr fun c hc => decide_eq_true fun h0 => hnul (h0 ▸ hc)
    have hlen : (scalarNode start (.literal text)).head.stop -
        (scalarNode start (.literal text)).head.start = text.length := Nat.add_sub_cancel_left _ _
    have htype : (scalarNode start (.literal text)).head.type = .primitive := rfl
    simp only [jsonTokInt, hlen, htext, hcstring, htype, true_and, scalarInt]
    cases strtol text <;> rfl

theorem located_member {m : Json.Written} {member : List UInt8 × Json.Value} (hm : m.Reads member)
    (h : json = front ++ (m.text ++ tail)) :
    Located json m (nameSpan front.length m, scalarNode (valuePos front.length m) m.value) := by
  have hname : json = (front ++ m.before ++ [34]) ++ (m.name ++ 34 :: (m.beforeColon ++
      58 :: (m.afterColon ++ (m.value.text ++ (m.after ++ tail))))) := by
    rw [h]
    simp [Json.Written.text]
  have hvalue : json = (front ++ m.before ++ [34] ++ m.name ++ [34] ++ m.beforeColon ++ [58] ++
      m.afterColon) ++ (m.value.text ++ (m.after ++ tail)) := by
    rw [h]
    simp [Json.Written.text]
  have hpos : valuePos front.length m = (front ++ m.before ++ [34] ++ m.name ++ [34] ++
      m.beforeColon ++ [58] ++ m.afterColon).length := by
    simp only [valuePos, List.length_append, List.length_singleton]
    omega
  obtain ⟨hbody, hint⟩ := located_scalar hm.value hvalue hpos
  exact {
    name := span_text hname (by simp [Nat.add_assoc]) (by simp [Nat.add_assoc])
    tokens := scalarNode_tokens m.value
    type := by cases m.value <;> rfl
    body := hbody
    int := hint
    skip := by cases m.value <;> rfl }

/-- **The members are where `locate` says.** -/
theorem located_members (h : List.Forall₂ Json.Written.Reads written members)
    (hjson : json = front ++ (Json.flatMembers written ++ tail)) :
    List.Forall₂ (Located json) written (locate front.length written) := by
  induction h generalizing front with
  | nil => exact .nil
  | @cons m member written members hm hrest ih =>
    rw [locate]
    cases written with
    | nil => exact .cons (located_member hm hjson) .nil
    | cons m' written =>
      rw [Json.flatMembers, List.append_assoc] at hjson
      refine .cons (located_member hm hjson) ?_
      have hbehind : json = (front ++ m.text ++ [44]) ++
          (Json.flatMembers (m' :: written) ++ tail) := by
        rw [hjson]
        simp
      have hlocated := ih hbehind
      rwa [List.length_append, List.length_append, List.length_singleton] at hlocated

/-! ## The members are found -/

/-- A member is found by how its name is spelled. -/
theorem jsonFindFrom_flat {tokens pre : List Token} {key : String} {fuel : Nat}
    (h : List.Forall₂ (Located json) written located)
    (htok : tokens = pre ++ memberTokens located)
    (hfuel : (memberTokens located).length ≤ fuel) :
    jsonFindFrom json tokens key fuel pre.length =
      (located.find? fun p => p.1.text json = ascii key).map fun p => p.2.head := by
  rw [jsonFindFrom_eq]
  induction h generalizing pre fuel with
  | nil =>
    rw [jsonFindIndexFrom_end (by simp [htok, memberTokens])]
    rfl
  | @cons m p written located hm hrest ih =>
    obtain ⟨k, v⟩ := p
    rw [memberTokens, hm.tokens] at htok hfuel
    have hname : tokens[pre.length]? = some (k.token .string 1) := by
      simp [htok]
    have hvalue : tokens[pre.length + 1]? = some v.head := by
      simp [htok]
    obtain ⟨fuel, rfl⟩ : ∃ n, fuel = n + 1 := by
      refine Nat.exists_eq_succ_of_ne_zero ?_
      rw [List.length_cons] at hfuel
      omega
    rw [jsonFindIndexFrom_step hname hvalue]
    by_cases hk : k.text json = ascii key
    · rw [if_pos (jsonTokEq_name.mpr hk), List.find?_cons_of_pos (by simpa using hk),
        Option.bind_some, hvalue]
      rfl
    · rw [if_neg (fun h => hk (jsonTokEq_name.mp h)), List.find?_cons_of_neg (by simpa using hk),
        hm.skip]
      have hnext : pre.length + 1 + 1 = (pre ++ [k.token .string 1, v.head]).length := by
        simp
      rw [hnext]
      refine ih (by simp [htok]) ?_
      simp only [List.length_cons, List.length_append, List.length_nil] at hfuel
      omega

/-- What is found among the members is found among them as they are written. -/
theorem find_located {α : Type} {f : Span × Node → α} {g : Json.Scalar → α} {key : String}
    (hfg : ∀ m p, Located json m p → f p = g m.value)
    (h : List.Forall₂ (Located json) written located) :
    (located.find? fun p => p.1.text json = ascii key).map f =
      (Json.spelled written (ascii key)).map g := by
  induction h with
  | nil => rfl
  | @cons m p written located hm _ ih =>
    rw [Json.spelled]
    by_cases hk : m.name = ascii key
    · rw [List.find?_cons_of_pos (by simpa [hm.name] using hk),
        List.find?_cons_of_pos (by simpa using hk)]
      exact congrArg some (hfg m p hm)
    · rw [List.find?_cons_of_neg (by simpa [hm.name] using hk),
        List.find?_cons_of_neg (by simpa using hk)]
      exact ih

theorem jsonFindKey_flat (h : List.Forall₂ (Located json) written located) (span : Span)
    (key : String) : jsonFindKey json (Node.object span located).tokens key =
      (located.find? fun p => p.1.text json = ascii key).map fun p => p.2.head := by
  have htokens : (Node.object span located).tokens =
      [span.token .object located.length] ++ memberTokens located := by
    rw [Node.tokens]
    rfl
  have hfuel : (memberTokens located).length ≤ (Node.object span located).tokens.length := by
    rw [htokens]
    simp
  refine Eq.trans ?_ (jsonFindFrom_flat h htokens hfuel)
  rw [htokens]
  rfl

theorem spelledInt_flat (h : List.Forall₂ (Located json) written located) (span : Span)
    (key : String) :
    ((jsonFindKey json (Node.object span located).tokens key).map (jsonTokInt json)).getD 0 =
      spelledInt written key := by
  rw [jsonFindKey_flat h, Option.map_map, spelledInt]
  congr 1
  exact find_located (fun m p hp => hp.int) h

theorem spelledString_flat (h : List.Forall₂ (Located json) written located) (span : Span)
    (key : String) :
    (jsonFindString json (Node.object span located).tokens key).map (·.text json) =
      spelledString written key := by
  have hfilter : ∀ {α : Type} (p : α → Bool) (f : α → List UInt8) (o : Option α),
      (o.filter p).map f = (o.map fun a => if p a then some (f a) else none).getD none := by
    intro α p f o
    cases o with
    | none => rfl
    | some a => by_cases ha : p a <;> simp [Option.filter, ha]
  rw [jsonFindString, jsonFindKey_flat h, hfilter, spelledString, hfilter, Option.map_map]
  congr 1
  refine find_located (fun m p hp => ?_) h
  simp only [Function.comp_apply, hp.type, hp.body]

/-! ## The tokens -/

theorem scalarNode_bounds (start : Nat) (value : Json.Scalar) :
    start ≤ (scalarNode start value).head.start ∧
      (scalarNode start value).head.start ≤ (scalarNode start value).head.stop ∧
      (scalarNode start value).head.stop ≤ start + value.text.length := by
  cases value with
  | string body =>
    simp only [scalarNode, Node.head, Span.token, Json.Scalar.text, List.length_cons,
      List.length_append, List.length_nil]
    omega
  | literal text =>
    simp only [scalarNode, Node.head, Span.token, Json.Scalar.text]
    omega

/-- A token ends before the next one begins. -/
structure InOrder (pos stop : Nat) (tokens : List Token) : Prop where
  inside : ∀ t ∈ tokens, pos ≤ t.start ∧ t.start ≤ t.stop ∧ t.stop ≤ stop
  ordered : tokens.Pairwise fun t u => t.stop < u.start

theorem inOrder_locate (written : List Json.Written) (pos : Nat) :
    InOrder pos (pos + (Json.flatMembers written).length) (memberTokens (locate pos written)) := by
  induction written generalizing pos with
  | nil => exact ⟨by simp [locate, memberTokens], by simp [locate, memberTokens]⟩
  | cons m written ih =>
    have hrest := ih (pos + m.text.length + 1)
    obtain ⟨hstart, horder, hstop⟩ := scalarNode_bounds (valuePos pos m) m.value
    have htokens : memberTokens (locate pos (m :: written)) =
        (nameSpan pos m).token .string 1 :: (scalarNode (valuePos pos m) m.value).head ::
          memberTokens (locate (pos + m.text.length + 1) written) := by
      rw [locate, memberTokens, scalarNode_tokens]
      rfl
    have hname : (nameSpan pos m).stop < valuePos pos m := by
      simp only [nameSpan, valuePos]
      omega
    have hend : valuePos pos m + m.value.text.length ≤ pos + m.text.length := by
      simp only [valuePos, Json.Written.text, List.length_append, List.length_cons]
      omega
    have hpos : pos ≤ (nameSpan pos m).start ∧ (nameSpan pos m).start ≤ (nameSpan pos m).stop := by
      simp only [nameSpan]
      omega
    have hmember : pos + m.text.length ≤ pos + (Json.flatMembers (m :: written)).length := by
      cases written with
      | nil => exact Nat.le_refl _
      | cons m' written =>
        rw [Json.flatMembers, List.length_append]
        omega
    have hbehind : ∀ t ∈ memberTokens (locate (pos + m.text.length + 1) written),
        t.stop ≤ pos + (Json.flatMembers (m :: written)).length := by
      intro t ht
      have hle := (hrest.inside t ht).2.2
      cases written with
      | nil => cases ht
      | cons m' written =>
        rw [Json.flatMembers, List.length_append, List.length_cons]
        omega
    rw [htokens]
    constructor
    · intro t ht
      rcases List.mem_cons.mp ht with rfl | ht
      · exact ⟨hpos.1, hpos.2, by show (nameSpan pos m).stop ≤ _; omega⟩
      · rcases List.mem_cons.mp ht with rfl | ht
        · omega
        · have hle := hbehind t ht
          have hin := hrest.inside t ht
          omega
    · refine List.pairwise_cons.mpr ⟨fun u hu => ?_, List.pairwise_cons.mpr ⟨fun u hu => ?_, ?_⟩⟩
      · show (nameSpan pos m).stop < _
        rcases List.mem_cons.mp hu with rfl | hu
        · omega
        · have hin := hrest.inside u hu
          omega
      · have hin := hrest.inside u hu
        omega
      · exact hrest.ordered

/-- The tokens of a flat object are as `jsmn_parse` yields those of a JSON text. -/
theorem quoted_flat (h : List.Forall₂ Json.Written.Reads written members) (span : Span) :
    Quoted (Json.flatText written) (Node.object span (locate 1 written)).tokens := by
  have hlen : (Json.flatText written).length = 1 + (Json.flatMembers written).length + 1 := by
    rw [Json.flatText, List.length_cons, List.length_append, List.length_singleton]
    omega
  have hin := inOrder_locate written 1
  have hmem : ∀ t ∈ (Node.object span (locate 1 written)).tokens, t.type = .string →
      t ∈ memberTokens (locate 1 written) := by
    intro t ht hs
    rw [Node.tokens] at ht
    rcases List.mem_cons.mp ht with rfl | ht
    · cases hs
    · exact ht
  refine ⟨List.cons_ne_nil _ _, Json.nul_not_mem_flatText h, fun t ht hs => ?_,
    fun t ht u hu hst hsu => ?_⟩
  · have hbounds := hin.inside t (hmem t ht hs)
    omega
  · obtain ⟨i, hi, rfl⟩ := List.getElem_of_mem (hmem t ht hst)
    obtain ⟨j, hj, rfl⟩ := List.getElem_of_mem (hmem u hu hsu)
    have hubounds := hin.inside _ (List.getElem_mem hj)
    rcases Nat.lt_trichotomy i j with hij | rfl | hij
    · have hlt := List.pairwise_iff_getElem.mp hin.ordered i j hi hj hij
      omega
    · exact .inr (Nat.le_refl _)
    · exact .inl (List.pairwise_iff_getElem.mp hin.ordered j i hj hi hij)

/-! ## `handoff_parse_data` on a flat object -/

variable {buf : List UInt8} {len : Nat}

/-- **The fields of a flat handoff** are its members as they are spelled, unless there are too many
of them. -/
theorem handoffParseData_flat (h : List.Forall₂ Json.Written.Reads written members)
    (hne : written ≠ []) (htext : handoffText buf len = Json.flatText written) :
    (handoffParseData jsonParse buf len).1 =
      if 2 * written.length < maxJsonTokens then writtenData written else .zero := by
  have hparse : jsonParse (Json.flatText written) = _ := parse_flat h hne
  have hjson : Json.flatText written = [123] ++ (Json.flatMembers written ++ [125]) := rfl
  have hlocated : List.Forall₂ (Located (Json.flatText written)) written (locate 1 written) :=
    located_members h hjson
  by_cases hroom : 2 * written.length < maxJsonTokens
  · rw [if_pos hroom] at hparse ⊢
    rw [handoffParseData_fields htext hparse (quoted_flat h _), spelledInt_flat hlocated,
      spelledInt_flat hlocated, spelledString_flat hlocated, spelledString_flat hlocated]
    rfl
  · rw [if_neg hroom] at hparse ⊢
    have hnil : Json.flatText written ≠ [] := List.cons_ne_nil _ _
    rw [handoffText] at htext
    simp only [handoffParseData, htext, if_neg hnil, hparse]

theorem isBlank_of_white {white : List UInt8} (h : Json.White white) :
    ∀ c ∈ white, isBlank c = true := by
  intro c hc
  have hw : c = 32 ∨ c = 9 ∨ c = 10 ∨ c = 13 := by
    simpa [Json.isWhite] using h c hc
  rcases hw with rfl | rfl | rfl | rfl <;> rfl

/-- The white space around an object is skipped. -/
theorem handoffText_white {white white' inner : List UInt8} (hwhite : Json.White white)
    (hwhite' : Json.White white')
    (h : buf.take len = white ++ ((123 :: (inner ++ [125])) ++ white')) :
    handoffText buf len = 123 :: (inner ++ [125]) := by
  have hfront : (buf.take len).takeWhile isBlank = white := by
    rw [h, List.takeWhile_append_of_pos (isBlank_of_white hwhite), List.cons_append,
      List.takeWhile_cons_of_neg (by decide), List.append_nil]
  have hback : ∀ c ∈ white'.reverse, isBlank c = true := fun c hc =>
    isBlank_of_white hwhite' c (List.mem_reverse.mp hc)
  rw [handoffText, hfront, h, List.drop_left, trimEnd, List.reverse_append,
    List.dropWhile_append_of_pos hback, List.reverse_cons, List.reverse_append]
  simp [isBlank]

/-- **Every flat handoff with members** is written as a flat object. -/
theorem handoffText_flat (h : Json.parse (buf.take len) = some (.object members))
    (hne : members ≠ []) (hscalar : ∀ m ∈ members, m.2.isScalar = true) :
    ∃ written, List.Forall₂ Json.Written.Reads written members ∧
      handoffText buf len = Json.flatText written := by
  obtain ⟨white, core, white', hwhite, hwhite', hbuf, hcore⟩ := Json.parse_iff.mp h
  obtain ⟨written, hreads, rfl⟩ := Json.exists_flatText hcore hne hscalar
  exact ⟨written, hreads, handoffText_white hwhite hwhite' hbuf⟩

end SocketHandoff.Uring
