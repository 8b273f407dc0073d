import SocketHandoff.Lib.JsonParts
import SocketHandoff.Go.Compact

/-!
# Raw messages

`json.Unmarshal` into maps and slices of `json.RawMessage`, and `json.Marshal` of them. A part that
is not touched in between keeps its value, and so do the names, if all their surrogates are paired.
-/

namespace SocketHandoff.Go

open Json

/-! ## `json.Unmarshal` -/

/-- An error of `encoding/json`. -/
inductive JsonError
  | malformed
  | type
  deriving DecidableEq

/-- `unquote` on what the text of a string in UTF-8 stands for: a surrogate that stands alone is
replaced by U+FFFD. -/
def replaceSurrogates : List UInt8 → List UInt8
  | [] => []
  | [c] => [c]
  | [c, d] => [c, d]
  | c :: d :: e :: rest =>
    if c = 0xED ∧ 0xA0 ≤ d then 0xEF :: 0xBF :: 0xBD :: replaceSurrogates rest
    else c :: replaceSurrogates (d :: e :: rest)

/-- `map[string]json.RawMessage`: an entry for each name, in any order. -/
abbrev RawMap := List (List UInt8 × List UInt8)

/-- `m[name] = raw`. -/
def RawMap.assign (m : RawMap) (name raw : List UInt8) : RawMap :=
  if m.any fun e => e.1 = name then m.map fun e => if e.1 = name then (name, raw) else e
  else m ++ [(name, raw)]

/-- `json.Unmarshal` into a map of raw messages that is nil. -/
def unmarshalMap (data : List UInt8) : Except JsonError RawMap :=
  match parse data with
  | none => .error .malformed
  | some .null => .ok []
  | some (.object _) =>
    .ok (((objectParts data).getD []).foldl
      (fun m part => m.assign (replaceSurrogates part.1) part.2) [])
  | some _ => .error .type

/-- `json.Unmarshal` into a slice of raw messages that is nil. -/
def unmarshalSlice (data : List UInt8) : Except JsonError (List (List UInt8)) :=
  match parse data with
  | none => .error .malformed
  | some .null => .ok []
  | some (.array _) => .ok ((arrayParts data).getD [])
  | some _ => .error .type

/-- `json.Unmarshal` into a string that is empty. -/
def unmarshalString (data : List UInt8) : Except JsonError (List UInt8) :=
  match parse data with
  | none => .error .malformed
  | some .null => .ok []
  | some (.string s) => .ok (replaceSurrogates s)
  | some _ => .error .type

/-! ## `json.Marshal` -/

/-- What is written for a raw message. -/
def compact (raw : List UInt8) : Except JsonError (List UInt8) :=
  if (parse raw).isSome then .ok (compactText false raw) else .error .malformed

/-- `json.Marshal` of a slice of raw messages that is not nil. -/
def marshalSlice (raws : List (List UInt8)) : Except JsonError (List UInt8) := do
  let texts ← raws.mapM compact
  return 91 :: (List.intercalate [44] texts ++ [93])

/-- An entry of a map as it is written. -/
def marshalEntry (e : List UInt8 × List UInt8) : Except JsonError (List UInt8) := do
  return 34 :: (marshalText e.1 ++ 34 :: 58 :: (← compact e.2))

/-- `json.Marshal` of a map of raw messages that is not nil. -/
def marshalMap (m : RawMap) : Except JsonError (List UInt8) := do
  let texts ← (m.mergeSort nameLE).mapM marshalEntry
  return 123 :: (List.intercalate [44] texts ++ [125])

/-! ### What is written -/

/-- The value of a raw message, or null if it is none. -/
def rawMessageValue (raw : List UInt8) : Value := (parse raw).getD .null

theorem rawMessageValue_of_parse {raw : List UInt8} {v : Value} (h : parse raw = some v) :
    rawMessageValue raw = v := by
  rw [rawMessageValue, h]
  rfl

theorem compact_of_parse {raw : List UInt8} (h : (parse raw).isSome) :
    compact raw = .ok (compactText false raw) ∧
      Reads (compactText false raw) (rawMessageValue raw) := by
  obtain ⟨v, hv⟩ := Option.isSome_iff_exists.mp h
  rw [rawMessageValue_of_parse hv]
  refine ⟨?_, reads_compact_parse hv⟩
  rw [compact, if_pos h]

/-- A loop that does not fail. -/
theorem mapM_ok {α β ε : Type} {f : α → Except ε β} {g : α → β} {xs : List α}
    (h : ∀ x ∈ xs, f x = .ok (g x)) : xs.mapM f = .ok (xs.map g) := by
  induction xs with
  | nil => rfl
  | cons x xs ih =>
    rw [List.mapM_cons, h x List.mem_cons_self, ih fun y hy => h y (List.mem_cons_of_mem x hy)]
    rfl

/-- **A slice is written as the array** of the values of its elements. -/
theorem marshalSlice_writes {raws : List (List UInt8)} (h : ∀ raw ∈ raws, (parse raw).isSome) :
    ∃ text, marshalSlice raws = .ok text ∧ Reads text (.array (raws.map rawMessageValue)) := by
  have htexts := mapM_ok fun raw hraw => (compact_of_parse (h raw hraw)).1
  rw [marshalSlice, htexts]
  refine ⟨_, rfl, ?_⟩
  apply reads_array
  rw [List.forall₂_map_left_iff, List.forall₂_map_right_iff, List.forall₂_same]
  exact fun raw hraw => (compact_of_parse (h raw hraw)).2

/-- **A map is written as the object** of the values of its entries, sorted by their names. -/
theorem marshalMap_writes {m : RawMap} (h : ∀ e ∈ m, (parse e.2).isSome) :
    ∃ text, marshalMap m = .ok text ∧
      Reads text (.object ((m.map fun e => (e.1, rawMessageValue e.2)).mergeSort nameLE)) := by
  have hsorted : ∀ e ∈ m.mergeSort nameLE, (parse e.2).isSome :=
    fun e he => h e (List.mem_mergeSort.mp he)
  have htexts := mapM_ok (f := marshalEntry)
    (g := fun e => 34 :: (marshalText e.1 ++ 34 :: 58 :: compactText false e.2)) fun e he => by
      rw [marshalEntry, (compact_of_parse (hsorted e he)).1]
      rfl
  rw [marshalMap, htexts, mergeSort_map]
  refine ⟨_, rfl, ?_⟩
  apply reads_object
  rw [List.forall₂_map_left_iff, List.forall₂_map_right_iff, List.forall₂_same]
  exact fun e he => ⟨_, _, rfl, (spells_marshalText e.1).decode,
    (compact_of_parse (hsorted e he)).2⟩

/-! ### What is read -/

/-- The entry of a member. -/
def EntryOf (member : List UInt8 × Value) (e : List UInt8 × List UInt8) : Prop :=
  e.1 = replaceSurrogates member.1 ∧ Text member.2 e.2

theorem assign_new {m : RawMap} {name raw : List UInt8} (h : name ∉ m.map Prod.fst) :
    m.assign name raw = m ++ [(name, raw)] := by
  rw [RawMap.assign, if_neg]
  intro hany
  obtain ⟨e, he, heq⟩ := List.any_eq_true.mp hany
  obtain rfl := of_decide_eq_true heq
  exact h (List.mem_map_of_mem he)

theorem assign_old {before behind : RawMap} {name old raw : List UInt8}
    (h : ((before ++ (name, old) :: behind).map Prod.fst).Nodup) :
    RawMap.assign (before ++ (name, old) :: behind) name raw =
      before ++ (name, raw) :: behind := by
  rw [List.map_append, List.map_cons, List.nodup_append, List.nodup_cons] at h
  obtain ⟨-, ⟨hbehind, -⟩, hdisjoint⟩ := h
  have hself : ∀ entries : RawMap, (∀ e ∈ entries, e.1 ≠ name) →
      (entries.map fun e => if e.1 = name then (name, raw) else e) = entries := by
    intro entries hne
    have hcongr := List.map_congr_left (f := fun e => if e.1 = name then (name, raw) else e)
      (g := fun e => e) fun e he => if_neg (hne e he)
    rw [hcongr, List.map_id']
  rw [RawMap.assign, if_pos (by simp), List.map_append, List.map_cons, if_pos rfl,
    hself before, hself behind]
  · intro e he heq
    have hmem := List.mem_map_of_mem (f := Prod.fst) he
    rw [heq] at hmem
    exact hbehind hmem
  · intro e he heq
    exact hdisjoint _ (List.mem_map_of_mem he) _ List.mem_cons_self heq

theorem foldl_assign {parts m : RawMap} (f : List UInt8 → List UInt8)
    (h : (m.map Prod.fst ++ parts.map fun part => f part.1).Nodup) :
    parts.foldl (fun (m : RawMap) part => m.assign (f part.1) part.2) m =
      m ++ parts.map fun part => (f part.1, part.2) := by
  induction parts generalizing m with
  | nil => simp
  | cons part parts ih =>
    have hnew : f part.1 ∉ m.map Prod.fst := by
      intro hmem
      rw [List.nodup_append] at h
      exact h.2.2 _ hmem _ List.mem_cons_self rfl
    rw [List.foldl_cons, assign_new hnew, ih]
    · simp
    · simpa using h

/-- The names of an object, as they are read, are different. -/
def NamesDiffer (v : Value) : Prop :=
  ∀ members, v = .object members →
    (members.map fun member => replaceSurrogates member.1).Nodup

theorem names_parts {members : List (List UInt8 × Value)} {parts : List (List UInt8 × List UInt8)}
    (f : List UInt8 → List UInt8) (h : List.Forall₂ MemberParts members parts) :
    (members.map fun member => f member.1) = parts.map fun part => f part.1 := by
  induction h with
  | nil => rfl
  | cons hpart _ ih => rw [List.map_cons, List.map_cons, ih, hpart.1]

/-- **A map holds the members of the object**, if they have different names. -/
theorem unmarshalMap_ok {data : List UInt8} {v : Value} {m : RawMap} (hv : parse data = some v)
    (hnames : NamesDiffer v) (h : unmarshalMap data = .ok m) :
    (v = .null ∧ m = []) ∨ ∃ members, v = .object members ∧ List.Forall₂ EntryOf members m := by
  rw [unmarshalMap, hv] at h
  split at h
  · rename_i heq
    cases heq
  · rename_i heq
    exact .inl ⟨Option.some.inj heq, (Except.ok.inj h).symm⟩
  · rename_i members heq
    obtain rfl := Option.some.inj heq
    obtain ⟨parts, hparts, htexts⟩ := objectParts_of_parse hv
    have hfst := names_parts replaceSurrogates htexts
    rw [hparts, Option.getD_some, foldl_assign replaceSurrogates] at h
    · obtain rfl := Except.ok.inj h
      refine .inr ⟨members, rfl, ?_⟩
      rw [List.nil_append, List.forall₂_map_right_iff]
      exact htexts.imp fun member part hpart => ⟨by rw [hpart.1], hpart.2⟩
    · rw [List.map_nil, List.nil_append, ← hfst]
      exact hnames members rfl
  · cases h

/-- **A slice holds the elements of the array.** -/
theorem unmarshalSlice_ok {data : List UInt8} {v : Value} {raws : List (List UInt8)}
    (hv : parse data = some v) (h : unmarshalSlice data = .ok raws) :
    (v = .null ∧ raws = []) ∨ ∃ elems, v = .array elems ∧ List.Forall₂ Text elems raws := by
  rw [unmarshalSlice, hv] at h
  split at h
  · rename_i heq
    cases heq
  · rename_i heq
    exact .inl ⟨Option.some.inj heq, (Except.ok.inj h).symm⟩
  · rename_i elems heq
    obtain rfl := Option.some.inj heq
    obtain ⟨raws', hraws, htexts⟩ := arrayParts_of_parse hv
    rw [hraws] at h
    obtain rfl := Except.ok.inj h
    exact .inr ⟨elems, rfl, htexts⟩
  · cases h

/-! ### Lists side by side -/

section Lists

variable {α β : Type} {R : α → β → Prop} {xs : List α} {ys : List β}

theorem forall_mem_of_forall₂ {P : β → Prop} (h : List.Forall₂ R xs ys)
    (hP : ∀ x y, R x y → P y) : ∀ y ∈ ys, P y := by
  induction h with
  | nil => exact fun y hy => absurd hy List.not_mem_nil
  | cons hxy _ ih =>
    intro y hy
    rcases List.mem_cons.mp hy with rfl | hy
    · exact hP _ _ hxy
    · exact ih y hy

/-- One list is split as the other is. -/
theorem forall₂_split {before behind : List β} {y : β}
    (h : List.Forall₂ R xs (before ++ y :: behind)) :
    ∃ xbefore x xbehind, xs = xbefore ++ x :: xbehind ∧ List.Forall₂ R xbefore before ∧ R x y ∧
      List.Forall₂ R xbehind behind := by
  have htake := List.forall₂_take_append xs before (y :: behind) h
  have hdrop := List.forall₂_drop_append xs before (y :: behind) h
  rw [List.forall₂_cons_right_iff] at hdrop
  obtain ⟨x, xbehind, hx, hbehind, heq⟩ := hdrop
  refine ⟨_, x, xbehind, ?_, htake, hx, hbehind⟩
  rw [← heq, List.take_append_drop]

end Lists

/-! ### Replacing a member -/

/-- A name that is read as it stands, and from no other. -/
def KeptName (name : List UInt8) : Prop := ∀ n, replaceSurrogates n = name ↔ n = name

/-- A name without U+FFFD is the name of the text. -/
theorem eq_of_replaceSurrogates {name : List UInt8} (h : 0xEF ∉ replaceSurrogates name) :
    replaceSurrogates name = name := by
  fun_induction replaceSurrogates name with
  | case1 => rfl
  | case2 c => rfl
  | case3 c d => rfl
  | case4 c d e rest hc ih => exact absurd List.mem_cons_self h
  | case5 c d e rest hc ih => rw [ih fun hmem => h (List.mem_cons_of_mem c hmem)]

theorem keptName {name : List UInt8} (h : 0xEF ∉ name) (hname : replaceSurrogates name = name) :
    KeptName name := by
  intro n
  constructor
  · intro hn
    rw [← hn] at h
    rw [← eq_of_replaceSurrogates h, hn]
  · rintro rfl
    exact hname

/-- Two objects that differ in the value of one member at most, up to the order of the members; the
second one has the names that `names` makes of those of the first. -/
def AtMember (names : List UInt8 → List UInt8) (name : List UInt8) (R : Value → Value → Prop)
    (v v' : Value) : Prop :=
  ∃ before w w' behind members, v = .object (before ++ (name, w) :: behind) ∧ R w w' ∧
    v' = .object members ∧
      members.Perm ((before ++ (name, w') :: behind).map (Prod.map names id))

theorem names_entries {members : List (List UInt8 × Value)} {m : RawMap}
    (h : List.Forall₂ EntryOf members m) :
    m.map Prod.fst = members.map fun member => replaceSurrogates member.1 := by
  induction h with
  | nil => rfl
  | cons he _ ih => rw [List.map_cons, List.map_cons, ih, he.1]

/-- The values of the entries are those of the members. -/
theorem values_entries {members : List (List UInt8 × Value)} {m : RawMap}
    (h : List.Forall₂ EntryOf members m) :
    (m.map fun e => (e.1, rawMessageValue e.2)) = members.map (Prod.map replaceSurrogates id) := by
  induction h with
  | nil => rfl
  | cons he _ ih =>
    rw [List.map_cons, List.map_cons, ih, rawMessageValue_of_parse he.2.parse, he.1]
    rfl

theorem parse_entries {members : List (List UInt8 × Value)} {m : RawMap}
    (h : List.Forall₂ EntryOf members m) : ∀ e ∈ m, (parse e.2).isSome := by
  refine forall_mem_of_forall₂ (P := fun e => (parse e.2).isSome) h ?_
  rintro member e ⟨-, htext⟩
  rw [htext.parse]
  rfl

section Member

variable {data name : List UInt8} {v : Value}

/-- What is found in the map is the member of the object. -/
theorem member_of_lookup {m : RawMap} {inner : List UInt8} (hv : parse data = some v)
    (hnames : NamesDiffer v) (hname : KeptName name) (h : unmarshalMap data = .ok m)
    (hinner : m.lookup name = some inner) : ∃ w, v.get? name = some w ∧ Text w inner := by
  obtain ⟨before, behind, rfl, -⟩ := List.lookup_eq_some_iff.mp hinner
  rcases unmarshalMap_ok hv hnames h with ⟨-, hnil⟩ | ⟨members, rfl, hmembers⟩
  · exact absurd hnil (by simp)
  obtain ⟨mbefore, ⟨n, w⟩, mbehind, rfl, -, ⟨hn, hw⟩, -⟩ := forall₂_split hmembers
  obtain rfl := (hname n).mp hn.symm
  refine ⟨w, List.lookup_eq_some_iff.mpr ⟨mbefore, mbehind, rfl, fun p hp => ?_⟩, hw⟩
  have hne := hnames _ rfl
  rw [List.map_append, List.map_cons, List.nodup_append] at hne
  refine bne_iff_ne.mpr fun heq => ?_
  exact hne.2.2 _ (List.mem_map_of_mem hp) _ List.mem_cons_self (by rw [heq])

/-- **A member that the object has** is found in the map, and with another value in its place the
map is written as the object with that member replaced. -/
theorem member_found {w : Value} (hv : parse data = some v) (hnames : NamesDiffer v)
    (hname : KeptName name) (hget : v.get? name = some w) :
    ∃ m inner, unmarshalMap data = .ok m ∧ m.lookup name = some inner ∧ Text w inner ∧
      ∀ raw w', parse raw = some w' → ∃ text v', marshalMap (m.assign name raw) = .ok text ∧
        parse text = some v' ∧
          AtMember replaceSurrogates name (fun a b => a = w ∧ b = w') v v' := by
  obtain ⟨members, rfl⟩ : ∃ members, v = .object members := by
    cases v with
    | object members => exact ⟨members, rfl⟩
    | _ => cases hget
  obtain ⟨m, hm⟩ : ∃ m, unmarshalMap data = .ok m := by
    rw [unmarshalMap, hv]
    exact ⟨_, rfl⟩
  rcases unmarshalMap_ok hv hnames hm with ⟨hnull, -⟩ | ⟨members', heq, hentries⟩
  · cases hnull
  obtain rfl := Value.object.inj heq
  have hnodup := hnames members rfl
  rw [← names_entries hentries] at hnodup
  obtain ⟨before, behind, rfl, -⟩ := List.lookup_eq_some_iff.mp hget
  obtain ⟨mbefore, ⟨n, inner⟩, mbehind, rfl, hbefore, ⟨hn, htext⟩, hbehind⟩ :=
    forall₂_split hentries.flip
  obtain rfl : n = name := hn.trans ((hname name).mpr rfl)
  have hlookup := lookup_of_nodup hnodup (e := (n, inner)) (by simp)
  refine ⟨_, inner, hm, hlookup, htext, fun raw w' hraw => ?_⟩
  have hparse : ∀ e ∈ mbefore ++ (n, raw) :: mbehind, (parse e.2).isSome := by
    intro e he
    rcases List.mem_append.mp he with he | he
    · exact parse_entries hbefore.flip e he
    rcases List.mem_cons.mp he with rfl | he
    · rw [hraw]
      rfl
    · exact parse_entries hbehind.flip e he
  obtain ⟨text, hwrite, hreads⟩ := marshalMap_writes hparse
  rw [assign_old hnodup, hwrite]
  refine ⟨text, _, rfl, hreads.parse, before, w, w', behind, _, rfl, ⟨rfl, rfl⟩, rfl, ?_⟩
  -- sorting by the names only changes the order
  refine (List.mergeSort_perm _ nameLE).trans (List.Perm.of_eq ?_)
  rw [List.map_append, List.map_cons, List.map_append, List.map_cons,
    values_entries hbefore.flip, values_entries hbehind.flip, rawMessageValue_of_parse hraw,
    Prod.map, (hname n).mpr rfl]
  rfl

end Member

theorem AtMember.imp {names : List UInt8 → List UInt8} {name : List UInt8}
    {R S : Value → Value → Prop} {v v' : Value} (h : AtMember names name R v v')
    (hRS : ∀ w w', R w w' → S w w') : AtMember names name S v v' := by
  obtain ⟨before, w, w', behind, members, hv, hR, hv', hperm⟩ := h
  exact ⟨before, w, w', behind, members, hv, hRS w w' hR, hv', hperm⟩

/-! ### Replacing the last element -/

/-- Two arrays that differ in the last element at most. -/
def AtLast (R : Value → Value → Prop) (v v' : Value) : Prop :=
  ∃ init w w', v = .array (init ++ [w]) ∧ R w w' ∧ v' = .array (init ++ [w'])

theorem AtLast.imp {R S : Value → Value → Prop} {v v' : Value} (h : AtLast R v v')
    (hRS : ∀ w w', R w w' → S w w') : AtLast S v v' := by
  obtain ⟨init, w, w', hv, hR, hv'⟩ := h
  exact ⟨init, w, w', hv, hRS w w' hR, hv'⟩

theorem values_elems {elems : List Value} {raws : List (List UInt8)}
    (h : List.Forall₂ Text elems raws) : raws.map rawMessageValue = elems := by
  induction h with
  | nil => rfl
  | cons htext _ ih => rw [List.map_cons, ih, rawMessageValue_of_parse htext.parse]

section Last

variable {data : List UInt8}

theorem last_of_getLast {v : Value} {last : List UInt8} {raws : List (List UInt8)}
    (hv : parse data = some v) (h : unmarshalSlice data = .ok raws)
    (hlast : raws.getLast? = some last) : ∃ init w, v = .array (init ++ [w]) ∧ Text w last := by
  obtain ⟨front, rfl⟩ := List.getLast?_eq_some_iff.mp hlast
  rcases unmarshalSlice_ok hv h with ⟨-, hnil⟩ | ⟨elems, rfl, helems⟩
  · exact absurd hnil (by simp)
  obtain ⟨init, w, behind, rfl, -, hw, hbehind⟩ := forall₂_split helems
  obtain rfl := List.forall₂_nil_right_iff.mp hbehind
  exact ⟨init, w, rfl, hw⟩

/-- **The last element of an array** is found in the slice, and with another value in its place the
slice is written as the array with that element replaced. -/
theorem last_found {init : List Value} {w : Value}
    (hv : parse data = some (.array (init ++ [w]))) :
    ∃ raws last, unmarshalSlice data = .ok raws ∧ raws.getLast? = some last ∧ Text w last ∧
      ∀ raw w', parse raw = some w' →
        ∃ text v', marshalSlice (raws.set (raws.length - 1) raw) = .ok text ∧
          parse text = some v' ∧
            AtLast (fun a b => a = w ∧ b = w') (.array (init ++ [w])) v' := by
  obtain ⟨raws, hraws⟩ : ∃ raws, unmarshalSlice data = .ok raws := by
    rw [unmarshalSlice, hv]
    exact ⟨_, rfl⟩
  rcases unmarshalSlice_ok hv hraws with ⟨hnull, -⟩ | ⟨elems, heq, helems⟩
  · cases hnull
  obtain rfl := Value.array.inj heq
  obtain ⟨front, last, behind, rfl, hfront, hlast, hbehind⟩ := forall₂_split helems.flip
  obtain rfl := List.forall₂_nil_right_iff.mp hbehind
  refine ⟨_, last, hraws, List.getLast?_concat, hlast, fun raw w' hraw => ?_⟩
  have hset : (front ++ [last]).set ((front ++ [last]).length - 1) raw = front ++ [raw] := by simp
  have hparse : ∀ r ∈ front ++ [raw], (parse r).isSome := by
    intro r hr
    rcases List.mem_append.mp hr with hr | hr
    · refine forall_mem_of_forall₂ (P := fun r => (parse r).isSome) hfront.flip ?_ r hr
      intro elem r htext
      rw [htext.parse]
      rfl
    · obtain rfl := List.mem_singleton.mp hr
      rw [hraw]
      rfl
  obtain ⟨text, hwrite, hreads⟩ := marshalSlice_writes hparse
  rw [List.map_append, values_elems hfront.flip, List.map_singleton,
    rawMessageValue_of_parse hraw] at hreads
  rw [hset, hwrite]
  exact ⟨text, _, rfl, hreads.parse, init, w, w', rfl, ⟨rfl, rfl⟩, rfl⟩

end Last

end SocketHandoff.Go
