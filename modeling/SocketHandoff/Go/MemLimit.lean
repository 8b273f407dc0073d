import SocketHandoff.Lib.Trim
import SocketHandoff.Lib.Utf8
import Mathlib.Data.List.Forall2

/-!
# The memory limit

`ParseMemLimit` of `config/config.go` reads a number and a unit into a number of bytes. Letter case
is that of Unicode: `strings.ToLower` takes the Kelvin sign for a `k`, and the capital I with a dot
for an `i`. What it makes of other letters that are not ASCII does not matter here, and is left open.
-/

namespace SocketHandoff.Go.Config

/-! ## Strings -/

/-- The characters of `unicode.IsSpace`. -/
def spaces : List Char :=
  ['\t', '\n', '\x0b', '\x0c', '\r', ' ', '\u0085', '\u00A0', '\u1680', '\u2000', '\u2001', '\u2002',
    '\u2003', '\u2004', '\u2005', '\u2006', '\u2007', '\u2008', '\u2009', '\u200A', '\u2028',
    '\u2029', '\u202F', '\u205F', '\u3000']

/-- What they are in a string. -/
def spaceWords : List (List UInt8) := spaces.map String.utf8EncodeChar

/-- `strings.TrimSpace`. -/
def trimSpace (s : List UInt8) : List UInt8 :=
  Trim.trimBack spaceWords (Trim.trimFront spaceWords s)

/-- `unicode.ToLower`. -/
structure LowerCase where
  lower : Char → Char
  ascii : ∀ c : Char, c.toNat < 128 → lower c = c.toLower
  kelvin : lower '\u212A' = 'k'
  dottedI : lower '\u0130' = 'i'
  others : ∀ c : Char, 128 ≤ c.toNat → c ≠ '\u212A' → c ≠ '\u0130' → 128 ≤ (lower c).toNat

/-- `strings.ToLower`, as the characters of its result. -/
def toLower (unicode : LowerCase) (s : List UInt8) : List Char := (Utf8.decode s).map unicode.lower

/-- The loop of `strconv.ParseUint(s, 10, 64)`, with `n` before the next character. -/
def parseUintFrom (n : UInt64) : List UInt8 → Option UInt64
  | [] => some n
  | c :: rest =>
    if ¬ isDigit c then none
    -- `n * 10` overflows
    else if 1844674407370955162 ≤ n then none
    else
      let n1 := n * 10 + (c - 48).toUInt64
      if n1 < n * 10 then none else parseUintFrom n1 rest

/-- `strconv.ParseUint(s, 10, 64)`. -/
def parseUint (s : List UInt8) : Option UInt64 := if s = [] then none else parseUintFrom 0 s

/-! ## `ParseMemLimit` -/

/-- The `switch` on the suffix. -/
def multiplierOf (suffix : List Char) : Option UInt64 :=
  if suffix = [] ∨ suffix = ['b'] then some 1
  else if suffix = ['k', 'i', 'b'] ∨ suffix = ['k'] ∨ suffix = ['k', 'b'] then some 1024
  else if suffix = ['m', 'i', 'b'] ∨ suffix = ['m'] ∨ suffix = ['m', 'b'] then some (1024 * 1024)
  else if suffix = ['g', 'i', 'b'] ∨ suffix = ['g'] ∨ suffix = ['g', 'b'] then
    some (1024 * 1024 * 1024)
  else if suffix = ['t', 'i', 'b'] ∨ suffix = ['t'] ∨ suffix = ['t', 'b'] then
    some (1024 * 1024 * 1024 * 1024)
  else none

/-- The number and the multiplier, unless `ParseMemLimit` returns before it has them. -/
def memLimitFactors (unicode : LowerCase) (s : List UInt8) : Option (UInt64 × UInt64) :=
  let s := trimSpace s
  if s = [] then none
  else
    let numStr := s.takeWhile isDigit
    if numStr = [] then none
    else
      let suffix := trimSpace (s.dropWhile isDigit)
      match parseUint numStr with
      | none => none
      | some num =>
        if num = 0 then none else (multiplierOf (toLower unicode suffix)).map (num, ·)

/-- `multiplier > math.MaxInt64/num`. -/
def overflows (num multiplier : UInt64) : Bool := 9223372036854775807 / num < multiplier

/-- `ParseMemLimit`. -/
def parseMemLimit (unicode : LowerCase) (s : List UInt8) : Int64 :=
  match memLimitFactors unicode s with
  | none => -1
  | some (num, multiplier) =>
    if overflows num multiplier then -1 else (num * multiplier).toInt64

/-! ## The statement -/

/-- The suffixes, as the documentation lists them. -/
def memSuffixes : List (List Char × Int) :=
  [([], 1), (['B'], 1),
    (['K', 'i', 'B'], 1024), (['K'], 1024), (['K', 'B'], 1024),
    (['M', 'i', 'B'], 1048576), (['M'], 1048576), (['M', 'B'], 1048576),
    (['G', 'i', 'B'], 1073741824), (['G'], 1073741824), (['G', 'B'], 1073741824),
    (['T', 'i', 'B'], 1099511627776), (['T'], 1099511627776), (['T', 'B'], 1099511627776)]

/-- A letter in lower and upper case. -/
def letterCases (c : Char) : List Char :=
  c.toLower :: c.toUpper ::
    (if c.toLower = 'k' then ['\u212A'] else if c.toLower = 'i' then ['\u0130'] else [])

/-- The suffix in any letter case. -/
def InAnyCase (listed suffix : List Char) : Prop :=
  List.Forall₂ (fun c d => d ∈ letterCases c) listed suffix

/-- A text of white space. -/
def White (s : List UInt8) : Prop := Trim.Made spaceWords s

/-- The text is a number of at least one and a suffix, with white space around them, for `v` bytes
that fit into an `int64`. A limit that does not fit is none, instead of one that has wrapped around.
-/
structure MemLimit (s : List UInt8) (v : Int) : Prop where
  parts : ∃ before digits between suffix after listed, ∃ multiplier : Int,
    s = before ++ (digits ++ between ++ Utf8.bytes suffix ++ after) ∧
      White before ∧ White between ∧ White after ∧
      digits ≠ [] ∧ (∀ c ∈ digits, isDigit c) ∧ 1 ≤ digitsValue digits ∧
      (listed, multiplier) ∈ memSuffixes ∧ InAnyCase listed suffix ∧
      v = digitsValue digits * multiplier
  fits : v ≤ 9223372036854775807

/-! ## Letter case -/

/-- The letters of the suffixes. -/
def suffixLetters : List Char := ['K', 'i', 'B', 'M', 'G', 'T']

variable {unicode : LowerCase} {s before digits between after : List UInt8}
  {listed suffix : List Char} {c d : Char}

theorem suffixLetters_cases : ∀ c ∈ suffixLetters,
    (c.toLower.toNat < 128 ∧ c.toUpper.toNat < 128 ∧ c.toLower.toLower = c.toLower ∧
      c.toUpper.toLower = c.toLower) ∧
    ∀ n < 128, (Char.ofNat n).toLower = c.toLower →
      Char.ofNat n = c.toLower ∨ Char.ofNat n = c.toUpper := by
  refine List.forall_iff_forall_mem.mp ?_
  decide +kernel

theorem lower_eq_iff (hc : c ∈ suffixLetters) :
    unicode.lower d = c.toLower ↔ d ∈ letterCases c := by
  obtain ⟨⟨hlow, hup, hlowlow, huplow⟩, hascii⟩ := suffixLetters_cases c hc
  constructor
  · intro h
    by_cases hd : d.toNat < 128
    · rw [unicode.ascii d hd] at h
      have hcase := hascii d.toNat hd
      rw [Char.ofNat_toNat] at hcase
      rcases hcase h with e | e <;> simp [letterCases, e]
    · by_cases hk : d = '\u212A'
      · rw [hk, unicode.kelvin] at h
        simp [letterCases, hk, ← h]
      · by_cases hi : d = '\u0130'
        · rw [hi, unicode.dottedI] at h
          simp [letterCases, hi, ← h]
        · -- no other character has an ASCII letter as its lower case
          have hother := unicode.others d (by omega) hk hi
          rw [h] at hother
          omega
  · intro h
    simp only [letterCases, List.mem_cons] at h
    rcases h with rfl | rfl | h
    · rw [unicode.ascii _ hlow, hlowlow]
    · rw [unicode.ascii _ hup, huplow]
    · split at h
      · rename_i hk
        rw [List.mem_singleton.mp h, unicode.kelvin, hk]
      · split at h
        · rename_i hi
          rw [List.mem_singleton.mp h, unicode.dottedI, hi]
        · cases h

/-- A letter of a suffix, in any case. -/
def IsLetter (d : Char) : Prop := d ∈ suffixLetters.flatMap letterCases

/-- A letter is no space, nor does it end like one, and it has no digit in it. -/
theorem IsLetter.spec : ∀ d ∈ suffixLetters.flatMap letterCases, d ≠ Utf8.replacement ∧ d ∉ spaces ∧
    (spaceWords.all fun w => w.getLast? ≠ (String.utf8EncodeChar d).getLast?) = true ∧
    ((String.utf8EncodeChar d).all (!isDigit ·)) = true := by
  refine List.forall_iff_forall_mem.mp ?_
  decide +kernel

theorem map_lower_eq_iff (hlisted : ∀ c ∈ listed, c ∈ suffixLetters) :
    suffix.map unicode.lower = listed.map Char.toLower ↔ InAnyCase listed suffix := by
  induction listed generalizing suffix with
  | nil => simp [InAnyCase]
  | cons c listed ih =>
    cases suffix with
    | nil => simp [InAnyCase]
    | cons d suffix =>
      have hc := hlisted c List.mem_cons_self
      have hrest : suffix.map unicode.lower = listed.map Char.toLower ↔ InAnyCase listed suffix :=
        ih fun x hx => hlisted x (List.mem_cons_of_mem c hx)
      rw [InAnyCase] at hrest ⊢
      rw [List.map_cons, List.map_cons, List.cons.injEq, lower_eq_iff hc, hrest,
        List.forall₂_cons]

/-- **Lower case** gives one of these letters for a string of them in any case, and for no other
string. -/
theorem toLower_eq_iff (hlisted : ∀ c ∈ listed, c ∈ suffixLetters) :
    toLower unicode s = listed.map Char.toLower ↔
      ∃ suffix, InAnyCase listed suffix ∧ Utf8.bytes suffix = s := by
  constructor
  · intro h
    have hcase := (map_lower_eq_iff hlisted).mp h
    refine ⟨Utf8.decode s, hcase, Utf8.bytes_decode fun hmem => ?_⟩
    -- the replacement character is no letter
    obtain ⟨i, hi, hreplacement⟩ := List.mem_iff_getElem.mp hmem
    have hlen : i < listed.length := by rwa [hcase.length_eq]
    have hget := hcase.get hlen hi
    rw [List.get_eq_getElem, List.get_eq_getElem, hreplacement] at hget
    exact (IsLetter.spec _ (List.mem_flatMap_of_mem (hlisted _ (List.getElem_mem hlen)) hget)).1 rfl
  · rintro ⟨suffix, hcase, rfl⟩
    rw [toLower, Utf8.decode_bytes]
    exact (map_lower_eq_iff hlisted).mpr hcase

theorem memSuffixes_spec : ∀ p ∈ memSuffixes, (p.1.all (suffixLetters.contains ·)) = true ∧ 0 < p.2 ∧
    (multiplierOf (p.1.map Char.toLower)).map (fun m => (m.toNat : Int)) = some p.2 := by
  refine List.forall_iff_forall_mem.mp ?_
  decide +kernel

theorem memSuffixes_letters {multiplier : Int} (h : (listed, multiplier) ∈ memSuffixes) :
    ∀ c ∈ listed, c ∈ suffixLetters := by
  intro c hc
  exact List.contains_iff_mem.mp (List.all_eq_true.mp (memSuffixes_spec _ h).1 c hc)

theorem multiplierOf_listed {multiplier : Int} (h : (listed, multiplier) ∈ memSuffixes) :
    ∃ m : UInt64, multiplierOf (listed.map Char.toLower) = some m ∧
      (m.toNat : Int) = multiplier :=
  Option.map_eq_some_iff.mp (memSuffixes_spec _ h).2.2

theorem of_multiplierOf {lowered : List Char} {m : UInt64} (h : multiplierOf lowered = some m) :
    ∃ listed, (listed, (m.toNat : Int)) ∈ memSuffixes ∧ listed.map Char.toLower = lowered := by
  have hlowered : lowered ∈ memSuffixes.map fun p => p.1.map Char.toLower := by
    by_contra hnot
    simp only [memSuffixes, List.map_cons, List.map_nil, List.mem_cons, not_or] at hnot
    simp_all [multiplierOf]
  obtain ⟨⟨listed, multiplier⟩, hmem, rfl⟩ := List.mem_map.mp hlowered
  obtain ⟨m', hm', rfl⟩ := multiplierOf_listed hmem
  rw [h] at hm'
  obtain rfl := Option.some.inj hm'
  exact ⟨listed, hmem, rfl⟩

/-! ## Numbers -/

/-- The number for these digits behind those of `n`. -/
def decimal (n : Nat) (digits : List UInt8) : Nat :=
  digits.foldl (fun n c => n * 10 + (c.toNat - 48)) n

theorem digitsValue_eq (digits : List UInt8) : digitsValue digits = (decimal 0 digits : Int) := by
  have hfold : ∀ n : Nat, digits.foldl (fun (n : Int) c => n * 10 + (c.toNat - 48 : Nat)) (n : Int) =
      (decimal n digits : Int) := by
    induction digits with
    | nil => exact fun n => rfl
    | cons c rest ih => exact fun n => ih (n * 10 + (c.toNat - 48))
  exact hfold 0

theorem le_decimal (n : Nat) (digits : List UInt8) : n ≤ decimal n digits := by
  induction digits generalizing n with
  | nil => exact Nat.le_refl n
  | cons c rest ih =>
    have hrest := ih (n * 10 + (c.toNat - 48))
    have hstep : decimal n (c :: rest) = decimal (n * 10 + (c.toNat - 48)) rest := rfl
    omega

/-- What the loop of `ParseUint` finds is exact, and there is none where it would not be. -/
theorem parseUintFrom_eq (n : UInt64) (hdigits : ∀ c ∈ digits, isDigit c = true) :
    (parseUintFrom n digits).map UInt64.toNat =
      if decimal n.toNat digits < 18446744073709551616 then some (decimal n.toNat digits)
      else none := by
  induction digits generalizing n with
  | nil =>
    have hn := n.toNat_lt
    rw [if_pos (show decimal n.toNat [] < 18446744073709551616 from hn)]
    rfl
  | cons c rest ih =>
    have hc := hdigits c List.mem_cons_self
    have hrest := fun n => ih n fun x hx => hdigits x (List.mem_cons_of_mem c hx)
    have hstep : decimal n.toNat (c :: rest) = decimal (n.toNat * 10 + (c.toNat - 48)) rest := rfl
    have hle := le_decimal (n.toNat * 10 + (c.toNat - 48)) rest
    have hrange : 48 ≤ c.toNat ∧ c.toNat ≤ 57 := by
      simpa [isDigit, UInt8.le_iff_toNat_le] using hc
    have hdigit : (c - 48).toUInt64.toNat = c.toNat - 48 := by
      rw [UInt8.toNat_toUInt64, UInt8.toNat_sub_of_le]
      · rfl
      · rw [UInt8.le_iff_toNat_le]
        exact hrange.1
    rw [parseUintFrom, if_neg (by simp [hc]), hstep]
    by_cases hcut : 1844674407370955162 ≤ n
    · rw [if_pos hcut]
      rw [UInt64.le_iff_toNat_le] at hcut
      have hbig : 1844674407370955162 ≤ n.toNat := hcut
      rw [if_neg (by omega)]
      rfl
    · rw [if_neg hcut]
      rw [UInt64.le_iff_toNat_le] at hcut
      have hsmall : n.toNat < 1844674407370955162 := Nat.lt_of_not_le hcut
      have hmul : (n * 10).toNat = n.toNat * 10 := by
        rw [UInt64.toNat_mul]
        exact Nat.mod_eq_of_lt (by change n.toNat * 10 < 18446744073709551616; omega)
      have hadd : (n * 10 + (c - 48).toUInt64).toNat =
          (n.toNat * 10 + (c.toNat - 48)) % 18446744073709551616 := by
        rw [UInt64.toNat_add, hmul, hdigit]
      by_cases hwrap : n.toNat * 10 + (c.toNat - 48) < 18446744073709551616
      · rw [Nat.mod_eq_of_lt hwrap] at hadd
        rw [if_neg (by rw [UInt64.lt_iff_toNat_lt]; omega), hrest, hadd]
      · -- the sum has wrapped around, and is smaller than what it was added to
        rw [if_pos (by rw [UInt64.lt_iff_toNat_lt]; omega), if_neg (by omega)]
        rfl

theorem parseUint_eq (hne : digits ≠ []) (hdigits : ∀ c ∈ digits, isDigit c = true) :
    (parseUint digits).map UInt64.toNat =
      if decimal 0 digits < 18446744073709551616 then some (decimal 0 digits) else none := by
  rw [parseUint, if_neg hne]
  exact parseUintFrom_eq 0 hdigits

/-- **The check before the product**: it fits into an `int64` exactly where the check lets it pass. -/
theorem overflows_iff {num multiplier : UInt64} (h : num ≠ 0) :
    overflows num multiplier = false ↔ num.toNat * multiplier.toNat ≤ 9223372036854775807 := by
  have hpos : 0 < num.toNat := by
    rw [Nat.pos_iff_ne_zero]
    exact fun e => h (UInt64.toNat_inj.mp e)
  rw [overflows, decide_eq_false_iff_not, UInt64.lt_iff_toNat_lt, UInt64.toNat_div, Nat.not_lt,
    Nat.le_div_iff_mul_le hpos, Nat.mul_comm]
  rfl

theorem toNat_product {num multiplier : UInt64}
    (h : num.toNat * multiplier.toNat ≤ 9223372036854775807) :
    (num * multiplier).toNat = num.toNat * multiplier.toNat := by
  rw [UInt64.toNat_mul]
  exact Nat.mod_eq_of_lt (by change _ < 18446744073709551616; omega)

theorem toInt_product {num multiplier : UInt64}
    (h : num.toNat * multiplier.toNat ≤ 9223372036854775807) :
    (num * multiplier).toInt64.toInt = num.toNat * multiplier.toNat := by
  have hproduct := toNat_product h
  have hhalf : 2 * (num * multiplier).toBitVec.toNat < 18446744073709551616 := by
    rw [UInt64.toNat_toBitVec, hproduct]
    omega
  have hint : (num * multiplier).toBitVec.toInt = ((num * multiplier).toNat : Int) :=
    BitVec.toInt_eq_toNat_of_lt hhalf
  rw [hproduct, Int.natCast_mul] at hint
  exact hint

/-! ## Where `TrimSpace` ends -/

theorem spaceWords_spec :
    (([] : List UInt8) ∉ spaceWords ∧ ∀ w ∈ spaceWords, ∀ w' ∈ spaceWords, w <+: w' → w = w') ∧
    (∀ w ∈ spaceWords, ∀ w' ∈ spaceWords, w.reverse <+: w'.reverse → w = w') ∧
    ∀ w ∈ spaceWords, (w.all (!isDigit ·)) = true := by
  decide +kernel

theorem spaceWords_free : Trim.PrefixFree spaceWords :=
  ⟨spaceWords_spec.1.1, spaceWords_spec.1.2⟩

theorem spaceWords_free_back : Trim.PrefixFree (spaceWords.map List.reverse) := by
  refine ⟨fun h => ?_, fun v hv v' hv' h => ?_⟩
  · obtain ⟨w, hw, hnil⟩ := List.mem_map.mp h
    exact spaceWords_free.nonempty (List.reverse_eq_nil_iff.mp hnil ▸ hw)
  · obtain ⟨w, hw, rfl⟩ := List.mem_map.mp hv
    obtain ⟨w', hw', rfl⟩ := List.mem_map.mp hv'
    rw [spaceWords_spec.2.1 w hw w' hw' h]

theorem White.append (hs : White before) (ht : White after) : White (before ++ after) :=
  Trim.Made.append hs ht

/-- A text that neither begins nor ends with white space is left by `TrimSpace`. -/
theorem trimSpace_append (hbefore : White before) (hafter : White after)
    (hfront : ∀ w ∈ spaceWords, ¬ w <+: s ++ after) (hback : ∀ w ∈ spaceWords, ¬ w <:+ s) :
    trimSpace (before ++ (s ++ after)) = s := by
  rw [trimSpace, Trim.trimFront_append spaceWords_free hbefore hfront,
    Trim.trimBack_append spaceWords_free_back hafter hback]

theorem trimSpace_white (h : White s) : trimSpace s = [] := by
  have hnil : ∀ w ∈ spaceWords, ¬ w <+: ([] : List UInt8) := by
    intro w hw hprefix
    exact spaceWords_free.nonempty (List.prefix_nil.mp hprefix ▸ hw)
  have hfront := Trim.trimFront_append spaceWords_free h hnil
  rw [List.append_nil] at hfront
  rw [trimSpace, hfront]
  rfl

/-- What is left, with white space around it. -/
theorem trimSpace_split (s : List UInt8) :
    ∃ before after, White before ∧ White after ∧ s = before ++ (trimSpace s ++ after) := by
  obtain ⟨before, hbefore, hs⟩ := Trim.trimFront_split spaceWords s
  obtain ⟨after, hafter, hs'⟩ := Trim.trimBack_split spaceWords (Trim.trimFront spaceWords s)
  refine ⟨before, after, hbefore, hafter, ?_⟩
  rw [trimSpace, ← hs', ← hs]

/-- A space has no byte in common with a digit. -/
theorem not_isDigit_of_space {w : List UInt8} (hw : w ∈ spaceWords) :
    ∀ b ∈ w, isDigit b = false := by
  intro b hb
  simpa using List.all_eq_true.mp (spaceWords_spec.2.2 w hw) b hb

theorem White.not_isDigit (h : White s) : ∀ b ∈ s, isDigit b = false := by
  obtain ⟨ws, hws, rfl⟩ := h
  intro b hb
  obtain ⟨w, hw, hbw⟩ := List.mem_flatten.mp hb
  exact not_isDigit_of_space (hws w hw) b hbw

/-! ## Where a suffix begins and ends -/

/-- The suffix is one of the listed letters in some case. -/
theorem InAnyCase.mem (h : InAnyCase listed suffix) (hlisted : ∀ c ∈ listed, c ∈ suffixLetters) :
    ∀ d ∈ suffix, IsLetter d := by
  intro d hd
  rw [InAnyCase] at h
  induction h with
  | nil => cases hd
  | cons hcd hrest ih =>
    rcases List.mem_cons.mp hd with rfl | hd
    · exact List.mem_flatMap_of_mem (hlisted _ List.mem_cons_self) hcd
    · exact ih (fun x hx => hlisted x (List.mem_cons_of_mem _ hx)) hd

theorem not_space_prefix (hmem : ∀ d ∈ suffix, IsLetter d)
    (hne : suffix ≠ []) (t : List UInt8) : ∀ w ∈ spaceWords, ¬ w <+: Utf8.bytes suffix ++ t := by
  intro w hw hprefix
  cases suffix with
  | nil => exact hne rfl
  | cons d rest =>
    obtain ⟨space, hspace, rfl⟩ := List.mem_map.mp hw
    obtain ⟨r, hr⟩ := hprefix
    rw [Utf8.bytes_cons, List.append_assoc] at hr
    obtain ⟨rfl, -⟩ := Utf8.encode_inj hr
    exact (IsLetter.spec space (hmem space List.mem_cons_self)).2.1 hspace

theorem not_space_suffix (hmem : ∀ d ∈ suffix, IsLetter d)
    (hne : suffix ≠ []) (t : List UInt8) : ∀ w ∈ spaceWords, ¬ w <:+ t ++ Utf8.bytes suffix := by
  have hnil : [] ∉ spaceWords := spaceWords_free.nonempty
  intro w hw hsuffix
  -- the last bytes are the same
  obtain ⟨init, d, rfl⟩ : ∃ init d, suffix = init ++ [d] :=
    ⟨suffix.dropLast, suffix.getLast hne, (List.dropLast_append_getLast hne).symm⟩
  obtain ⟨r, hr⟩ := hsuffix
  have hlast := congrArg List.getLast? hr
  have hbytes : Utf8.bytes (init ++ [d]) = Utf8.bytes init ++ String.utf8EncodeChar d := by
    rw [Utf8.bytes_append, Utf8.bytes_cons]
    exact congrArg _ (List.append_nil _)
  rw [hbytes, ← List.append_assoc, List.getLast?_append_of_ne_nil _ fun e => hnil (e ▸ hw),
    List.getLast?_append_of_ne_nil _ String.utf8EncodeChar_ne_nil] at hlast
  have hlasts := (IsLetter.spec d (hmem d (by simp))).2.2.1
  exact of_decide_eq_true (List.all_eq_true.mp hlasts w hw) hlast

theorem not_isDigit_suffix (hmem : ∀ d ∈ suffix, IsLetter d) :
    ∀ b ∈ Utf8.bytes suffix, isDigit b = false := by
  intro b hb
  obtain ⟨d, hd, hbd⟩ := List.mem_flatMap.mp hb
  simpa using List.all_eq_true.mp (IsLetter.spec d (hmem d hd)).2.2.2 b hbd

/-! ## The parts of a limit -/

theorem takeWhile_digits {tail : List UInt8} (hdigits : ∀ c ∈ digits, isDigit c = true)
    (htail : ∀ b ∈ tail, isDigit b = false) :
    (digits ++ tail).takeWhile isDigit = digits ∧ (digits ++ tail).dropWhile isDigit = tail := by
  rw [List.takeWhile_append_of_pos hdigits, List.dropWhile_append_of_pos hdigits]
  cases tail with
  | nil => simp
  | cons b rest => simp [htail b List.mem_cons_self]

/-- What is left of a limit without the white space around it, and behind its digits. -/
theorem trimSpace_limit (hbefore : White before) (hbetween : White between) (hafter : White after)
    (hne : digits ≠ []) (hdigits : ∀ c ∈ digits, isDigit c = true)
    (hmem : ∀ d ∈ suffix, IsLetter d) :
    ∃ tail, trimSpace (before ++ (digits ++ between ++ Utf8.bytes suffix ++ after)) = digits ++ tail ∧
      trimSpace tail = Utf8.bytes suffix ∧ ∀ b ∈ tail, isDigit b = false := by
  have hfront : ∀ t, ∀ w ∈ spaceWords, ¬ w <+: digits ++ t := by
    intro t w hw hprefix
    cases w with
    | nil => exact spaceWords_free.nonempty hw
    | cons b w =>
      cases digits with
      | nil => exact hne rfl
      | cons c rest =>
        rw [List.cons_append, List.cons_prefix_cons] at hprefix
        have hc := hdigits c List.mem_cons_self
        rw [← hprefix.1, not_isDigit_of_space hw b List.mem_cons_self] at hc
        cases hc
  by_cases hsuffix : suffix = []
  · -- all the white space is behind the digits
    subst hsuffix
    refine ⟨[], ?_, trimSpace_white ⟨[], by simp, rfl⟩, by simp⟩
    have hback : ∀ w ∈ spaceWords, ¬ w <:+ digits := by
      intro w hw hend
      cases w with
      | nil => exact spaceWords_free.nonempty hw
      | cons b w =>
        have hb := hdigits b (hend.subset List.mem_cons_self)
        rw [not_isDigit_of_space hw b List.mem_cons_self] at hb
        cases hb
    have htrim := trimSpace_append hbefore (hbetween.append hafter)
      (by simpa using hfront (between ++ after)) hback
    simpa [Utf8.bytes] using htrim
  · refine ⟨between ++ Utf8.bytes suffix, ?_, ?_, ?_⟩
    · have hback := not_space_suffix hmem hsuffix (digits ++ between)
      have htrim := trimSpace_append hbefore hafter
        (by simpa using hfront (between ++ (Utf8.bytes suffix ++ after))) hback
      simpa using htrim
    · have hnil : White [] := ⟨[], by simp, rfl⟩
      have hfront' : ∀ w ∈ spaceWords, ¬ w <+: Utf8.bytes suffix ++ [] :=
        not_space_prefix hmem hsuffix []
      have hback : ∀ w ∈ spaceWords, ¬ w <:+ Utf8.bytes suffix :=
        not_space_suffix hmem hsuffix []
      have htrim := trimSpace_append hbetween hnil hfront' hback
      rwa [List.append_nil] at htrim
    · intro b hb
      rcases List.mem_append.mp hb with hb | hb
      · exact hbetween.not_isDigit b hb
      · exact not_isDigit_suffix hmem b hb

variable (unicode) in
/-- **The factors** of a limit that is made of these parts. -/
theorem memLimitFactors_eq {multiplier : Int} (hbefore : White before) (hbetween : White between)
    (hafter : White after) (hne : digits ≠ []) (hdigits : ∀ c ∈ digits, isDigit c = true)
    (hlisted : (listed, multiplier) ∈ memSuffixes) (hcase : InAnyCase listed suffix) :
    memLimitFactors unicode (before ++ (digits ++ between ++ Utf8.bytes suffix ++ after)) =
      (parseUint digits).bind fun num =>
        if num = 0 then none else (multiplierOf (listed.map Char.toLower)).map (num, ·) := by
  have hletters := memSuffixes_letters hlisted
  obtain ⟨tail, htrim, htail, hnot⟩ := trimSpace_limit hbefore hbetween hafter hne hdigits
    (hcase.mem hletters)
  have hlower : toLower unicode (Utf8.bytes suffix) = listed.map Char.toLower :=
    (toLower_eq_iff hletters).mpr ⟨suffix, hcase, rfl⟩
  obtain ⟨htake, hdrop⟩ := takeWhile_digits hdigits hnot
  have hne' : digits ++ tail ≠ [] := by simp [hne]
  simp only [memLimitFactors, htrim, if_neg hne', htake, hdrop, if_neg hne, htail, hlower]
  cases parseUint digits <;> rfl

/-- A string that has factors is made of parts. -/
theorem parts_of_factors {num multiplier : UInt64}
    (h : memLimitFactors unicode s = some (num, multiplier)) :
    ∃ before digits between suffix after listed,
      s = before ++ (digits ++ between ++ Utf8.bytes suffix ++ after) ∧
        White before ∧ White between ∧ White after ∧ digits ≠ [] ∧ (∀ c ∈ digits, isDigit c) ∧
        (listed, (multiplier.toNat : Int)) ∈ memSuffixes ∧ InAnyCase listed suffix ∧
        parseUint digits = some num ∧ num ≠ 0 := by
  obtain ⟨before, after, hbefore, hafter, hs⟩ := trimSpace_split s
  simp only [memLimitFactors] at h
  generalize trimSpace s = trimmed at h hs
  obtain ⟨-, h⟩ := Option.ite_none_left_eq_some.mp h
  obtain ⟨hne, h⟩ := Option.ite_none_left_eq_some.mp h
  cases hnum : parseUint (trimmed.takeWhile isDigit) with
  | none =>
    rw [hnum] at h
    cases h
  | some num' =>
    simp only [hnum] at h
    obtain ⟨hzero, h⟩ := Option.ite_none_left_eq_some.mp h
    obtain ⟨m, hm, hpair⟩ := Option.map_eq_some_iff.mp h
    cases hpair
    obtain ⟨listed, hlisted, hlower⟩ := of_multiplierOf hm
    obtain ⟨suffix, hcase, hsuffix⟩ :=
      (toLower_eq_iff (memSuffixes_letters hlisted)).mp hlower.symm
    obtain ⟨between, after', hbetween, hafter', hrest⟩ := trimSpace_split (trimmed.dropWhile isDigit)
    refine ⟨before, trimmed.takeWhile isDigit, between, suffix, after' ++ after, listed, ?_, hbefore,
      hbetween, hafter'.append hafter, hne,
      fun c hc => List.all_eq_true.mp List.all_takeWhile c hc, hlisted, hcase,
      hnum, hzero⟩
    rw [hsuffix]
    calc s = before ++ (trimmed ++ after) := hs
      _ = before ++ ((trimmed.takeWhile isDigit ++ trimmed.dropWhile isDigit) ++ after) := by
        rw [List.takeWhile_append_dropWhile]
      _ = _ := by
        rw [hrest]
        simp only [List.append_assoc]
        rw [← hrest]

/-- **A string with factors** is read as their product, where it fits. The code finds out by a
division, so that it is to be shown that the rounding makes no difference and the product does not
wrap. -/
theorem parseMemLimit_of_factors {num multiplier : UInt64}
    (h : memLimitFactors unicode s = some (num, multiplier)) (hnum : num ≠ 0) :
    (parseMemLimit unicode s).toInt =
      if num.toNat * multiplier.toNat ≤ 9223372036854775807 then
        (num.toNat : Int) * multiplier.toNat
      else -1 := by
  simp only [parseMemLimit, h]
  by_cases hfits : num.toNat * multiplier.toNat ≤ 9223372036854775807
  · rw [(overflows_iff hnum).mpr hfits, if_neg (by decide), if_pos hfits, toInt_product hfits]
  · have hover : overflows num multiplier = true := by
      rw [← Bool.not_eq_false]
      exact fun e => hfits ((overflows_iff hnum).mp e)
    rw [if_pos hover, if_neg hfits]
    rfl

/-- **A limit** is read as what it says. -/
theorem parseMemLimit_of_limit {v : Int} (unicode : LowerCase) (h : MemLimit s v) :
    (parseMemLimit unicode s).toInt = v ∧ 0 < v := by
  obtain ⟨⟨before, digits, between, suffix, after, listed, multiplier, rfl, hbefore, hbetween,
    hafter, hne, hdigits, hone, hlisted, hcase, rfl⟩, hfits⟩ := h
  have hpos : 0 < multiplier := (memSuffixes_spec _ hlisted).2.1
  obtain ⟨m, hm, rfl⟩ := multiplierOf_listed hlisted
  rw [digitsValue_eq] at hone hfits ⊢
  have hfits' : decimal 0 digits * m.toNat ≤ 9223372036854775807 := by
    rw [← Int.natCast_mul] at hfits
    omega
  have hdecimal : decimal 0 digits < 18446744073709551616 := by
    have hle : decimal 0 digits ≤ decimal 0 digits * m.toNat :=
      Nat.le_mul_of_pos_right _ (by exact_mod_cast hpos)
    omega
  have hparse := parseUint_eq hne hdigits
  rw [if_pos hdecimal] at hparse
  obtain ⟨num, hnum, hvalue⟩ := Option.map_eq_some_iff.mp hparse
  have hnum0 : num ≠ 0 := by
    rintro rfl
    have hzero : (0 : UInt64).toNat = 0 := rfl
    omega
  have hfactors := memLimitFactors_eq unicode hbefore hbetween hafter hne hdigits hlisted hcase
  simp only [hnum, Option.bind_some, if_neg hnum0, hm, Option.map_some] at hfactors
  rw [parseMemLimit_of_factors hfactors hnum0, hvalue, if_pos hfits']
  exact ⟨rfl, Int.mul_pos (by omega) hpos⟩

/-- What is read is a limit, or it is -1. -/
theorem limit_of_parseMemLimit (unicode : LowerCase) (s : List UInt8) :
    MemLimit s (parseMemLimit unicode s).toInt ∨ parseMemLimit unicode s = -1 := by
  cases hfactors : memLimitFactors unicode s with
  | none =>
    right
    simp only [parseMemLimit, hfactors]
  | some factors =>
    obtain ⟨num, m⟩ := factors
    obtain ⟨before, digits, between, suffix, after, listed, hs, hbefore, hbetween, hafter, hne,
      hdigits, hlisted, hcase, hparse, hnum⟩ := parts_of_factors hfactors
    have hread := parseMemLimit_of_factors hfactors hnum
    by_cases hfits : num.toNat * m.toNat ≤ 9223372036854775807
    · left
      rw [if_pos hfits] at hread
      have hvalue : decimal 0 digits = num.toNat := by
        have hsome := parseUint_eq hne hdigits
        rw [hparse] at hsome
        split at hsome
        · exact (Option.some.inj hsome).symm
        · cases hsome
      have hone : num.toNat ≠ 0 := fun e => hnum (UInt64.toNat_inj.mp e)
      rw [hread]
      refine ⟨⟨before, digits, between, suffix, after, listed, m.toNat, hs, hbefore, hbetween, hafter,
        hne, hdigits, ?_, hlisted, hcase, ?_⟩, ?_⟩
      · rw [digitsValue_eq, hvalue]
        omega
      · rw [digitsValue_eq, hvalue]
      · rw [← Int.natCast_mul]
        omega
    · right
      rw [if_neg hfits] at hread
      exact Int64.toInt_inj.mp hread

/-- **`ParseMemLimit` is exact.** It returns a positive number for the limits, the number of bytes that
they say, and -1 for every other string. A product that it computes does not wrap around. -/
theorem parseMemLimit_exact (unicode : LowerCase) (s : List UInt8) :
    (∀ v : Int, (parseMemLimit unicode s).toInt = v ∧ 0 < v ↔ MemLimit s v) ∧
      ((∃ v, MemLimit s v) ∨ parseMemLimit unicode s = -1) ∧
      ∀ num multiplier, memLimitFactors unicode s = some (num, multiplier) →
        overflows num multiplier = false →
          (num * multiplier).toNat = num.toNat * multiplier.toNat := by
  refine ⟨fun v => ⟨?_, parseMemLimit_of_limit unicode⟩, ?_, ?_⟩
  · rintro ⟨rfl, hpos⟩
    rcases limit_of_parseMemLimit unicode s with hlimit | hminus
    · exact hlimit
    · rw [hminus] at hpos
      exact absurd hpos (by decide)
  · rcases limit_of_parseMemLimit unicode s with hlimit | hminus
    · exact .inl ⟨_, hlimit⟩
    · exact .inr hminus
  · intro num multiplier hfactors hover
    obtain ⟨_, _, _, _, _, _, _, _, _, _, _, _, _, _, _, hnum⟩ := parts_of_factors hfactors
    exact toNat_product ((overflows_iff hnum).mp hover)

/-- The letters that matter here in lower case, and no others. -/
def LowerCase.simple : LowerCase where
  lower c := if c = '\u212A' then 'k' else if c = '\u0130' then 'i' else c.toLower
  ascii c hc := by
    have hk : c ≠ '\u212A' := by
      rintro rfl
      exact absurd hc (by decide)
    have hi : c ≠ '\u0130' := by
      rintro rfl
      exact absurd hc (by decide)
    rw [if_neg hk, if_neg hi]
  kelvin := rfl
  dottedI := rfl
  others c hc hk hi := by
    have hupper : ¬ (c.val ≥ 65 ∧ c.val ≤ 90) := by
      rintro ⟨-, hle⟩
      rw [UInt32.le_iff_toNat_le] at hle
      have hle' : c.toNat ≤ 90 := hle
      omega
    rw [if_neg hk, if_neg hi]
    delta Char.toLower
    split
    · rename_i h
      exact absurd h hupper
    · exact hc

example : parseMemLimit .simple (ascii " 768 mIb\t") = 768 * 1024 * 1024 := by decide +kernel

example : parseMemLimit .simple (ascii "8388608TiB") = -1 := by decide +kernel

-- the Kelvin sign
example : parseMemLimit .simple [49, 0xE2, 0x84, 0xAA] = 1024 := by decide +kernel

end SocketHandoff.Go.Config
