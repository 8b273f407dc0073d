import SocketHandoff.Lib.Percent
import Mathlib.Data.List.TakeWhile

/-!
# Where a run is requested

`parseLG`, `resolveLangGraphProfile` and `langgraphRunURL` of `backends/langgraph.go`. The fields of
a handoff choose a profile and override parts of it, and the identifier of the thread goes into the
path of the URL.
-/

namespace SocketHandoff.Go

open Percent

/-! ## The profile -/

/-- `langgraphProfile`, but for its client. -/
structure LangGraphProfile where
  apiBase : List UInt8
  apiKey : List UInt8
  assistantID : List UInt8
  streamMode : List UInt8
  contentFormat : List UInt8
  deriving DecidableEq, Repr

/-- The fields of `HandoffData` that say which profile is meant. -/
structure ProfileFields where
  lg : List UInt8
  profile : List UInt8
  langGraphURL : List UInt8
  langGraphKey : List UInt8
  deriving DecidableEq, Repr

/-- `parseLG`: the profile, the URL and the key. -/
def parseLG (lg : List UInt8) : List UInt8 × List UInt8 × List UInt8 :=
  match lg.idxOf? 124 with
  | none => (lg, [], [])
  | some first =>
    let rest := lg.drop (first + 1)
    match rest.idxOf? 124 with
    | none => (lg.take first, rest, [])
    | some second => (lg.take first, rest.take second, rest.drop (second + 1))

/-- A field, or what stands in for it when it is empty. -/
def orElse (field default : List UInt8) : List UInt8 := if field ≠ [] then field else default

/-- `resolveLangGraphProfile`; `none` is an unknown profile. A field of the handoff comes before its
part of the compact `lg`. The address and the key are replaced one by one, so that a request may
name a profile and change only one of the two. -/
def resolveLangGraphProfile (langgraphDefault : LangGraphProfile)
    (langgraphProfiles : List UInt8 → Option LangGraphProfile) (handoff : ProfileFields) :
    Option LangGraphProfile := do
  let lg := if handoff.lg ≠ [] then parseLG handoff.lg else ([], [], [])
  let profile := orElse handoff.profile lg.1
  let overrideURL := orElse handoff.langGraphURL lg.2.1
  let overrideKey := orElse handoff.langGraphKey lg.2.2
  let p ← if profile ≠ [] then langgraphProfiles profile else some langgraphDefault
  return { p with
    apiBase := orElse overrideURL p.apiBase
    apiKey := orElse overrideKey p.apiKey }

/-- The compact syntax. -/
def compactLG (profile url key : List UInt8) : List UInt8 := profile ++ 124 :: url ++ 124 :: key

section Compact

variable {profile url key : List UInt8}

theorem idxOf?_bar {text : List UInt8} (h : 124 ∉ text) (rest : List UInt8) :
    (text ++ 124 :: rest).idxOf? 124 = some text.length := by
  have hnone : text.findIdx? (· == 124) = none := by
    apply List.findIdx?_eq_none_iff.mpr
    intro c hc
    apply beq_false_of_ne
    rintro rfl
    exact h hc
  rw [List.idxOf?, List.findIdx?_append, hnone, List.findIdx?_cons]
  simp

/-- **What is written in the compact syntax is read back**, for a profile and a URL without a bar;
the key may have any. -/
theorem parseLG_compactLG (hprofile : 124 ∉ profile) (hurl : 124 ∉ url) :
    parseLG (compactLG profile url key) = (profile, url, key) := by
  have hshape : compactLG profile url key = profile ++ 124 :: (url ++ 124 :: key) := by
    rw [compactLG, List.append_assoc, List.cons_append]
  have hdrop : (profile ++ 124 :: (url ++ 124 :: key)).drop (profile.length + 1) =
      url ++ 124 :: key := by
    rw [← List.drop_drop, List.drop_left, List.drop_one, List.tail_cons]
  have hdrop' : (url ++ 124 :: key).drop (url.length + 1) = key := by
    rw [← List.drop_drop, List.drop_left, List.drop_one, List.tail_cons]
  rw [parseLG, hshape, idxOf?_bar hprofile]
  simp only [hdrop, idxOf?_bar hurl, List.take_left, hdrop']

/-- **The two syntaxes mean the same**, also where they are mixed: the compact one gives the value of
a verbose field that is empty. -/
theorem resolveLangGraphProfile_compact (langgraphDefault : LangGraphProfile)
    (langgraphProfiles : List UInt8 → Option LangGraphProfile) (hprofile : 124 ∉ profile)
    (hurl : 124 ∉ url) (handoff : ProfileFields) :
    resolveLangGraphProfile langgraphDefault langgraphProfiles
        { handoff with lg := compactLG profile url key } =
      resolveLangGraphProfile langgraphDefault langgraphProfiles
        { lg := []
          profile := orElse handoff.profile profile
          langGraphURL := orElse handoff.langGraphURL url
          langGraphKey := orElse handoff.langGraphKey key } := by
  have hne : compactLG profile url key ≠ [] := by
    rw [compactLG]
    simp
  have horElse : ∀ field : List UInt8, orElse field [] = field := by
    intro field
    rw [orElse]
    split
    · rfl
    · rename_i h
      exact (not_not.mp h).symm
  simp only [resolveLangGraphProfile, if_pos hne, parseLG_compactLG hprofile hurl, ne_eq,
    not_true_eq_false, if_false, horElse]

end Compact

/-! ## The URL -/

/-- A letter or a digit. -/
def isAlphanumeric (c : UInt8) : Bool :=
  (97 ≤ c ∧ c ≤ 122) ∨ (65 ≤ c ∧ c ≤ 90) ∨ (48 ≤ c ∧ c ≤ 57)

/-- What `shouldEscape` of `net/url` leaves as it is in a segment of a path. -/
def keptInSegment (c : UInt8) : Bool :=
  isAlphanumeric c ∨ c = 45 ∨ c = 95 ∨ c = 46 ∨ c = 126 ∨ c = 36 ∨ c = 38 ∨ c = 43 ∨ c = 58 ∨
    c = 61 ∨ c = 64

/-- `url.PathEscape`. -/
def pathEscape (text : List UInt8) : List UInt8 := escape keptInSegment text

/-- `langgraphRunURL`. -/
def langgraphRunURL (p : LangGraphProfile) (threadID : List UInt8) : List UInt8 :=
  if threadID ≠ [] then
    p.apiBase ++ ascii "/threads/" ++ pathEscape threadID ++ ascii "/runs/stream"
  else p.apiBase ++ ascii "/runs/stream"

/-- The segments of a URL, before a query or a fragment, as a server finds them that takes `.` and
`..` out of the path. -/
def resolvedSegments (url : List UInt8) : List (List UInt8) :=
  removeDots [] ((url.takeWhile fun c => c ≠ 63 ∧ c ≠ 35).splitOn 47)

/-- A configured base, whose segments are names. With a dot segment, a query or a fragment in it,
what is appended to it would not be read as it stands. -/
structure PlainBase (apiBase : List UInt8) : Prop where
  path : ∀ c ∈ apiBase, c ≠ 63 ∧ c ≠ 35
  names : ∀ segment ∈ apiBase.splitOn 47, IsName segment

/-- The URL is read as the stream of runs of this thread. -/
def AddressesThread (apiBase threadID url : List UInt8) : Prop :=
  ∃ segment, unescape segment = some threadID ∧
    resolvedSegments url =
      apiBase.splitOn 47 ++ [ascii "threads", segment, ascii "runs", ascii "stream"]

/-- The URL is read as the stream of runs of no thread. -/
def AddressesNone (apiBase url : List UInt8) : Prop :=
  resolvedSegments url = apiBase.splitOn 47 ++ [ascii "runs", ascii "stream"]

section URL

variable {p : LangGraphProfile} {threadID : List UInt8}

/-- No byte of an escaped segment ends the segment or the path. -/
theorem pathEscape_plain {c : UInt8} (h : c ∈ pathEscape threadID) : c ≠ 47 ∧ c ≠ 63 ∧ c ≠ 35 := by
  have hplain : ∀ c : UInt8, keptInSegment c = true ∨ c = 37 ∨ IsUpperHex c →
      c ≠ 47 ∧ c ≠ 63 ∧ c ≠ 35 := by
    apply forall_byte
    decide +kernel
  exact hplain c (mem_escape h)

/-- The path of the URL, segment by segment. -/
theorem segments_langgraphRunURL (hbase : PlainBase p.apiBase) (hid : threadID ≠ []) :
    resolvedSegments (langgraphRunURL p threadID) =
      removeDots (p.apiBase.splitOn 47 ++ [ascii "threads"])
        [pathEscape threadID, ascii "runs", ascii "stream"] := by
  have htext : langgraphRunURL p threadID = p.apiBase ++ 47 :: (ascii "threads" ++ 47 ::
      (pathEscape threadID ++ 47 :: (ascii "runs" ++ 47 :: ascii "stream"))) := by
    rw [langgraphRunURL, if_pos hid]
    simp only [List.append_assoc]
    rfl
  have hpath : (langgraphRunURL p threadID).takeWhile (fun c => c ≠ 63 ∧ c ≠ 35) =
      langgraphRunURL p threadID := by
    apply List.takeWhile_eq_self_iff.mpr
    intro c hc
    apply decide_eq_true
    rw [langgraphRunURL, if_pos hid] at hc
    simp only [List.mem_append] at hc
    rcases hc with ((hc | hc) | hc) | hc
    · exact hbase.path c hc
    · exact forall_mem_ascii (P := fun c => c ≠ 63 ∧ c ≠ 35) _ rfl c hc
    · exact (pathEscape_plain hc).2
    · exact forall_mem_ascii (P := fun c => c ≠ 63 ∧ c ≠ 35) _ rfl c hc
  have hsegments : (langgraphRunURL p threadID).splitOn 47 = p.apiBase.splitOn 47 ++
      ([ascii "threads"] ++ [pathEscape threadID, ascii "runs", ascii "stream"]) := by
    have hesc : 47 ∉ pathEscape threadID := fun h => (pathEscape_plain h).1 rfl
    have hthreads : 47 ∉ ascii "threads" := by decide
    have hruns : 47 ∉ ascii "runs" := by decide
    have hstream : 47 ∉ ascii "stream" := by decide
    rw [htext, List.splitOn_append_cons_self, List.splitOn_append_cons_self_of_not_mem hthreads,
      List.splitOn_append_cons_self_of_not_mem hesc,
      List.splitOn_append_cons_self_of_not_mem hruns, List.splitOn_eq_singleton hstream]
    rfl
  have hthreads : ∀ segment ∈ [ascii "threads"], IsName segment := by
    intro segment hsegment
    rw [List.mem_singleton.mp hsegment]
    exact ⟨by decide, by decide⟩
  rw [resolvedSegments, hpath, hsegments, removeDots_append, removeDots_names hbase.names,
    List.nil_append, removeDots_append, removeDots_names hthreads]

/-- **The URL of a stateful run is read as that of its thread**, whatever bytes are in the
identifier, exactly if that is neither `.` nor `..`; and that of `..` is read as that of no thread. -/
theorem langgraphRunURL_addresses (hbase : PlainBase p.apiBase) (hid : threadID ≠ []) :
    (AddressesThread p.apiBase threadID (langgraphRunURL p threadID) ↔ IsName threadID) ∧
      (AddressesNone p.apiBase (langgraphRunURL p threadID) ↔ threadID = [46, 46]) := by
  have hsegments := segments_langgraphRunURL hbase hid
  have hends : ∀ segment ∈ [ascii "runs", ascii "stream"], IsName segment := by
    intro segment hsegment
    simp only [List.mem_cons, List.not_mem_nil, or_false] at hsegment
    rcases hsegment with rfl | rfl
    · exact ⟨by decide, by decide⟩
    · exact ⟨by decide, by decide⟩
  rw [AddressesThread, AddressesNone, hsegments]
  by_cases hdot : threadID = [46]
  · have hesc : pathEscape threadID = [46] := by
      rw [hdot]
      rfl
    rw [hesc, removeDots, if_pos rfl, removeDots_names hends, List.append_assoc]
    refine ⟨iff_of_false ?_ fun h => h.1 hdot, iff_of_false ?_ ?_⟩
    · rintro ⟨segment, -, h⟩
      have hlen := congrArg List.length (List.append_cancel_left h)
      simp at hlen
    · intro h
      have hlen := congrArg List.length (List.append_cancel_left h)
      simp at hlen
    · rw [hdot]
      decide
  by_cases hdots : threadID = [46, 46]
  · have hesc : pathEscape threadID = [46, 46] := by
      rw [hdots]
      rfl
    rw [hesc, removeDots, if_neg (by decide), if_pos rfl, removeDots_names hends,
      List.dropLast_concat]
    refine ⟨iff_of_false ?_ fun h => h.2 hdots, iff_of_true rfl hdots⟩
    rintro ⟨segment, -, h⟩
    have hlen := congrArg List.length (List.append_cancel_left h)
    simp at hlen
  · have hname : IsName (pathEscape threadID) :=
      (isName_escape (by decide) (by decide)).mpr ⟨hdot, hdots⟩
    rw [removeDots, if_neg hname.1, if_neg hname.2, removeDots_names hends]
    refine ⟨iff_of_true ⟨pathEscape threadID, unescape_escape (by decide) threadID, ?_⟩
      ⟨hdot, hdots⟩, iff_of_false ?_ hdots⟩
    · rw [List.append_assoc, List.append_assoc]
      rfl
    · intro h
      rw [List.append_assoc, List.append_assoc] at h
      have hlen := congrArg List.length (List.append_cancel_left h)
      simp at hlen

/-- The default base, and an identifier that would leave the path. -/
theorem langgraphRunURL_addresses_slash :
    AddressesThread (ascii "https://api.langchain.com/v1") (ascii "../x?")
      (langgraphRunURL ⟨ascii "https://api.langchain.com/v1", [], [], [], []⟩ (ascii "../x?")) := by
  have hbase : PlainBase (ascii "https://api.langchain.com/v1") := by
    constructor
    · exact forall_mem_ascii (P := fun c => c ≠ 63 ∧ c ≠ 35) _ rfl
    · have hsegments : (ascii "https://api.langchain.com/v1").splitOn 47 =
          [ascii "https:", [], ascii "api.langchain.com", ascii "v1"] := by
        decide
      rw [hsegments]
      intro segment hsegment
      simp only [List.mem_cons, List.not_mem_nil, or_false] at hsegment
      rcases hsegment with rfl | rfl | rfl | rfl <;> exact ⟨by decide, by decide⟩
  exact (@langgraphRunURL_addresses ⟨ascii "https://api.langchain.com/v1", [], [], [], []⟩
    (ascii "../x?") hbase (by decide)).1.mpr ⟨by decide, by decide⟩

end URL

end SocketHandoff.Go
