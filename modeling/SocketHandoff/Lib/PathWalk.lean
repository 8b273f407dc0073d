import Mathlib.Data.List.Basic
import Mathlib.Data.List.Induction
import Mathlib.Order.Basic

/-!
# Paths and symbolic links

A file system is a function from physical locations, lists of names from the root, to what is
there. `Walks` is how the kernel follows a path, links included; `lexical` is what a program
computes that only looks at the text. The two agree as long as no link is met. `Plain` is a weaker
condition under which a path that is lexically below a directory stays below the place that
directory denotes: links are met only on the way to the directory, and `..` never leaves one.
Every path that can be followed without links is plain.
-/

namespace SocketHandoff

/-- A component of a path: `..` or a name. Empty components and `.` do not move and are left
out. -/
inductive Comp (N : Type)
  | up
  | down (n : N)
  deriving DecidableEq

/-- What a location holds. A link has a target path, from the root or relative to the directory
of the link. -/
inductive Entry (N : Type)
  | dir
  | file
  | link (absolute : Bool) (target : List (Comp N))

/-- A file system with a working directory, which is where its name says: `getcwd` returns a
path without links. -/
structure FileSystem (N : Type) where
  entry : List N → Option (Entry N)
  cwd : List N
  /-- every directory on the way to `cwd` is there -/
  cwd_dir : ∀ s, s ≠ [] → s <+: cwd → entry s = some .dir

/-- The path a text denotes if `..` takes back the component before it. -/
def lexical {N : Type} : List N → List (Comp N) → List N
  | cur, [] => cur
  | cur, .up :: cs => lexical cur.dropLast cs
  | cur, .down n :: cs => lexical (cur ++ [n]) cs

/-- Without `..` the lexical path is the names in order. -/
@[simp] theorem lexical_map_down {N : Type} (names : List N) :
    ∀ cur : List N, lexical cur (names.map .down) = cur ++ names := by
  induction names with
  | nil => intro cur; simp [lexical]
  | cons n rest ih => intro cur; simp [lexical, ih]

/-- A path without `..` is its names. -/
theorem map_down_lexical {N : Type} {cs : List (Comp N)} (h : .up ∉ cs) :
    ∀ cur : List N, (lexical cur cs).map .down = cur.map .down ++ cs := by
  induction cs with
  | nil => intro cur; simp [lexical]
  | cons c cs ih =>
    intro cur
    cases c with
    | up => exact absurd List.mem_cons_self h
    | down n =>
      rw [lexical, ih fun hmem => h (List.mem_cons_of_mem _ hmem)]
      simp

/-- The names of a lexical path are those it is made from. -/
theorem mem_lexical {N : Type} {n : N} {cs : List (Comp N)} :
    ∀ {cur : List N}, n ∈ lexical cur cs → n ∈ cur ∨ .down n ∈ cs := by
  induction cs with
  | nil => exact fun h => .inl h
  | cons c cs ih =>
    intro cur h
    cases c with
    | up => exact (ih h).imp (fun h => (List.dropLast_prefix cur).subset h) (List.mem_cons_of_mem _)
    | down m =>
      rcases ih h with h | h
      · rcases List.mem_append.mp h with h | h
        · exact .inl h
        · obtain rfl := List.mem_singleton.mp h
          exact .inr List.mem_cons_self
      · exact .inr (List.mem_cons_of_mem _ h)

namespace FileSystem

variable {N : Type} {fs : FileSystem N} {cur mid loc : List N} {cs cs' : List (Comp N)}

/-- The root is a directory. -/
def IsDir (fs : FileSystem N) (l : List N) : Prop := l = [] ∨ fs.entry l = some .dir

/-- **Following a path**: from the directory at `cur`, the components `cs` lead to `loc`. It is a
relation, since a file system may have links that lead to themselves, and such a path leads nowhere.
-/
inductive Walks (fs : FileSystem N) : List N → List (Comp N) → List N → Prop
  | done (cur : List N) : Walks fs cur [] cur
  | up {cur loc : List N} {cs : List (Comp N)} :
      Walks fs cur.dropLast cs loc → Walks fs cur (.up :: cs) loc
  | enter {cur loc : List N} {n : N} {cs : List (Comp N)} :
      fs.entry (cur ++ [n]) = some .dir → Walks fs (cur ++ [n]) cs loc →
      Walks fs cur (.down n :: cs) loc
  | last {cur : List N} {n : N} :
      fs.entry (cur ++ [n]) = some .file → Walks fs cur [.down n] (cur ++ [n])
  | link {cur loc : List N} {n : N} {absolute : Bool} {target cs : List (Comp N)} :
      fs.entry (cur ++ [n]) = some (.link absolute target) →
      Walks fs (if absolute then [] else cur) (target ++ cs) loc →
      Walks fs cur (.down n :: cs) loc

/-- A path leads to one location at most. -/
theorem Walks.det {loc' : List N} (h : fs.Walks cur cs loc) (h' : fs.Walks cur cs loc') :
    loc = loc' := by
  induction h with
  | done cur => cases h'; rfl
  | up _ ih => cases h' with | up h' => exact ih h'
  | enter he _ ih =>
    cases h' with
    | enter _ h' => exact ih h'
    | last he' => rw [he] at he'; cases he'
    | link he' _ => rw [he] at he'; cases he'
  | last he =>
    cases h' with
    | enter he' _ => rw [he] at he'; cases he'
    | last _ => rfl
    | link he' _ => rw [he] at he'; cases he'
  | link he _ ih =>
    cases h' with
    | enter he' _ => rw [he] at he'; cases he'
    | last he' => rw [he] at he'; cases he'
    | link he' h' =>
      rw [he] at he'
      cases he'
      exact ih h'

/-- Two walks in a row are one, if the first ends in a directory. -/
theorem Walks.append (h : fs.Walks cur cs mid) (hdir : fs.IsDir mid)
    (h' : fs.Walks mid cs' loc) : fs.Walks cur (cs ++ cs') loc := by
  induction h with
  | done cur => exact h'
  | up _ ih => exact .up (ih hdir h')
  | enter he _ ih => exact .enter he (ih hdir h')
  | last he =>
    rcases hdir with h0 | hd
    · exact absurd h0 (by simp)
    · rw [he] at hd
      cases hd
  | link he _ ih =>
    have hw := ih hdir h'
    rw [List.append_assoc] at hw
    exact .link he hw

/-- A directory is entered. -/
theorem walks_down_dir {n : N} (hn : fs.entry (cur ++ [n]) = some .dir) :
    fs.Walks cur (.down n :: cs) loc ↔ fs.Walks (cur ++ [n]) cs loc := by
  constructor
  · intro h
    cases h with
    | enter _ h => exact h
    | last he => rw [hn] at he; cases he
    | link he _ => rw [hn] at he; cases he
  · exact .enter hn

/-- Entering the directories of a physical path changes nothing but the place. -/
theorem walks_of_prefix_dirs {s : List N}
    (hdirs : ∀ t, t ≠ [] → t <+: s → fs.entry (cur ++ t) = some .dir) :
    fs.Walks cur (s.map .down ++ cs) loc ↔ fs.Walks (cur ++ s) cs loc := by
  induction s generalizing cur with
  | nil => simp
  | cons n rest ih =>
    have hn : fs.entry (cur ++ [n]) = some .dir := hdirs [n] (by simp) (by simp)
    rw [List.map_cons, List.cons_append, walks_down_dir hn, ih, List.append_assoc,
      List.singleton_append]
    intro t ht hpre
    rw [List.append_assoc, List.singleton_append]
    exact hdirs (n :: t) (by simp) (List.cons_prefix_cons.mpr ⟨rfl, hpre⟩)

/-! ## Walks that stay where the text says -/

/-- The names of a lexical path, each with a flag for a component that was a link. -/
abbrev Trail (N : Type) := List (N × Bool)

/-- The lexical path of a trail. -/
def names (t : Trail N) : List N := t.map Prod.fst

@[simp] theorem names_concat (t : Trail N) (n : N) (b : Bool) :
    names (t ++ [(n, b)]) = names t ++ [n] := by
  simp [names]

@[simp] theorem names_dropLast (t : Trail N) : names t.dropLast = (names t).dropLast := by
  simp [names]

/-- **A walk with no link but those on the way to `pre`.** The trail is the lexical path so far; a
link may be followed only while that path is part of `pre`, and `..` does not leave a link. Behind a
link `..` would lead out of its target, where the text says that it undoes the link. -/
inductive Plain (fs : FileSystem N) (pre : List N) :
    Trail N → List N → List (Comp N) → List N → Prop
  | done (t : Trail N) (cur : List N) : Plain fs pre t cur [] cur
  | up {t : Trail N} {cur loc : List N} {cs : List (Comp N)} :
      (∀ step ∈ t.getLast?, step.2 = false) → Plain fs pre t.dropLast cur.dropLast cs loc →
      Plain fs pre t cur (.up :: cs) loc
  | enter {t : Trail N} {cur loc : List N} {n : N} {cs : List (Comp N)} :
      fs.entry (cur ++ [n]) = some .dir → Plain fs pre (t ++ [(n, false)]) (cur ++ [n]) cs loc →
      Plain fs pre t cur (.down n :: cs) loc
  | last {t : Trail N} {cur : List N} {n : N} :
      fs.entry (cur ++ [n]) = some .file → Plain fs pre t cur [.down n] (cur ++ [n])
  | link {t : Trail N} {cur mid loc : List N} {n : N} {absolute : Bool}
      {target cs : List (Comp N)} :
      fs.entry (cur ++ [n]) = some (.link absolute target) → names t ++ [n] <+: pre →
      fs.Walks (if absolute then [] else cur) target mid → fs.IsDir mid →
      Plain fs pre (t ++ [(n, true)]) mid cs loc →
      Plain fs pre t cur (.down n :: cs) loc

/-- The trails that lead to a directory in such a walk. A trail remembers which of its steps were
links, for `..` may undo the others only. -/
inductive Reached (fs : FileSystem N) (pre : List N) : Trail N → List N → Prop
  | root : Reached fs pre [] []
  | enter {t : Trail N} {cur : List N} {n : N} :
      Reached fs pre t cur → fs.entry (cur ++ [n]) = some .dir →
      Reached fs pre (t ++ [(n, false)]) (cur ++ [n])
  | link {t : Trail N} {cur mid : List N} {n : N} {absolute : Bool} {target : List (Comp N)} :
      Reached fs pre t cur → fs.entry (cur ++ [n]) = some (.link absolute target) →
      names t ++ [n] <+: pre → fs.Walks (if absolute then [] else cur) target mid →
      fs.IsDir mid → Reached fs pre (t ++ [(n, true)]) mid

variable {pre : List N} {t : Trail N}

theorem Reached.isDir (h : fs.Reached pre t cur) : fs.IsDir cur := by
  cases h with
  | root => exact .inl rfl
  | enter _ he => exact .inr he
  | link _ _ _ _ hdir => exact hdir

/-- A trail leads to where the kernel gets on its lexical path. -/
theorem Reached.walks (h : fs.Reached pre t cur) :
    fs.Walks [] ((names t).map .down) cur := by
  induction h with
  | root => exact .done []
  | enter hr he ih =>
    rw [names_concat, List.map_append]
    exact ih.append hr.isDir (.enter he (.done _))
  | link hr he _ hw _ ih =>
    rw [names_concat, List.map_append]
    refine ih.append hr.isDir (.link he ?_)
    rwa [List.map_nil, List.append_nil]

/-- `..` takes back a component that was not a link. -/
theorem Reached.up (h : fs.Reached pre t cur) (hlast : ∀ step ∈ t.getLast?, step.2 = false) :
    fs.Reached pre t.dropLast cur.dropLast := by
  cases h with
  | root => exact .root
  | enter hr _ => simpa using hr
  | @link t cur mid n absolute target _ _ _ _ _ =>
    exact absurd (hlast (n, true) (by simp)) (by simp)

/-- Once the lexical path is below `pre`, the walk is below the place `pre` denotes. -/
theorem Reached.stays (h : fs.Reached pre t cur) (hpre : pre <+: names t) :
    ∃ ploc, fs.Walks [] (pre.map .down) ploc ∧ ploc <+: cur := by
  induction h with
  | root =>
    obtain rfl := List.prefix_nil.mp hpre
    exact ⟨[], .done [], List.prefix_refl []⟩
  | enter hr he ih =>
    rw [names_concat] at hpre
    rcases List.prefix_concat_iff.mp hpre with heq | hshort
    · have hw := (hr.enter he).walks
      rw [names_concat, ← heq] at hw
      exact ⟨_, hw, List.prefix_refl _⟩
    · obtain ⟨ploc, hw, hp⟩ := ih hshort
      exact ⟨ploc, hw, hp.trans (List.prefix_append _ _)⟩
  | link hr he hlink hw hdir ih =>
    have heq := List.IsPrefix.eq_of_length_le hpre (by simpa using hlink.length_le)
    have hwalk := (hr.link he hlink hw hdir).walks
    rw [← heq] at hwalk
    exact ⟨_, hwalk, List.prefix_refl _⟩

/-- **A plain walk ends below the place `pre` denotes** when its text is below `pre`. -/
theorem Plain.stays (h : fs.Plain pre t cur cs loc) (hr : fs.Reached pre t cur)
    (hpre : pre <+: lexical (names t) cs) :
    ∃ ploc, fs.Walks [] (pre.map .down) ploc ∧ ploc <+: loc := by
  induction h with
  | done t cur => exact hr.stays hpre
  | up hlast _ ih => exact ih (hr.up hlast) (by simpa [lexical] using hpre)
  | enter he _ ih => exact ih (hr.enter he) (by simpa [lexical] using hpre)
  | @last t cur n he =>
    rcases List.prefix_concat_iff.mp (show pre <+: names t ++ [n] from hpre) with heq | hshort
    · refine ⟨cur ++ [n], ?_, List.prefix_refl _⟩
      rw [heq, List.map_append]
      exact hr.walks.append hr.isDir (.last he)
    · obtain ⟨ploc, hw, hp⟩ := hr.stays hshort
      exact ⟨ploc, hw, hp.trans (List.prefix_append _ _)⟩
  | link he hlink hw hdir _ ih =>
    exact ih (hr.link he hlink hw hdir) (by simpa [lexical] using hpre)

/-- A plain walk is a walk. -/
theorem Plain.walks (h : fs.Plain pre t cur cs loc) : fs.Walks cur cs loc := by
  induction h with
  | done t cur => exact .done cur
  | up _ _ ih => exact .up ih
  | enter he _ ih => exact .enter he ih
  | last he => exact .last he
  | link he _ hw hdir _ ih => exact .link he (hw.append hdir ih)

/-- A plain walk ends where the kernel gets on its lexical path: each `..` takes back a directory
that was entered under its own name, so taking it back in the text is the same. -/
theorem Plain.walks_lexical (h : fs.Plain pre t cur cs loc) (hr : fs.Reached pre t cur) :
    fs.Walks [] ((lexical (names t) cs).map .down) loc := by
  induction h with
  | done t cur => exact hr.walks
  | up hlast _ ih => simpa [lexical] using ih (hr.up hlast)
  | enter he _ ih => simpa [lexical] using ih (hr.enter he)
  | last he =>
    rw [lexical, lexical, List.map_append]
    exact hr.walks.append hr.isDir (.last he)
  | link he hlink hw hdir _ ih => simpa [lexical] using ih (hr.link he hlink hw hdir)

/-- What is left of a file system when its links are taken out. -/
def withoutLinks (fs : FileSystem N) : FileSystem N where
  entry l := (fs.entry l).filter fun
    | .link _ _ => false
    | _ => true
  cwd := fs.cwd
  cwd_dir := fun s hs hpre => by rw [fs.cwd_dir s hs hpre]; rfl

theorem entry_of_withoutLinks {l : List N} {e : Entry N}
    (h : fs.withoutLinks.entry l = some e) :
    fs.entry l = some e ∧ ∀ absolute target, e ≠ .link absolute target := by
  obtain ⟨he, hkept⟩ := Option.filter_eq_some_iff.mp h
  refine ⟨he, ?_⟩
  rintro absolute target rfl
  exact Bool.false_ne_true hkept

/-- **A path that can be followed without links is plain**, whatever `pre` is: no component of
its trail is a link, so `..` never leaves one. -/
theorem Walks.plain (h : fs.withoutLinks.Walks cur cs loc) :
    ∀ {t : Trail N}, (∀ step ∈ t, step.2 = false) → fs.Plain pre t cur cs loc := by
  have hconcat : ∀ {t : Trail N} (n : N), (∀ step ∈ t, step.2 = false) →
      ∀ step ∈ t ++ [(n, false)], step.2 = false := by
    intro t n ht step hstep
    rcases List.mem_append.mp hstep with hstep | hstep
    · exact ht step hstep
    · rw [List.mem_singleton.mp hstep]
  induction h with
  | done cur => exact fun _ => .done _ cur
  | up _ ih =>
    intro t ht
    apply Plain.up
    · exact fun step hstep => ht step (List.mem_of_getLast? hstep)
    · exact ih fun step hstep => ht step ((List.dropLast_prefix t).subset hstep)
  | enter he _ ih =>
    intro t ht
    exact .enter (entry_of_withoutLinks he).1 (ih (hconcat _ ht))
  | last he => exact fun _ => .last (entry_of_withoutLinks he).1
  | link he _ _ => exact absurd rfl ((entry_of_withoutLinks he).2 _ _)

/-- The working directory is reached by a trail without links. -/
theorem reached_cwd (pre : List N) :
    ∀ s, s <+: fs.cwd → fs.Reached pre (s.map fun n => (n, false)) s := by
  intro s
  induction s using List.reverseRecOn with
  | nil => intro _; exact .root
  | append_singleton s n ih =>
    intro hs
    rw [List.map_append]
    refine .enter (ih ((List.prefix_append s [n]).trans hs)) ?_
    exact fs.cwd_dir _ (by simp) hs

/-! ## Walks that do not -/

/-- A file system in which `name`, in the directory `pre`, is a link to `/z`, and `/z` holds a
file at `rest`. -/
def diverted [DecidableEq N] (pre : List N) (name z : N) (rest : List N) : FileSystem N where
  entry l :=
    if l <+: pre then some .dir
    else if l = pre ++ [name] then some (.link true [.down z])
    else if l = z :: rest then some .file
    else if l <+: z :: rest then some .dir
    else none
  cwd := []
  cwd_dir := fun _ hne hs => absurd (List.prefix_nil.mp hs) hne

variable [DecidableEq N] {name z : N} {rest : List N}

/-- The directory itself is where its name says. -/
theorem diverted_walks_pre :
    (diverted pre name z rest).Walks [] (pre.map .down) pre := by
  have h : (diverted pre name z rest).Walks [] (pre.map .down ++ []) pre ↔
      (diverted pre name z rest).Walks ([] ++ pre) [] pre :=
    walks_of_prefix_dirs fun t _ hpre => by simp [diverted, hpre]
  rw [List.append_nil] at h
  exact h.mpr (.done _)

/-- Outside of `pre` the diverted path is there. -/
theorem diverted_entry_away (hpre : pre ≠ []) (hz : pre.head? ≠ some z) {l : List N} :
    (diverted pre name z rest).entry (z :: l) =
      if l = rest then some .file else if l <+: rest then some .dir else none := by
  have hnot : ∀ l', ¬ z :: l' <+: pre := by
    rintro l' ⟨u, rfl⟩
    exact hz rfl
  have hne : z :: l ≠ pre ++ [name] := by
    intro heq
    cases pre with
    | nil => exact hpre rfl
    | cons p rest' => exact hz (congrArg some (List.cons.inj heq).1.symm)
  simp [diverted, hnot, hne, List.cons_prefix_cons]

/-- **A link below a directory diverts the path out of it**: such a tree exists for every directory
but the root, and every name below it. -/
theorem diverted_walks (hpre : pre ≠ []) (hz : pre.head? ≠ some z) :
    (diverted pre name z rest).Walks [] ((pre ++ name :: rest).map .down) (z :: rest) := by
  have hlink : (diverted pre name z rest).entry (pre ++ [name]) =
      some (.link true [.down z]) := by
    have hnot : ¬ pre ++ [name] <+: pre := by
      intro h
      have := h.length_le
      simp only [List.length_append, List.length_singleton] at this
      omega
    simp [diverted, hnot]
  rw [List.map_append, List.map_cons]
  refine diverted_walks_pre.append (.inr ?_) (.link hlink ?_)
  · simp [diverted]
  · -- from the root along `z :: rest`, the last component being the file
    change (diverted pre name z rest).Walks [] ((z :: rest).map .down) (z :: rest)
    obtain ⟨s, n, hs⟩ : ∃ s n, z :: rest = s ++ [n] :=
      ⟨_, _, (List.dropLast_append_getLast (List.cons_ne_nil z rest)).symm⟩
    have hdirs : ∀ t, t ≠ [] → t <+: s →
        (diverted pre name z rest).entry ([] ++ t) = some .dir := by
      intro t ht hts
      obtain ⟨l, rfl⟩ : ∃ l, t = z :: l := by
        cases t with
        | nil => exact absurd rfl ht
        | cons a l =>
          have hpre' : a :: l <+: z :: rest := hs ▸ hts.trans (List.prefix_append s [n])
          exact ⟨l, by rw [(List.cons_prefix_cons.mp hpre').1]⟩
      have hlt : l <+: rest ∧ l ≠ rest := by
        have hpre' : z :: l <+: z :: rest := hs ▸ hts.trans (List.prefix_append s [n])
        refine ⟨(List.cons_prefix_cons.mp hpre').2, ?_⟩
        rintro rfl
        have h1 := hts.length_le
        have h2 := congrArg List.length hs
        simp only [List.length_cons, List.length_append, List.length_nil] at h1 h2
        omega
      rw [List.nil_append, diverted_entry_away hpre hz, if_neg hlt.2, if_pos hlt.1]
    have hfile : (diverted pre name z rest).entry (s ++ [n]) = some .file := by
      rw [← hs, diverted_entry_away hpre hz, if_pos rfl]
    rw [hs, List.map_append, walks_of_prefix_dirs hdirs, List.nil_append]
    exact .last hfile

end FileSystem

end SocketHandoff
