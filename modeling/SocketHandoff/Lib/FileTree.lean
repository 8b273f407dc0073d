import SocketHandoff.Lib.PathWalk

/-!
# Following a path in a tree of files

A tree says what is at each location. `Tree.walk` computes where a path from the root leads and
gives up after a number of links, as a kernel and the resolvers in libraries do: without a bound a
link to itself would be followed for ever. `SymlinkFree` locations are those that a walk returns,
and `relative` compares two of them.
-/

namespace SocketHandoff

/-- What is at each location. -/
abbrev Tree (N : Type) := List N → Option (Entry N)

/-- Every part of the way to a location is a directory, and only its end may be a file. -/
def SymlinkFree {N : Type} (t : Tree N) (loc : List N) : Prop :=
  ∀ s, s ≠ [] → s <+: loc → t s = some .dir ∨ s = loc ∧ t s = some .file

/-- What is on the way to a location without links has none. -/
theorem SymlinkFree.of_start {N : Type} {t : Tree N} {top loc : List N} (h : SymlinkFree t loc)
    (hpre : top <+: loc) : SymlinkFree t top := by
  intro s hs hst
  rcases h s hs (hst.trans hpre) with hdir | ⟨rfl, hfile⟩
  · exact .inl hdir
  · exact .inr ⟨hst.eq_of_length_le hpre.length_le, hfile⟩

/-- `target` seen from `base`: up to what they have in common, and down again. -/
def relative {N : Type} [DecidableEq N] : List N → List N → List (Comp N)
  | b :: base, t :: target =>
    if b = t then relative base target
    else (b :: base).map (fun _ => .up) ++ (t :: target).map .down
  | base, target => base.map (fun _ => .up) ++ target.map .down

/-- What does not start by going up is below. -/
theorem relative_head_iff {N : Type} [DecidableEq N] :
    ∀ base target : List N, (relative base target).head? ≠ some .up ↔ base <+: target := by
  intro base
  induction base with
  | nil => intro target; cases target <;> simp [relative]
  | cons b base ih =>
    intro target
    cases target with
    | nil => simp [relative]
    | cons t target =>
      rw [relative, List.cons_prefix_cons]
      split
      · rename_i heq
        rw [ih target]
        simp [heq]
      · rename_i hne
        simp [hne]

namespace Tree

variable {N : Type} {t t' : Tree N} {k : Nat} {cur loc : List N} {cs : List (Comp N)}

/-- Follow a path up to its first link, and `follow` what comes then. -/
def walkWith (t : Tree N) (follow : List N → List (Comp N) → Option (List N)) :
    List N → List (Comp N) → Option (List N)
  | cur, [] => some cur
  | cur, .up :: cs => walkWith t follow cur.dropLast cs
  | cur, .down n :: cs =>
    match t (cur ++ [n]) with
    | none => none
    | some .dir => walkWith t follow (cur ++ [n]) cs
    -- only the end of a path may be a file
    | some .file => if cs.isEmpty then some (cur ++ [n]) else none
    | some (.link absolute target) => follow (if absolute then [] else cur) (target ++ cs)

/-- Where a path leads, if there are no more than `k` links on the way. -/
def walk (t : Tree N) : Nat → List N → List (Comp N) → Option (List N)
  | 0 => t.walkWith fun _ _ => none
  | k + 1 => t.walkWith (t.walk k)

/-- **The rule for walks**: a property of paths that the steps of a walk hand on, from the rest of
the path to the whole. -/
theorem walk_induct {motive : Nat → List N → List (Comp N) → List N → Prop}
    (done : ∀ k cur, motive k cur [] cur)
    (up : ∀ k cur cs loc, motive k cur.dropLast cs loc → motive k cur (.up :: cs) loc)
    (enter : ∀ k cur n cs loc, t (cur ++ [n]) = some .dir → motive k (cur ++ [n]) cs loc →
      motive k cur (.down n :: cs) loc)
    (last : ∀ k cur n, t (cur ++ [n]) = some .file → motive k cur [.down n] (cur ++ [n]))
    (link : ∀ k cur n absolute target cs loc, t (cur ++ [n]) = some (.link absolute target) →
      motive k (if absolute then [] else cur) (target ++ cs) loc →
      motive (k + 1) cur (.down n :: cs) loc) :
    ∀ {k cur cs loc}, t.walk k cur cs = some loc → motive k cur cs loc := by
  intro k
  induction k with
  | zero =>
    intro cur cs
    induction cs generalizing cur with
    | nil =>
      intro loc h
      obtain rfl := Option.some.inj h
      exact done 0 cur
    | cons c cs ih =>
      intro loc h
      cases c with
      | up => exact up 0 cur cs loc (ih h)
      | down n =>
        simp only [walk, walkWith] at h
        split at h
        · cases h
        · rename_i he
          exact enter 0 cur n cs loc he (ih h)
        · rename_i he
          split at h
          · rename_i hcs
            obtain rfl := List.isEmpty_iff.mp hcs
            obtain rfl := Option.some.inj h
            exact last 0 cur n he
          · cases h
        · cases h
  | succ k ihk =>
    intro cur cs
    induction cs generalizing cur with
    | nil =>
      intro loc h
      obtain rfl := Option.some.inj h
      exact done _ cur
    | cons c cs ih =>
      intro loc h
      cases c with
      | up => exact up _ cur cs loc (ih h)
      | down n =>
        simp only [walk, walkWith] at h
        split at h
        · cases h
        · rename_i he
          exact enter _ cur n cs loc he (ih h)
        · rename_i he
          split at h
          · rename_i hcs
            obtain rfl := List.isEmpty_iff.mp hcs
            obtain rfl := Option.some.inj h
            exact last _ cur n he
          · cases h
        · rename_i absolute target he
          exact link k cur n absolute target cs loc he (ihk h)

/-- A tree with one entry gone. -/
def without [DecidableEq N] (t : Tree N) (loc : List N) : Tree N :=
  fun x => if x = loc then none else t x

@[simp] theorem without_self [DecidableEq N] (t : Tree N) (loc : List N) :
    t.without loc loc = none := if_pos rfl

theorem without_ne [DecidableEq N] {x : List N} (t : Tree N) (hne : x ≠ loc) :
    t.without loc x = t x := if_neg hne

/-! ## The steps of a walk -/

@[simp] theorem walk_nil : t.walk k cur [] = some cur := by
  cases k <;> rfl

@[simp] theorem walk_up : t.walk k cur (.up :: cs) = t.walk k cur.dropLast cs := by
  cases k <;> rfl

theorem walk_enter {n : N} (h : t (cur ++ [n]) = some .dir) :
    t.walk k cur (.down n :: cs) = t.walk k (cur ++ [n]) cs := by
  cases k <;> simp [walk, walkWith, h]

theorem walk_last {n : N} (h : t (cur ++ [n]) = some .file) :
    t.walk k cur [.down n] = some (cur ++ [n]) := by
  cases k <;> simp [walk, walkWith, h]

theorem walk_link {n : N} {absolute : Bool} {target : List (Comp N)}
    (h : t (cur ++ [n]) = some (.link absolute target)) :
    t.walk (k + 1) cur (.down n :: cs) =
      t.walk k (if absolute then [] else cur) (target ++ cs) := by
  simp [walk, walkWith, h]

/-! ## Where a walk leads -/

/-- More links may be followed. -/
theorem walk_succ (h : t.walk k cur cs = some loc) : t.walk (k + 1) cur cs = some loc := by
  refine walk_induct (t := t) (motive := fun k cur cs loc => t.walk (k + 1) cur cs = some loc)
    ?_ ?_ ?_ ?_ ?_ h
  · exact fun _ _ => walk_nil
  · exact fun _ _ _ _ ih => walk_up.trans ih
  · exact fun _ _ _ _ _ he ih => (walk_enter he).trans ih
  · exact fun _ _ _ he => walk_last he
  · exact fun _ _ _ _ _ _ _ he ih => (walk_link he).trans ih

theorem walk_le {k' : Nat} (hk : k ≤ k') (h : t.walk k cur cs = some loc) :
    t.walk k' cur cs = some loc := by
  induction hk with
  | refl => exact h
  | step _ ih => exact walk_succ ih

/-- What is found in a part of a tree is found in the tree. -/
theorem walk_mono (hsub : ∀ x e, t' x = some e → t x = some e)
    (h : t'.walk k cur cs = some loc) : t.walk k cur cs = some loc := by
  refine walk_induct (t := t') (motive := fun k cur cs loc => t.walk k cur cs = some loc)
    ?_ ?_ ?_ ?_ ?_ h
  · exact fun _ _ => walk_nil
  · exact fun _ _ _ _ ih => walk_up.trans ih
  · exact fun _ _ _ _ _ he ih => (walk_enter (hsub _ _ he)).trans ih
  · exact fun _ _ _ he => walk_last (hsub _ _ he)
  · exact fun _ _ _ _ _ _ _ he ih => (walk_link (hsub _ _ he)).trans ih

/-- **Files that are gone are on no other way**: a walk goes through directories and links, and a
file can only be its end. So removing files changes no walk that does not end at one of them. -/
theorem walk_of_files_gone (hgone : ∀ x, t' x = t x ∨ t x = some .file)
    (h : t.walk k cur cs = some loc) (hloc : loc ≠ [] → t' loc = t loc) :
    t'.walk k cur cs = some loc := by
  refine walk_induct (t := t)
    (motive := fun k cur cs loc => (loc ≠ [] → t' loc = t loc) → t'.walk k cur cs = some loc)
    ?_ ?_ ?_ ?_ ?_ h hloc
  · exact fun _ _ _ => walk_nil
  · exact fun _ _ _ _ ih hloc => walk_up.trans (ih hloc)
  · intro k cur n cs loc he ih hloc
    refine (walk_enter ?_).trans (ih hloc)
    rcases hgone (cur ++ [n]) with hsame | hfile
    · exact hsame.trans he
    · rw [he] at hfile
      cases hfile
  · exact fun _ _ _ he hloc => walk_last ((hloc (by simp)).trans he)
  · intro k cur n absolute target cs loc he ih hloc
    refine (walk_link ?_).trans (ih hloc)
    rcases hgone (cur ++ [n]) with hsame | hfile
    · exact hsame.trans he
    · rw [he] at hfile
      cases hfile

/-! ## Locations without links -/

/-- The way to a location leads through directories only. -/
def Entered (t : Tree N) (cur : List N) : Prop := ∀ s, s ≠ [] → s <+: cur → t s = some .dir

theorem Entered.symlinkFree (h : t.Entered cur) : SymlinkFree t cur :=
  fun s hs hpre => .inl (h s hs hpre)

theorem Entered.concat {n : N} (h : t.Entered cur) (hn : t (cur ++ [n]) = some .dir) :
    t.Entered (cur ++ [n]) := by
  intro s hs hpre
  rcases List.prefix_concat_iff.mp hpre with rfl | hpre
  · exact hn
  · exact h s hs hpre

/-- **A walk ends at a location without links.** -/
theorem symlinkFree_of_walk (h : t.walk k cur cs = some loc) (hcur : t.Entered cur) :
    SymlinkFree t loc := by
  refine walk_induct (t := t) (motive := fun _ cur _ loc => t.Entered cur → SymlinkFree t loc)
    ?_ ?_ ?_ ?_ ?_ h hcur
  · exact fun _ _ hcur => hcur.symlinkFree
  · exact fun _ _ _ _ ih hcur => ih fun s hs hpre => hcur s hs (hpre.trans (List.dropLast_prefix _))
  · exact fun _ _ _ _ _ he ih hcur => ih (hcur.concat he)
  · intro _ cur n he hcur s hs hpre
    rcases List.prefix_concat_iff.mp hpre with rfl | hpre
    · exact .inr ⟨rfl, he⟩
    · exact .inl (hcur s hs hpre)
  · intro _ cur n absolute target cs loc _ ih hcur
    refine ih ?_
    split
    · exact fun s hs hpre => absurd (List.prefix_nil.mp hpre) hs
    · exact hcur

theorem symlinkFree_of_walk_root (h : t.walk k [] cs = some loc) : SymlinkFree t loc :=
  symlinkFree_of_walk h fun _ hs hpre => absurd (List.prefix_nil.mp hpre) hs

end Tree

end SocketHandoff
