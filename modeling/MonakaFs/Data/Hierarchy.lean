import Mathlib

/-! Named links between nodes, and the trees among them.

A node leads to others under names. What matters of a hierarchy is that no node
has two names, that the root has none, and what is reached from the root; how each
of these survives a link that is put, taken away or moved is said here once.
-/

set_option autoImplicit false

namespace MonakaFs

/-- Where a node leads under a name. -/
abbrev Links (V N : Type) := V → N → Option V

namespace Links

variable {V N : Type} {links more : Links V N} {root a b d e v w x : V} {n m : N}

def Parent (links : Links V N) (d v : V) : Prop := ∃ n, links d n = some v

def Linked (links : Links V N) (v : V) : Prop := ∃ d, links.Parent d v

/-- Reached from a node, over any number of links. -/
def Below (links : Links V N) : V → V → Prop := Relation.ReflTransGen links.Parent

/-- The root has no name, and no node has two. -/
structure Forest (links : Links V N) (root : V) : Prop where
  rootless : ¬ links.Linked root
  unique : ∀ {d e : V} {n m : N} {v : V}, links d n = some v → links e m = some v → d = e ∧ n = m

/-- A forest whose named nodes are all reached from the root. -/
structure Tree (links : Links V N) (root : V) : Prop extends Forest links root where
  rooted : ∀ {v : V}, links.Linked v → links.Below root v

theorem Below.mono (kept : ∀ d n v, links d n = some v → more d n = some v) (below : links.Below a b) : more.Below a b := by
  induction below with
  | refl => exact .refl
  | tail _ named ih =>
    obtain ⟨n, named⟩ := named
    exact ih.tail ⟨n, kept _ _ _ named⟩

theorem Below.linked (below : links.Below a b) (different : b ≠ a) : links.Linked b := by
  rcases Relation.ReflTransGen.cases_tail below with same | ⟨parent, -, named⟩
  · exact absurd same different
  · exact ⟨parent, named⟩

namespace Forest

/-- The directory of a reached node is reached. -/
theorem below_parent (forest : Forest links root) (below : links.Below root v) (named : links d n = some v) :
    links.Below root d := by
  rcases Relation.ReflTransGen.cases_tail below with rfl | ⟨parent, reached, m, other⟩
  · exact absurd ⟨d, n, named⟩ forest.rootless
  · exact (forest.unique named other).1 ▸ reached

theorem ne_root (forest : Forest links root) (linked : links.Linked v) : v ≠ root := by
  rintro rfl
  exact forest.rootless linked

/-- A node below another is the node itself, or its directory is below. -/
theorem below_cases (forest : Forest links root) (below : links.Below a v) (named : links d n = some v) :
    v = a ∨ links.Below a d := by
  rcases Relation.ReflTransGen.cases_tail below with same | ⟨parent, reached, m, other⟩
  · exact .inl same
  · exact .inr ((forest.unique named other).1 ▸ reached)

end Forest

/-- In a tree every directory with an entry is reached. -/
theorem Tree.live (tree : Tree links root) (named : links d n = some v) : links.Below root d :=
  tree.below_parent (tree.rooted ⟨d, n, named⟩) named

theorem Tree.below_iff (tree : Tree links root) : links.Below root v ↔ v = root ∨ links.Linked v := by
  constructor
  · intro below
    by_cases same : v = root
    · exact .inl same
    · exact .inr (below.linked same)
  · rintro (rfl | linked)
    · exact .refl
    · exact tree.rooted linked

/-! ### Walks -/

/-- Follow names from a node. -/
def walk (links : Links V N) : V → List N → Option V
  | d, [] => some d
  | d, n :: names => (links d n).bind fun next => walk links next names

theorem walk_append (front back : List N) :
    links.walk d (front ++ back) = (links.walk d front).bind fun middle => links.walk middle back := by
  induction front generalizing d with
  | nil => rfl
  | cons n front ih =>
    rw [List.cons_append, walk, walk]
    cases links d n with
    | none => rfl
    | some next => exact ih

theorem walk_concat (front : List N) : links.walk d (front ++ [n]) = (links.walk d front).bind fun middle => links middle n := by
  rw [walk_append]
  congr 1
  funext middle
  simp [walk]

theorem walk_mono (kept : ∀ d n v, links d n = some v → more d n = some v) {names : List N} (found : links.walk d names = some v) :
    more.walk d names = some v := by
  induction names generalizing d with
  | nil => exact found
  | cons n names ih =>
    obtain ⟨next, named, rest⟩ := Option.bind_eq_some_iff.mp found
    rw [walk, kept d n next named]
    exact ih rest

theorem Below.of_walk {names : List N} (found : links.walk d names = some v) : links.Below d v := by
  induction names generalizing d with
  | nil =>
    cases found
    exact .refl
  | cons n names ih =>
    obtain ⟨next, named, rest⟩ := Option.bind_eq_some_iff.mp found
    exact .head ⟨n, named⟩ (ih rest)

theorem Below.walk (below : links.Below a b) : ∃ names, links.walk a names = some b := by
  induction below with
  | refl => exact ⟨[], rfl⟩
  | tail _ named ih =>
    obtain ⟨names, found⟩ := ih
    obtain ⟨n, named⟩ := named
    exact ⟨names ++ [n], by rw [walk_concat, found]; exact named⟩

/-- A node has one path from the root. -/
theorem Forest.walk_unique (forest : Forest links root) {names more : List N} (found : links.walk root names = some v)
    (again : links.walk root more = some v) : names = more := by
  induction names using List.reverseRecOn generalizing v more with
  | nil =>
    cases found
    induction more using List.reverseRecOn with
    | nil => rfl
    | append_singleton front m =>
      rw [walk_concat] at again
      obtain ⟨middle, -, named⟩ := Option.bind_eq_some_iff.mp again
      exact absurd ⟨middle, m, named⟩ forest.rootless
  | append_singleton names n ih =>
    rw [walk_concat] at found
    obtain ⟨parent, reached, named⟩ := Option.bind_eq_some_iff.mp found
    induction more using List.reverseRecOn with
    | nil =>
      cases again
      exact absurd ⟨parent, n, named⟩ forest.rootless
    | append_singleton front m =>
      rw [walk_concat] at again
      obtain ⟨other, reached', named'⟩ := Option.bind_eq_some_iff.mp again
      obtain ⟨rfl, rfl⟩ := forest.unique named named'
      rw [ih reached reached']

/-- Below a node are the paths that continue its own. -/
theorem Forest.below_iff_prefix (forest : Forest links root) {names more : List N} (found : links.walk root names = some v)
    (there : links.walk root more = some w) : links.Below v w ↔ names <+: more := by
  constructor
  · intro below
    obtain ⟨rest, onward⟩ := below.walk
    have whole : links.walk root (names ++ rest) = some w := by rw [walk_append, found]; exact onward
    exact ⟨rest, forest.walk_unique whole there⟩
  · rintro ⟨rest, rfl⟩
    rw [walk_append, found] at there
    exact .of_walk there

/-! ### Putting and taking away one link -/

section
variable [DecidableEq V] [DecidableEq N]

/-- The links with one changed. -/
def set (links : Links V N) (d : V) (n : N) (target : Option V) : Links V N :=
  fun e m => if e = d ∧ m = n then target else links e m

theorem set_same {target : Option V} : links.set d n target d n = target := if_pos ⟨rfl, rfl⟩

theorem set_other {target : Option V} (other : ¬ (e = d ∧ m = n)) : links.set d n target e m = links e m := if_neg other

theorem set_some {target : Option V} (named : links.set d n target e m = some v) :
    (e = d ∧ m = n ∧ target = some v) ∨ (¬ (e = d ∧ m = n) ∧ links e m = some v) := by
  unfold set at named
  split at named
  · next here => exact .inl ⟨here.1, here.2, named⟩
  · next other => exact .inr ⟨other, named⟩

/-- Whoever has no name can get one. -/
theorem Forest.put (forest : Forest links root) (unlinked : ¬ links.Linked v) (other : v ≠ root) :
    Forest (links.set d n (some v)) root where
  rootless := by
    rintro ⟨e, m, named⟩
    rcases set_some named with ⟨-, -, same⟩ | ⟨-, named⟩
    · cases same
      exact other rfl
    · exact forest.rootless ⟨e, m, named⟩
  unique {e e' m m' w} first second := by
    rcases set_some first with ⟨rfl, rfl, same⟩ | ⟨-, named⟩ <;> rcases set_some second with ⟨rfl, rfl, same'⟩ | ⟨-, named'⟩
    · exact ⟨rfl, rfl⟩
    · cases same
      exact absurd ⟨e', m', named'⟩ unlinked
    · cases same'
      exact absurd ⟨e, m, named⟩ unlinked
    · exact forest.unique named named'

/-- A free name in a reached directory gives one more path. -/
theorem Forest.walk_put (forest : Forest links root) {front : List N} (reached : links.walk root front = some d)
    (free : links d n = none) (leaf : ∀ m, links v m = none) (apart : v ≠ d) (names : List N) :
    (links.set d n (some v)).walk root names = if names = front ++ [n] then some v else links.walk root names := by
  induction names using List.reverseRecOn with
  | nil => rw [if_neg fun same => by simp at same]; rfl
  | append_singleton names m ih =>
    rw [walk_concat, walk_concat, ih]
    split
    · next new =>
      -- The walk goes on below the new entry, where nothing is linked.
      have longer : names ++ [m] ≠ front ++ [n] := by
        intro same
        have lengths := congrArg List.length same
        rw [new] at lengths
        simp at lengths
      rw [if_neg longer, new, walk_concat, reached, Option.bind_some, Option.bind_some, free, set_other fun both => apart both.1]
      exact leaf m
    · cases found : links.walk root names with
      | none =>
        rw [if_neg]
        · rfl
        · intro same
          obtain ⟨rfl, -⟩ := List.append_inj' same rfl
          rw [reached] at found
          cases found
      | some e =>
        rw [Option.bind_some, Option.bind_some]
        by_cases here : e = d ∧ m = n
        · obtain ⟨rfl, rfl⟩ := here
          rw [set_same, forest.walk_unique found reached, if_pos rfl]
        -- The entry is another one, and the names would lead to the place of the new one otherwise.
        · rw [set_other here, if_neg]
          intro same
          obtain ⟨rfl, last⟩ := List.append_inj' same rfl
          rw [reached] at found
          cases found
          exact here ⟨rfl, List.singleton_inj.mp last⟩

/-- Without an entry that nothing is below, one path is gone. -/
theorem Forest.walk_take (forest : Forest links root) {front : List N} (reached : links.walk root front = some d)
    (leaf : ∀ w, links d n = some w → ∀ m, links w m = none) (names : List N) :
    (links.set d n none).walk root names = if names = front ++ [n] then none else links.walk root names := by
  induction names using List.reverseRecOn with
  | nil => rw [if_neg fun same => by simp at same]; rfl
  | append_singleton names m ih =>
    rw [walk_concat, walk_concat, ih]
    split
    · next gone =>
      -- The walk would have to go on below what was taken away.
      have longer : names ++ [m] ≠ front ++ [n] := by
        intro same
        have lengths := congrArg List.length same
        rw [gone] at lengths
        simp at lengths
      rw [if_neg longer, gone, walk_concat, reached, Option.bind_some]
      cases link : links d n with
      | none => rfl
      | some w => exact (leaf w link m).symm
    · cases found : links.walk root names with
      | none =>
        rw [if_neg]
        · rfl
        · intro same
          obtain ⟨rfl, -⟩ := List.append_inj' same rfl
          rw [reached] at found
          cases found
      | some e =>
        rw [Option.bind_some, Option.bind_some]
        by_cases here : e = d ∧ m = n
        · obtain ⟨rfl, rfl⟩ := here
          rw [set_same, forest.walk_unique found reached, if_pos rfl]
        · rw [set_other here, if_neg]
          intro same
          obtain ⟨rfl, last⟩ := List.append_inj' same rfl
          rw [reached] at found
          cases found
          exact here ⟨rfl, List.singleton_inj.mp last⟩

theorem Forest.take (forest : Forest links root) : Forest (links.set d n none) root where
  rootless := by
    rintro ⟨e, m, named⟩
    rcases set_some named with ⟨-, -, same⟩ | ⟨-, named⟩
    · cases same
    · exact forest.rootless ⟨e, m, named⟩
  unique {e e' m m' w} first second := by
    rcases set_some first with ⟨-, -, same⟩ | ⟨-, named⟩
    · cases same
    rcases set_some second with ⟨-, -, same⟩ | ⟨-, named'⟩
    · cases same
    exact forest.unique named named'

theorem Forest.unlinked (forest : Forest links root) (named : links d n = some v) : ¬ (links.set d n none).Linked v := by
  rintro ⟨e, m, again⟩
  rcases set_some again with ⟨-, -, same⟩ | ⟨other, again⟩
  · cases same
  · exact other (forest.unique again named)

/-- A changed link matters to its old target only, if nothing is below that. -/
theorem Below.set (target : Option V) (leaf : ∀ w, links d n = some w → ∀ m, links w m = none) (below : links.Below a x) :
    links d n = some x ∨ (links.set d n target).Below a x := by
  induction below with
  | refl => exact .inr .refl
  | @tail parent y _ named ih =>
    obtain ⟨m, named⟩ := named
    rcases ih with replaced | reached
    · rw [leaf _ replaced m] at named
      cases named
    · by_cases here : parent = d ∧ m = n
      · obtain ⟨rfl, rfl⟩ := here
        exact .inl named
      · exact .inr (reached.tail ⟨m, (set_other here).trans named⟩)

theorem Below.of_take (below : (links.set d n none).Below a x) : links.Below a x := by
  refine below.mono fun e m w named => ?_
  rcases set_some named with ⟨-, -, same⟩ | ⟨-, named⟩
  · cases same
  · exact named

/-- What is reached after a leaf is taken away. -/
theorem Forest.below_take (forest : Forest links root) (named : links d n = some v) (leaf : ∀ m, links v m = none) :
    (links.set d n none).Below root x ↔ links.Below root x ∧ x ≠ v := by
  constructor
  · intro below
    refine ⟨below.of_take, ?_⟩
    rintro rfl
    exact forest.unlinked named (below.linked (forest.ne_root ⟨d, n, named⟩))
  · rintro ⟨below, different⟩
    rcases below.set none (d := d) (n := n) (fun w same => by rw [named] at same; cases same; exact leaf) with
      same | reached
    · rw [named] at same
      cases same
      exact absurd rfl different
    · exact reached

/-- What is reached after a new node without entries is put. -/
theorem below_put (unlinked : ¬ links.Linked v) (other : v ≠ root)
    (leaf : ∀ m, links v m = none) (free : links d n = none) :
    (links.set d n (some v)).Below root x ↔ links.Below root x ∨ (x = v ∧ links.Below root d) := by
  have kept {y : V} (below : links.Below root y) : (links.set d n (some v)).Below root y := by
    rcases below.set (some v) (fun w same => by rw [free] at same; cases same) with same | reached
    · rw [free] at same
      cases same
    · exact reached
  constructor
  · intro below
    induction below with
    | refl => exact .inl .refl
    | @tail parent y _ named ih =>
      obtain ⟨m, named⟩ := named
      rcases set_some named with ⟨rfl, -, same⟩ | ⟨-, old⟩
      · cases same
        rcases ih with reached | ⟨rfl, reached⟩
        · exact .inr ⟨rfl, reached⟩
        · exact .inl (absurd (reached.linked other) unlinked)
      · rcases ih with reached | ⟨rfl, -⟩
        · exact .inl (reached.tail ⟨m, old⟩)
        · rw [leaf] at old
          cases old
  · rintro (below | ⟨rfl, below⟩)
    · exact kept below
    · exact (kept below).tail ⟨n, set_same⟩

/-- A tree stays one under a new entry of a reached directory. -/
theorem Tree.put (tree : Tree links root) (unlinked : ¬ links.Linked v) (other : v ≠ root) (leaf : ∀ m, links v m = none)
    (free : links d n = none) (live : links.Below root d) : Tree (links.set d n (some v)) root where
  toForest := tree.toForest.put unlinked other
  rooted := by
    rintro x ⟨e, m, named⟩
    rw [below_put unlinked other leaf free]
    rcases set_some named with ⟨rfl, rfl, same⟩ | ⟨-, named⟩
    · cases same
      exact .inr ⟨rfl, live⟩
    · exact .inl (tree.rooted ⟨e, m, named⟩)

/-- An entry in a directory that is not reached leaves no tree. -/
theorem Tree.put_dead (dead : ¬ links.Below root d) (other : v ≠ root) (leaf : ∀ m, links v m = none) (free : links d n = none)
    (unlinked : ¬ links.Linked v) : ¬ Tree (links.set d n (some v)) root := by
  intro tree
  have named : (links.set d n (some v)) d n = some v := set_same
  have reached := tree.live named
  rw [below_put unlinked other leaf free] at reached
  rcases reached with reached | ⟨-, reached⟩ <;> exact dead reached

theorem Tree.take (tree : Tree links root) (leaf : ∀ w, links d n = some w → ∀ m, links w m = none) :
    Tree (links.set d n none) root where
  toForest := tree.toForest.take
  rooted := by
    rintro x ⟨e, m, named⟩
    rcases set_some named with ⟨-, -, same⟩ | ⟨elsewhere, named⟩
    · cases same
    rcases (tree.rooted ⟨e, m, named⟩).set none leaf with same | reached
    · exact absurd (tree.unique named same) elsewhere
    · exact reached

/-! ### Moving a link -/

/-- The links after an entry was moved. -/
def move (links : Links V N) (d : V) (n : N) (e : V) (m : N) (v : V) : Links V N := (links.set d n none).set e m (some v)

/-- An entry after the move is the moved one, or an old one that was neither moved nor replaced. -/
theorem move_some {c : V} {k : N} (named : links.move d n e m v c k = some x) :
    (c = e ∧ k = m ∧ x = v) ∨ (¬ (c = e ∧ k = m) ∧ ¬ (c = d ∧ k = n) ∧ links c k = some x) := by
  rcases set_some named with ⟨rfl, rfl, same⟩ | ⟨elsewhere, named⟩
  · exact .inl ⟨rfl, rfl, (Option.some.inj same).symm⟩
  · rcases set_some named with ⟨-, -, same⟩ | ⟨other, named⟩
    · cases same
    · exact .inr ⟨elsewhere, other, named⟩

theorem move_other {c : V} {k : N} (elsewhere : ¬ (c = e ∧ k = m)) (other : ¬ (c = d ∧ k = n)) :
    links.move d n e m v c k = links c k := (set_other elsewhere).trans (set_other other)

theorem Forest.move (forest : Forest links root) (named : links d n = some v) : Forest (links.move d n e m v) root :=
  forest.take.put (forest.unlinked named) (forest.ne_root ⟨d, n, named⟩)

/-- A node that is moved below itself is lost, with everything below it. -/
theorem Forest.lost (forest : Forest links root) (named : links d n = some v) (inside : links.Below v e) (below : links.Below v x) :
    ¬ (links.move d n e m v).Below root x := by
  intro reached
  induction reached with
  | refl => exact forest.rootless (below.linked fun same => forest.ne_root ⟨d, n, named⟩ same.symm)
  | tail _ link ih =>
    obtain ⟨k, link⟩ := link
    rcases move_some link with ⟨rfl, -, -⟩ | ⟨-, other, old⟩
    · exact ih inside
    · rcases forest.below_cases below old with rfl | below
      · exact other (forest.unique old named)
      · exact ih below

/-- Outside the moved node everything is reached as before, but the entry replaced. -/
theorem Below.outside (named : links d n = some v) (leaf : ∀ w, links e m = some w → ∀ k, links w k = none)
    (below : links.Below a x) (outside : ¬ links.Below v x) : links e m = some x ∨ (links.move d n e m v).Below a x := by
  induction below with
  | refl => exact .inr .refl
  | @tail parent y reached link ih =>
    have outside' : ¬ links.Below v parent := fun inside => outside (inside.tail link)
    obtain ⟨k, link⟩ := link
    rcases ih outside' with replaced | reached'
    · rw [leaf _ replaced] at link
      cases link
    by_cases here : parent = e ∧ k = m
    · obtain ⟨rfl, rfl⟩ := here
      exact .inl link
    · refine .inr (reached'.tail ⟨k, (move_other here ?_).trans link⟩)
      rintro ⟨rfl, rfl⟩
      rw [named] at link
      cases link
      exact outside .refl

/-- Inside the moved node everything is reached from it as before. -/
theorem Below.inside (named : links d n = some v) (leaf : ∀ w, links e m = some w → ∀ k, links w k = none)
    (below : links.Below v x) : links e m = some x ∨ (links.move d n e m v).Below v x := by
  induction below with
  | refl => exact .inr .refl
  | @tail parent y reached link ih =>
    obtain ⟨k, link⟩ := link
    rcases ih with replaced | reached'
    · rw [leaf _ replaced] at link
      cases link
    by_cases here : parent = e ∧ k = m
    · obtain ⟨rfl, rfl⟩ := here
      exact .inl link
    · by_cases back : parent = d ∧ k = n
      · obtain ⟨rfl, rfl⟩ := back
        rw [named] at link
        cases link
        exact .inr .refl
      · exact .inr (reached'.tail ⟨k, (move_other here back).trans link⟩)

omit [DecidableEq V] [DecidableEq N] in
theorem concat_beyond (names : List N) (n : N) : ¬ names ++ [n] <+: names := by
  intro short
  have lengths := short.length_le
  rw [List.length_append] at lengths
  exact Nat.not_succ_le_self _ lengths

section
variable {front back names : List N} (forest : Forest links root) (named : links d n = some v) (source : links.walk root front = some d)
  (target : links.walk root back = some e)
include forest source target

/-- Paths that go neither through the old entry nor through the new one. -/
theorem Forest.walk_move_other (notOld : ¬ front ++ [n] <+: names) (notNew : ¬ back ++ [m] <+: names) :
    (links.move d n e m v).walk root names = links.walk root names := by
  induction names using List.reverseRecOn with
  | nil => rfl
  | append_singleton names k ih =>
    rw [walk_concat, walk_concat, ih (fun short => notOld (short.trans (List.prefix_append ..)))
      (fun short => notNew (short.trans (List.prefix_append ..)))]
    cases reached : links.walk root names with
    | none => rfl
    | some c =>
      refine move_other ?_ ?_
      · rintro ⟨rfl, rfl⟩
        exact notNew (by rw [forest.walk_unique reached target])
      · rintro ⟨rfl, rfl⟩
        exact notOld (by rw [forest.walk_unique reached source])

include named

/-- Inside the moved node every path leads where it did. -/
theorem Forest.walk_move_inside (outside : ¬ front ++ [n] <+: back) (below : links.Below v x) :
    (links.move d n e m v).walk x names = links.walk x names := by
  have found : links.walk root (front ++ [n]) = some v := by rw [walk_concat, source]; exact named
  induction names generalizing x with
  | nil => rfl
  | cons k names ih =>
    have same : links.move d n e m v x k = links x k := by
      refine move_other ?_ ?_
      · rintro ⟨rfl, -⟩
        exact outside ((forest.below_iff_prefix found target).mp below)
      · rintro ⟨rfl, -⟩
        exact concat_beyond front n ((forest.below_iff_prefix found source).mp below)
    rw [walk, walk, same]
    cases link : links x k with
    | none => rfl
    | some next => exact ih (below.tail ⟨k, link⟩)

/-- The moved node is at its new place, with everything inside. -/
theorem Forest.walk_move_new (outside : ¬ front ++ [n] <+: back) :
    (links.move d n e m v).walk root (back ++ [m] ++ names) = links.walk root (front ++ [n] ++ names) := by
  have old : links.walk root (front ++ [n]) = some v := by
    rw [walk_concat, source]
    exact named
  have new : (links.move d n e m v).walk root (back ++ [m]) = some v := by
    rw [walk_concat, forest.walk_move_other source target outside (concat_beyond back m), target]
    exact set_same
  rw [walk_append, new, walk_append, old]
  exact forest.walk_move_inside named source target outside .refl

/-- Nothing is at the old place, if nothing was below what was replaced. -/
theorem Forest.walk_move_old (leaf : ∀ w, links e m = some w → ∀ k, links w k = none) (apart : ¬ front ++ [n] <+: back ++ [m]) :
    (links.move d n e m v).walk root (front ++ [n] ++ names) = none := by
  have elsewhere : ¬ (d = e ∧ n = m) := by
    rintro ⟨rfl, rfl⟩
    exact apart (by rw [forest.walk_unique source target])
  have aside : ¬ back ++ [m] <+: front := by
    rintro ⟨rest, split⟩
    rw [← split, walk_append, walk_concat, target, Option.bind_some] at source
    obtain ⟨w, replaced, onward⟩ := Option.bind_eq_some_iff.mp source
    cases rest with
    | nil =>
      cases onward
      rw [leaf _ replaced n] at named
      cases named
    | cons k rest =>
      rw [walk, leaf w replaced k] at onward
      cases onward
  have gone : links.move d n e m v d n = none := (set_other elsewhere).trans set_same
  rw [walk_append, walk_concat, forest.walk_move_other source target (concat_beyond front n) aside, source, Option.bind_some, gone]
  rfl

end

/-- What is reached after a move to a reached directory outside the moved node. -/
theorem Forest.below_move (forest : Forest links root) (named : links d n = some v) (elsewhere : ¬ (e = d ∧ m = n))
    (leaf : ∀ w, links e m = some w → ∀ k, links w k = none) (live : links.Below root e) (outside : ¬ links.Below v e)
    (reached : links.Below root v) :
    (links.move d n e m v).Below root x ↔ links.Below root x ∧ links e m ≠ some x := by
  constructor
  · intro below
    constructor
    · clear outside
      induction below with
      | refl => exact .refl
      | tail _ link ih =>
        obtain ⟨k, link⟩ := link
        rcases move_some link with ⟨-, -, rfl⟩ | ⟨-, -, link⟩
        · exact reached
        · exact ih.tail ⟨k, link⟩
    -- What the move replaces has lost its only link.
    · intro replaced
      obtain ⟨c, k, link⟩ := below.linked (forest.ne_root ⟨e, m, replaced⟩)
      rcases move_some link with ⟨-, -, rfl⟩ | ⟨other, -, link⟩
      · exact elsewhere (forest.unique replaced named)
      · exact other (forest.unique link replaced)
  · rintro ⟨below, kept⟩
    have target : (links.move d n e m v).Below root e := by
      rcases live.outside named leaf outside with replaced | reached
      · rw [leaf e replaced] at replaced
        cases replaced
      · exact reached
    -- Below what is moved, the way leads through its new place. Everything else keeps its way.
    by_cases inside : links.Below v x
    · rcases inside.inside named leaf with replaced | onward
      · exact absurd replaced kept
      · exact (target.tail ⟨m, set_same⟩).trans onward
    · rcases below.outside named leaf inside with replaced | reached
      · exact absurd replaced kept
      · exact reached

theorem Tree.move (tree : Tree links root) (named : links d n = some v) (elsewhere : ¬ (e = d ∧ m = n))
    (leaf : ∀ w, links e m = some w → ∀ k, links w k = none) (live : links.Below root e) (outside : ¬ links.Below v e) :
    Tree (links.move d n e m v) root where
  toForest := tree.toForest.move named
  rooted := by
    rintro x ⟨c, k, link⟩
    have reached := tree.rooted ⟨d, n, named⟩
    rw [tree.below_move named elsewhere leaf live outside reached]
    rcases move_some link with ⟨rfl, rfl, rfl⟩ | ⟨other, -, link⟩
    · exact ⟨reached, fun replaced => elsewhere (tree.unique replaced named)⟩
    · exact ⟨tree.rooted ⟨c, k, link⟩, fun replaced => other (tree.unique link replaced)⟩

/-- A node that is moved below itself leaves no tree. -/
theorem Forest.move_inside (forest : Forest links root) (named : links d n = some v) (inside : links.Below v e) :
    ¬ Tree (links.move d n e m v) root := fun tree =>
  forest.lost named inside .refl (tree.rooted ⟨e, m, set_same⟩)

end
end Links
end MonakaFs
