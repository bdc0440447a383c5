import MonakaFs.FsCore.Runs

/-! When removed inodes leave nothing behind.

No operation takes an inode out of the table. An inode that loses its entry is
accounted for only as long as a descriptor is open on it.
-/

set_option autoImplicit false

namespace MonakaFs.FsCore

open Fs

section
variable {T : Type} {fs later : Fs T} {fd : Fd} {id d e v w x : InodeId} {name newName : String} {flags : Nat}

def Held (fs : Fs T) (id : InodeId) : Prop := ∃ fd, fs.holder fd = some id

/-- Every inode in the table has a path or an open descriptor. -/
def Reclaimed (fs : Fs T) : Prop := ∀ id, (fs.kind id).isSome → fs.links.Below fs.rootInode id ∨ Held fs id

/-- The number of the next descriptor is not in use. -/
def Vacant (fs : Fs T) : Prop := fs.holder fs.nextFd = none

/-- There are numbers left for the inodes and the descriptor that a call may create. -/
def Spacious (call : Call) (fs : Fs T) : Prop := Room call fs ∧ Vacant fs

/-- What the call takes from the tree, or lets go, has a path or a descriptor. -/
def Spares : Call → Fs T → Prop
  | .openAt dirFd path flags, fs =>
      flags &&& O_CREAT ≠ 0 → flags &&& O_TRUNC ≠ 0 → accessMode flags = O_RDONLY →
        ∀ dir d name, Reaches fs dirFd path dir d name → fs.links d name = none → fs.links.Below fs.rootInode d
  | .close fd, fs => ∀ id, fs.holder fd = some id → fs.links.Below fs.rootInode id ∨ ∃ other, other ≠ fd ∧ fs.holder other = some id
  | .unlink path, fs => ∀ v, fs.resolve path = some v → fs.kind v = some false → Held fs v
  | .rmdir path, fs =>
      ∀ v, fs.resolve path = some v → v ≠ fs.rootInode → fs.kind v = some true → (∀ m, fs.links v m = none) → Held fs v
  | .rename oldPath newPath, fs => ∀ d name e newName v, Renames fs oldPath newPath d name e newName v →
      -- a directory that is moved below itself takes everything in it along
      (components oldPath <+: (components newPath).dropLast → ∀ x, fs.links.Below v x → Held fs x) ∧
        (¬ components oldPath <+: (components newPath).dropLast → ∀ w, fs.links e newName = some w → Held fs w)
  | _, _ => True

/-! ### Each effect -/

theorem Held.opened (vacant : Vacant fs) {target : Option InodeId}
    (held : later.holder = Function.update fs.holder fs.nextFd target) (before : Held fs id) : Held later id := by
  obtain ⟨fd, open'⟩ := before
  refine ⟨fd, ?_⟩
  rw [held, Function.update_of_ne]
  · exact open'
  · rintro rfl
    rw [vacant] at open'
    cases open'

theorem reclaimed_of_same (reclaimed : Reclaimed fs) (same : Same fs later) (held : ∀ id, Held fs id → Held later id) :
    Reclaimed later := by
  intro id there
  rw [same.kind] at there
  rw [same.links, same.root]
  exact (reclaimed id there).imp_right (held id)

/-- A new inode without a descriptor has to have a path. -/
theorem reclaimed_of_created {dir : Bool} (sane : Sane fs) (reclaimed : Reclaimed fs) (made : Created d name dir fs later) :
    Reclaimed later ↔ fs.links.Below fs.rootInode d := by
  have unheld : ¬ Held fs fs.nextInode := by
    rintro ⟨fd, open'⟩
    have there := sane.opened fd _ open'
    rw [sane.unused] at there
    cases there
  have unreached : ¬ fs.links.Below fs.rootInode fs.nextInode := fun below => sane.unlinked (below.linked sane.ne_root)
  constructor
  · intro after
    rcases after fs.nextInode (by rw [made.kind, Function.update_self]; rfl) with below | ⟨fd, open'⟩
    · rcases (made.below sane).mp below with below | ⟨-, live⟩
      · exact absurd below unreached
      · exact live
    · rw [made.holder] at open'
      exact absurd ⟨fd, open'⟩ unheld
  · intro live id there
    rw [made.below sane]
    by_cases new : id = fs.nextInode
    · exact .inl (.inr ⟨new, live⟩)
    · rw [made.kind, Function.update_of_ne new] at there
      refine (reclaimed id there).imp .inl ?_
      rintro ⟨fd, open'⟩
      exact ⟨fd, by rw [made.holder]; exact open'⟩

theorem reclaimed_of_opening (sane : Sane fs) (vacant : Vacant fs) (reclaimed : Reclaimed fs)
    (opening : Opening d name flags fs later) : Reclaimed later ↔ (flags &&& O_CREAT ≠ 0 → flags &&& O_TRUNC ≠ 0 →
      accessMode flags = O_RDONLY → fs.links d name = none → fs.links.Below fs.rootInode d) := by
  cases opening with
  | refused uncreated same held =>
    constructor
    · intro _ creates _ _ free
      exact absurd (uncreated free) creates
    · intro _
      refine reclaimed_of_same reclaimed same ?_
      rintro id ⟨fd, open'⟩
      exact ⟨fd, by rw [held]; exact open'⟩
  | opened named same held =>
    constructor
    · intro _ _ _ _ free
      rw [named] at free
      cases free
    · intro _
      exact reclaimed_of_same reclaimed same fun id before => before.opened vacant held
  -- The file is created, but not opened.
  | left creates reader made =>
    rw [reclaimed_of_created sane reclaimed made]
    constructor
    · intro live _ _ _ _
      exact live
    · intro live
      exact live creates reader.1 reader.2 made.free
  -- The file is created, and held by its descriptor.
  | created creates writer made same held =>
    constructor
    · intro _ _ truncates readOnly _
      exact absurd ⟨truncates, readOnly⟩ writer
    · intro _ id there
      rw [same.kind, made.kind] at there
      by_cases new : id = fs.nextInode
      · refine .inr ⟨fs.nextFd, ?_⟩
        rw [held, Function.update_self, new]
      · rw [Function.update_of_ne new] at there
        rw [same.links, same.root, made.below sane]
        exact (reclaimed id there).imp .inl fun before => before.opened vacant held

theorem reclaimed_of_closed (sane : Sane fs) (reclaimed : Reclaimed fs) (same : Same fs later)
    (held : later.holder = Function.update fs.holder fd none) : Reclaimed later ↔
      ∀ id, fs.holder fd = some id → fs.links.Below fs.rootInode id ∨ ∃ other, other ≠ fd ∧ fs.holder other = some id := by
  have left (id : InodeId) : Held later id ↔ ∃ other, other ≠ fd ∧ fs.holder other = some id := by
    refine exists_congr fun other => ?_
    rw [held, Function.update_apply]
    split
    · next here => simp [here]
    · next other => simp [other]
  constructor
  · intro after id open'
    have there := after id (by rw [same.kind]; exact sane.opened fd id open')
    rw [same.links, same.root, left] at there
    exact there
  · intro spared id there
    rw [same.kind] at there
    rw [same.links, same.root, left]
    rcases reclaimed id there with below | ⟨other, open'⟩
    · exact .inl below
    · by_cases here : other = fd
      · subst here
        exact spared id open'
      · exact .inr ⟨other, here, open'⟩

/-- The removed inode stays, so it has to be held. -/
theorem reclaimed_of_removed (sane : Sane fs) (reclaimed : Reclaimed fs) (gone : Removed d name v fs later) :
    Reclaimed later ↔ Held fs v := by
  have below {x : InodeId} : later.links.Below later.rootInode x ↔ fs.links.Below fs.rootInode x ∧ x ≠ v := by
    rw [gone.links, gone.root]
    exact sane.forest.below_take gone.named gone.leaf
  have held {x : InodeId} : Held later x ↔ Held fs x := by rw [Held, Held, gone.holder]
  constructor
  · intro after
    rcases after v (by rw [gone.kind]; exact sane.named d name v gone.named) with reached | open'
    · exact absurd rfl (below.mp reached).2
    · exact held.mp open'
  · intro spared id there
    rw [gone.kind] at there
    rw [below, held]
    by_cases removed : id = v
    · exact .inr (removed ▸ spared)
    · exact (reclaimed id there).imp_left fun reached => ⟨reached, removed⟩

theorem there_of_below (sane : Sane fs) (there : (fs.kind v).isSome) (below : fs.links.Below v x) : (fs.kind x).isSome := by
  by_cases same : x = v
  · exact same ▸ there
  · obtain ⟨d, n, named⟩ := below.linked same
    exact sane.named d n x named

theorem reclaimed_of_moved_inside (sane : Sane fs) (reclaimed : Reclaimed fs) (inside : fs.links.Below v e)
    (moved : Moved d name e newName v fs later) : Reclaimed later ↔ ∀ x, fs.links.Below v x → Held fs x := by
  have held {x : InodeId} : Held later x ↔ Held fs x := by rw [Held, Held, moved.holder]
  constructor
  · intro after x below
    have there := there_of_below sane (sane.named d name v moved.named) below
    rw [← moved.kind] at there
    rcases after x there with reached | open'
    · rw [moved.links, moved.root] at reached
      exact absurd reached (sane.forest.lost moved.named inside below)
    · exact held.mp open'
  · intro spared id there
    rw [moved.kind] at there
    rw [held, moved.links, moved.root]
    by_cases below : fs.links.Below v id
    · exact .inr (spared id below)
    · refine (reclaimed id there).imp_left fun reached => ?_
      rcases reached.outside moved.named moved.leaf below with replaced | still
      · exact absurd (inside.tail ⟨newName, replaced⟩) below
      · exact still

theorem reclaimed_of_moved_outside (sane : Sane fs) (reclaimed : Reclaimed fs) (elsewhere : ¬ (e = d ∧ newName = name))
    (live : fs.links.Below fs.rootInode e) (reached : fs.links.Below fs.rootInode v) (outside : ¬ fs.links.Below v e)
    (moved : Moved d name e newName v fs later) : Reclaimed later ↔ ∀ w, fs.links e newName = some w → Held fs w := by
  have held {x : InodeId} : Held later x ↔ Held fs x := by rw [Held, Held, moved.holder]
  have below {x : InodeId} :
      later.links.Below later.rootInode x ↔ fs.links.Below fs.rootInode x ∧ fs.links e newName ≠ some x := by
    rw [moved.links, moved.root]
    exact sane.forest.below_move moved.named elsewhere moved.leaf live outside reached
  constructor
  · intro after w replaced
    rcases after w (by rw [moved.kind]; exact sane.named e newName w replaced) with reached | open'
    · exact absurd replaced (below.mp reached).2
    · exact held.mp open'
  · intro spared id there
    rw [moved.kind] at there
    rw [below, held]
    by_cases replaced : fs.links e newName = some id
    · exact .inr (spared id replaced)
    · exact (reclaimed id there).imp_left fun reached => ⟨reached, replaced⟩

theorem reclaimed_of_grown (grown : Grown fs later) (sane : Sane fs) (reclaimed : Reclaimed fs) : Reclaimed later := by
  induction grown with
  | done => exact reclaimed
  | more live room made _ ih => exact ih (made.sane sane room) ((reclaimed_of_created sane reclaimed made).mpr live)

end

/-! ### One call, and runs -/

section
variable {T : Type} [TimeProvider T] {fs : Fs T}

theorem rename_reclaimed {oldPath newPath : String} (sane : Sane fs) (reclaimed : Reclaimed fs) :
    Reclaimed (fs.rename oldPath newPath).2 ↔ Spares (.rename oldPath newPath) fs := by
  rcases rename_effect oldPath newPath sane with ⟨d, name, e, newName, v, renames, moved⟩ | ⟨refused, same, held⟩
  · by_cases inside : components oldPath <+: (components newPath).dropLast
    · rw [reclaimed_of_moved_inside sane reclaimed ((renames.inside_iff sane).mpr inside) moved]
      constructor
      · intro spared d' name' e' newName' v' again
        obtain ⟨-, -, rfl⟩ := renames.unique again
        exact ⟨fun _ => spared, fun outside => absurd inside outside⟩
      · intro spared
        exact (spared d name e newName v renames).1 inside
    · have outside : ¬ fs.links.Below v e := fun below => inside ((renames.inside_iff sane).mp below)
      rw [reclaimed_of_moved_outside sane reclaimed (renames.elsewhere sane) renames.live renames.reached outside moved]
      constructor
      · intro spared d' name' e' newName' v' again
        obtain ⟨rfl, rfl, -⟩ := renames.unique again
        exact ⟨fun within => absurd within inside, fun _ => spared⟩
      · intro spared
        exact (spared d name e newName v renames).2 inside
  · constructor
    · intro _ d name e newName v renames
      exact absurd renames (refused d name e newName v)
    · intro _
      refine reclaimed_of_same reclaimed same fun id before => ?_
      rw [Held, held]
      exact before

variable [Target]

theorem perform_reclaimed (call : Call) (sane : Sane fs) (spacious : Spacious call fs) (reclaimed : Reclaimed fs) :
    Reclaimed (call.perform fs) ↔ Spares call fs := by
  obtain ⟨room, vacant⟩ := spacious
  have unchanged {later : Fs T} {condition : Prop} (effect : Same fs later ∧ later.holder = fs.holder) (met : condition) :
      Reclaimed later ↔ condition := by
    refine ⟨fun _ => met, fun _ => reclaimed_of_same reclaimed effect.1 fun id open' => ?_⟩
    rw [Held, effect.2]
    exact open'
  cases call with
  | openPathWithFlags path flags =>
    refine ⟨fun _ => trivial, fun _ => ?_⟩
    rcases openPath_effect path flags sane with ⟨d, name, live, opening⟩ | ⟨same, held | held⟩
    · exact (reclaimed_of_opening sane vacant reclaimed opening).mpr fun _ _ _ _ => live
    · exact (unchanged ⟨same, held⟩ trivial).mpr trivial
    · exact reclaimed_of_same reclaimed same fun id before => before.opened vacant held
  | openAt dirFd path flags =>
    rcases openAt_effect dirFd path flags sane with
      ⟨dir, d, name, reaches, opening⟩ | ⟨refused, effect⟩
    -- Both sides are about the same entry, as a path reaches at most one.
    · refine (reclaimed_of_opening sane vacant reclaimed opening).trans
        ⟨fun spared creates truncates readOnly dir' d' name' again free => ?_, fun spared creates truncates readOnly free =>
          spared creates truncates readOnly dir d name reaches free⟩
      obtain ⟨rfl, rfl⟩ := reaches.unique again
      exact spared creates truncates readOnly free
    · exact unchanged effect fun _ _ _ dir d name reaches => absurd reaches (refused dir d name)
  | write fd buf => exact unchanged (writeThrough_effect fs fd _ _ buf) trivial
  | writeAt fd offset buf => exact unchanged (writeThrough_effect fs fd _ _ buf) trivial
  | appendWrite fd buf => exact unchanged (writeThrough_effect fs fd _ _ buf) trivial
  | read fd wanted => exact unchanged (readThrough_effect fs fd _ wanted) trivial
  | readAt fd offset wanted => exact unchanged (readThrough_effect fs fd _ wanted) trivial
  | ftruncate fd size => exact unchanged (ftruncate_effect fs fd size) trivial
  | seek fd offset whence => exact unchanged (seek_effect fs fd offset whence) trivial
  | close fd =>
    obtain ⟨same, held⟩ := close_effect fs fd
    exact reclaimed_of_closed sane reclaimed same held
  | mkdir path =>
    rcases mkdir_effect path sane with ⟨d, name, live, made⟩ | effect
    · exact ⟨fun _ => trivial, fun _ => (reclaimed_of_created sane reclaimed made).mpr live⟩
    · exact unchanged effect trivial
  | mkdirP path => exact ⟨fun _ => trivial, fun _ => reclaimed_of_grown (mkdirP_effect path sane room) sane reclaimed⟩
  | unlink path =>
    rcases unlink_effect path sane with ⟨d, name, v, found, file, gone⟩ | ⟨refused, effect⟩
    · refine (reclaimed_of_removed sane reclaimed gone).trans ⟨fun spared v' found' _ => ?_, fun spared => spared v found file⟩
      cases found.symm.trans found'
      exact spared
    · exact unchanged effect fun v found file => absurd file (refused v found)
  | rmdir path =>
    rcases rmdir_effect path sane with ⟨d, name, v, found, dir, gone⟩ | ⟨refused, effect⟩
    -- The root has no name, so it is never what is removed.
    · have other : v ≠ fs.rootInode := sane.forest.ne_root ⟨d, name, gone.named⟩
      refine (reclaimed_of_removed sane reclaimed gone).trans
        ⟨fun spared v' found' _ _ _ => ?_, fun spared => spared v found other dir gone.leaf⟩
      cases found.symm.trans found'
      exact spared
    · refine unchanged effect fun v found other dir empty => ?_
      obtain ⟨m, w, full⟩ := refused v found other dir
      rw [empty m] at full
      cases full
  | rename oldPath newPath => exact rename_reclaimed sane reclaimed

omit [Target] in
theorem new_reclaimed (clock : T) : Reclaimed (withTimeProvider clock) := by
  intro id there
  refine .inl ?_
  rw [Fs.kind, withTimeProvider] at there
  dsimp only at there
  rw [Table.lookup_insert] at there
  split at there
  · next root => exact root ▸ .refl
  · cases there

theorem always_reclaimed_iff {calls : List Call} (clock : T) (spacious : Along Spacious calls (withTimeProvider clock)) :
    (∀ front, front <+: calls → Reclaimed (after front (withTimeProvider clock))) ↔
      Along Spares calls (withTimeProvider clock) :=
  always_iff (fun call _ spacious sane => perform_sane call sane spacious.1) (fun call _ => perform_reclaimed call)
    (new_sane clock) (new_reclaimed clock) spacious

end

/-- A file that is created, closed and removed. -/
def forgotten : List Call := [.openPathWithFlags "/a" O_CREAT, .close 3, .unlink "/a"]

theorem forgotten_state [Target] : ((after forgotten Fs.new).kind 1).isSome ∧
    ((after forgotten Fs.new).entries 0).map (·.entries) = some [] ∧ (after forgotten Fs.new).fdTable.entries = [] := by
  refine ⟨rfl, rfl, rfl⟩

theorem forgotten_kept : ¬ Reclaimed (@after _ _ .wasm32 forgotten Fs.new) := by
  let _ : Target := .wasm32
  intro reclaimed
  obtain ⟨there, empty, closed⟩ := forgotten_state
  rcases reclaimed 1 there with below | ⟨fd, open'⟩
  · rcases Relation.ReflTransGen.cases_head below with same | ⟨next, ⟨name, link⟩, -⟩
    · cases same
    · obtain ⟨entries, found, none⟩ := Option.map_eq_some_iff.mp empty
      have nothing : (after forgotten Fs.new).links 0 name = .none := by
        rw [links_of_entries found, AList.lookup, none]
        rfl
      cases nothing.symm.trans link
  · rw [holder, AList.lookup, closed] at open'
    cases open'

theorem always_reclaimed_forgotten : (∀ front, front <+: forgotten → Reclaimed (@after _ _ .wasm32 front Fs.new)) ↔
    @Along _ _ .wasm32 Spares forgotten Fs.new :=
  @always_reclaimed_iff MonotonicCounter _ .wasm32 forgotten .new
    ⟨⟨by decide, rfl⟩, ⟨by decide, rfl⟩, ⟨by decide, rfl⟩, trivial⟩

end MonakaFs.FsCore
