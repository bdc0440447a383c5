import MonakaFs.FsCore.Locking.Alone
import MonakaFs.FsCore.Tree

/-! Threads that work on the names at once.

Between two sections of an operation another thread may undo what the first one saw: it
may fill a directory that was found empty, or remove the directory that a file is about
to be created in. Where no turn takes from another operation what that one relies on,
and no rename moves a directory below itself, no file and no directory with entries is
lost, in whatever order the threads take their turns.
-/

set_option autoImplicit false

namespace MonakaFs.FsCore

open Async Fs

variable {T U : Type} {fs later : Fs T} {d id v : InodeId} {name : String}

/-- Reached from the root. -/
def Live (fs : Fs T) (id : InodeId) : Prop := fs.links.Below fs.rootInode id

/-- Without entries. -/
def Leaf (fs : Fs T) (id : InodeId) : Prop := ∀ m, fs.links id m = none

/-- Whether the operation puts an entry where its walk ends. -/
def Goal.Puts : Goal → Prop
  | .openEntry flags => flags &&& O_CREAT ≠ 0
  | .mkdir => True
  | .remove _ => False
  | .renameFrom _ _ => False
  | .renameTo _ _ _ => True

namespace Point

/-- What the sections that come next rely on, and another thread may take away. -/
def Relies (fs : Fs T) : Point → Prop
  | .directory dir path flags => (relativeComponents path).dropLast = [] → flags &&& O_CREAT ≠ 0 → Live fs dir
  | .check goal _ next comps => comps = [] → goal.Puts → Live fs next
  | .lookup flags parent _ => flags &&& O_CREAT ≠ 0 → Live fs parent
  | .create _ parent _ => Live fs parent
  | .createDir parent _ => Live fs parent
  | .pathCheck next comps => comps ≠ [] → Live fs next
  | .pathFind current _ _ => Live fs current
  | .pathCreate current _ _ => Live fs current
  | .inspect .unlink parent name target => ∀ w, fs.links parent name = some w → w = target ∨ fs.kind w = some false
  | .inspect .rmdir parent name target => ∀ w, fs.links parent name = some w → w = target ∨ (fs.kind w = some true ∧ Leaf fs w)
  | .remove .unlink parent name => ∀ w, fs.links parent name = some w → fs.kind w = some false
  | .remove .rmdir parent name => ∀ w, fs.links parent name = some w → fs.kind w = some true ∧ Leaf fs w
  | .dest _ _ _ newParent _ => Live fs newParent
  | .destKind _ _ _ newParent newName found =>
      Live fs newParent ∧ ∀ w, fs.links newParent newName = some w → w = found ∨ Leaf fs w
  | .move _ _ newParent newName => Live fs newParent ∧ ∀ w, fs.links newParent newName = some w → Leaf fs w
  | _ => True

/-- What no thread can take away: an inode stays what it is. -/
def Held (fs : Fs T) : Point → Prop
  | .directory dir _ _ => (fs.kind dir).isSome
  | .check _ _ next _ => (fs.kind next).isSome
  | .kind _ id => (fs.kind id).isSome
  | .truncate _ id => (fs.kind id).isSome
  | .allocate _ id => (fs.kind id).isSome
  | .insert _ _ id => (fs.kind id).isSome
  | .dest _ _ _ newParent _ => fs.kind newParent = some true
  | .destKind _ _ _ newParent _ _ => fs.kind newParent = some true
  | .move _ _ newParent _ => fs.kind newParent = some true
  | _ => True

/-- What an operation has to look after itself: a descriptor is not of a removed directory, no
directory is moved below itself, and there are inode numbers left. -/
def Fair (fs : Fs T) : Point → Prop
  | .present dir path flags => (relativeComponents path).dropLast = [] → flags &&& O_CREAT ≠ 0 → Live fs dir
  | .create _ _ _ => fs.nextInode + 1 < 2 ^ 64
  | .createDir _ _ => fs.nextInode + 1 < 2 ^ 64
  | .pathCreate _ _ _ => fs.nextInode + 1 < 2 ^ 64
  | .move oldParent oldName newParent _ => ∀ v, fs.links oldParent oldName = some v → ¬ fs.links.Below v newParent
  | _ => True

/-- An unlink or a rename takes this inode out of the directory it was in. -/
def Takes (fs : Fs T) (v : InodeId) : Point → Prop
  | .remove .unlink parent name => fs.links parent name = some v
  | .move oldParent oldName newParent newName => fs.links newParent newName = some v ∧ (fs.links oldParent oldName).isSome
  | _ => False

end Point

/-! ### What a section changes -/

/-- The namespace stays, or one entry is put, taken away or moved. -/
inductive Change (fs later : Fs T) : Point → Prop where
  | same {point : Point} (same : Same fs later) : Change fs later point
  | created {point : Point} {d : InodeId} {name : String} {dir : Bool} (live : Live fs d) (room : fs.nextInode + 1 < 2 ^ 64)
      (made : Created d name dir fs later) : Change fs later point
  | removed {removal : Removal} {d : InodeId} {name : String} {v : InodeId} (kind : removal = .rmdir → fs.kind v = some true)
      (gone : Removed d name v fs later) : Change fs later (.remove removal d name)
  | moved {d : InodeId} {name : String} {e : InodeId} {newName : String} {v : InodeId} (live : Live fs e)
      (elsewhere : ¬ (e = d ∧ newName = name)) (outside : ¬ fs.links.Below v e) (moved : Moved d name e newName v fs later) :
      Change fs later (.move d name e newName)

namespace Change

variable {point : Point} (change : Change fs later point)
include change

theorem root : later.rootInode = fs.rootInode := by
  cases change with
  | same same => exact same.root
  | created _ _ made => exact made.root
  | removed _ gone => exact gone.root
  | moved _ _ _ moved => exact moved.root

theorem kind_kept (sane : Sane fs) {dir : Bool} (kind : fs.kind id = some dir) : later.kind id = some dir := by
  cases change with
  | same same => rw [same.kind]; exact kind
  | removed _ gone => rw [gone.kind]; exact kind
  | moved _ _ _ moved => rw [moved.kind]; exact kind
  | created _ _ made =>
    rw [made.kind, Function.update_of_ne]
    · exact kind
    · rintro rfl
      rw [sane.unused] at kind
      cases kind

theorem there_kept (sane : Sane fs) (there : (fs.kind id).isSome) : (later.kind id).isSome := by
  obtain ⟨dir, kind⟩ := Option.isSome_iff_exists.mp there
  rw [change.kind_kept sane kind]
  rfl

theorem held_kept (sane : Sane fs) {other : Point} (held : other.Held fs) : other.Held later := by
  cases other with
  | directory | check | kind | truncate | allocate | insert => exact change.there_kept sane held
  | dest | destKind | move => exact change.kind_kept sane held
  | _ => trivial

theorem sane (sane : Sane fs) (opened : ∀ fd id, later.holder fd = some id → (later.kind id).isSome) : Sane later := by
  cases change with
  | same same => exact same.sane sane opened
  | created _ room made => exact made.sane sane room
  | removed _ gone => exact gone.sane sane
  | moved _ _ _ moved => exact moved.sane sane

theorem isTree (sane : Sane fs) (tree : IsTree fs) : IsTree later := by
  cases change with
  | same same => exact (isTree_of_same same).mpr tree
  | created live room made => exact (isTree_of_created sane tree room made).mpr live
  | removed _ gone => exact isTree_of_removed sane tree gone
  | moved live elsewhere outside moved => exact (isTree_of_moved sane tree live elsewhere moved).mpr outside

/-- What was reached is reached, but for a leaf that was taken out. -/
theorem live_kept (sane : Sane fs) (tree : IsTree fs) (live : Live fs v) :
    Live later v ∨ (Leaf fs v ∧ (fs.kind v = some false → point.Takes fs v)) := by
  cases change with
  | same same =>
    rw [Live, same.links, same.root]
    exact .inl live
  | created _ _ made =>
    exact .inl ((made.below sane).mpr (.inl live))
  | @removed removal d name w kind gone =>
    rw [Live, gone.links, gone.root, sane.forest.below_take gone.named gone.leaf]
    by_cases same : v = w
    · subst same
      refine .inr ⟨gone.leaf, fun file => ?_⟩
      cases removal with
      | unlink => exact gone.named
      | rmdir =>
        rw [kind rfl] at file
        cases file
    · exact .inl ⟨live, same⟩
  | @moved d name e newName w target elsewhere outside moved =>
    have reached := tree.tree.rooted ⟨d, name, moved.named⟩
    rw [Live, moved.links, moved.root, sane.forest.below_move moved.named elsewhere moved.leaf target outside reached]
    by_cases replaced : fs.links e newName = some v
    · exact .inr ⟨moved.leaf v replaced, fun _ => ⟨replaced, by rw [moved.named]; rfl⟩⟩
    · exact .inl ⟨live, replaced⟩

end Change

/-! ### Every section -/

section
variable [TimeProvider T]

/-- Taking away what is not there changes no name. -/
theorem removeEntry_nothing (free : fs.links d name = none) :
    Same fs (fs.removeEntry d name).2 ∧ (fs.removeEntry d name).2.holder = fs.holder := by
  by_cases dir : fs.kind d = some true
  · obtain ⟨metadata, entries, stored, found⟩ := stored_dir dir
    have gone := relink (fs.removeEntry d name).2 (AList.erase name entries) stored rfl
      (by simp only [removeEntry, stored]; rfl) (by simp [removeEntry, stored, update]) (by simp [removeEntry, stored, update])
    rw [update_set found fun m => Table.lookup_erase name m entries] at gone
    refine ⟨⟨gone.1, ?_⟩, by simp [removeEntry, stored, update, holder, funext_iff]⟩
    rw [gone.2]
    funext e m
    by_cases here : e = d ∧ m = name
    · obtain ⟨rfl, rfl⟩ := here
      rw [Links.set_same, free]
    · exact Links.set_other here
  · have nothing : (fs.removeEntry d name).2 = fs := by
      unfold removeEntry
      cases stored : fs.inodeTable.lookup d with
      | none => rfl
      | some parent =>
        obtain ⟨metadata, content⟩ := parent
        cases content with
        | file storage => rfl
        | dir entries => exact absurd (by rw [Fs.kind, stored]; rfl) dir
    rw [nothing]
    exact ⟨.refl fs, rfl⟩

theorem moveEntry_nothing {e : InodeId} {newName : String} (free : fs.links d name = none) :
    Same fs (fs.moveEntry d name e newName).2 ∧ (fs.moveEntry d name e newName).2.holder = fs.holder := by
  have nothing : (fs.moveEntry d name e newName).2 = { fs with timeProvider := (TimeProvider.now fs.timeProvider).2 } := by
    unfold moveEntry
    dsimp only
    cases stored : fs.inodeTable.lookup d with
    | none => rfl
    | some parent =>
      obtain ⟨metadata, content⟩ := parent
      cases content with
      | file storage => rfl
      | dir entries =>
        have found : fs.entries d = some entries := by rw [entries_eq, stored]; rfl
        rw [links_of_entries found] at free
        simp only [free]
  rw [nothing]
  exact ⟨.of_table rfl rfl rfl, rfl⟩

omit [TimeProvider T] in
/-- An entry that is moved to itself stays. -/
theorem Fs.Moved.still {v : InodeId} (moved : Moved d name d name v fs later) : Same fs later := by
  refine ⟨moved.toKept, ?_⟩
  rw [moved.links]
  funext e m
  by_cases here : e = d ∧ m = name
  · obtain ⟨rfl, rfl⟩ := here
    rw [moved.named]
    exact Links.set_same
  · exact Links.move_other here here

theorem clear_effect (fs : Fs T) (id : InodeId) : Same fs (fs.clear id) ∧ (fs.clear id).holder = fs.holder := by
  unfold clear
  cases stored : fs.inodeTable.lookup id with
  | none => exact ⟨.refl fs, rfl⟩
  | some inode =>
    obtain ⟨metadata, content⟩ := inode
    cases content with
    | dir entries => exact ⟨.refl fs, rfl⟩
    | file storage => exact update_effect stored rfl _ _

/-- A creation that succeeds put a new inode; one that fails changed nothing. -/
theorem createInode_change (dir : Bool) (sane : Sane fs) (d : InodeId) (name : String) :
    (∃ later, fs.createInode d name dir = (.ok fs.nextInode, later) ∧ Created d name dir fs later) ∨
      ∃ e, fs.createInode d name dir = (.error e, fs) := by
  rcases createInode_cases fs d name dir with failed | ⟨metadata, entries, stored, free⟩
  · exact .inr failed
  · have found : fs.entries d = some entries := by rw [entries_eq, stored]; rfl
    obtain ⟨later, result, made, -⟩ := createInode_free dir sane (kind_dir.mpr ⟨entries, found⟩)
      (by rw [links_of_entries found, free])
    exact .inl ⟨later, result, made⟩

/-- A section that changes nothing. -/
def Point.Looks : Point → Prop
  | .create _ _ _ => False
  | .truncate _ _ => False
  | .allocate _ _ => False
  | .insert _ _ _ => False
  | .createDir _ _ => False
  | .pathCreate _ _ _ => False
  | .remove _ _ _ => False
  | .move _ _ _ _ => False
  | _ => True

theorem step_looks {point : Point} (looks : point.Looks) (fs : Fs T) : (point.step fs).2 = fs := by
  cases point with
  | done | sourceKind => rfl
  | directory | lookup => rw [Point.step]; split; rfl; split <;> rfl
  | inspect removal =>
    cases removal with
    | unlink => rw [Point.step]; split <;> rfl
    | rmdir => rw [Point.step]; split; rfl; split <;> rfl
  | create | truncate | allocate | insert | createDir | pathCreate | remove | move => exact looks.elim
  | _ => rw [Point.step]; split <;> rfl

theorem creation_change {point : Point} (dir : Bool) (sane : Sane fs) (live : Live fs d) (room : fs.nextInode + 1 < 2 ^ 64)
    (name : String) : Change fs (fs.createInode d name dir).2 point ∧ (fs.createInode d name dir).2.holder = fs.holder := by
  rcases createInode_change dir sane d name with ⟨later, result, made⟩ | ⟨e, result⟩
  · rw [result]
    exact ⟨.created live room made, made.holder⟩
  · rw [result]
    exact ⟨.same (.refl fs), rfl⟩

theorem create_state (flags : Nat) (d : InodeId) (name : String) (fs : Fs T) :
    ((Point.create flags d name).step fs).2 = (fs.createInode d name false).2 := by
  rw [Point.step]
  rcases fs.createInode d name false with ⟨answer, later⟩
  cases answer with
  | ok v => rfl
  | error e => dsimp only; split <;> rfl

theorem createDir_state (d : InodeId) (name : String) (fs : Fs T) :
    ((Point.createDir d name).step fs).2 = (fs.createInode d name true).2 := by
  rw [Point.step]
  rcases fs.createInode d name true with ⟨answer, later⟩
  cases answer <;> rfl

theorem pathCreate_state (d : InodeId) (comp : String) (comps : List String) (fs : Fs T) :
    ((Point.pathCreate d comp comps).step fs).2 = (fs.createInode d comp true).2 := by
  rw [Point.step]
  rcases fs.createInode d comp true with ⟨answer, later⟩
  cases answer with
  | ok v => rfl
  | error e => cases e <;> rfl

/-- A section changes one entry at most, and the descriptors stay on inodes. -/
theorem step_change {point : Point} (sane : Sane fs) (relies : point.Relies fs) (held : point.Held fs) (fair : point.Fair fs) :
    Change fs (point.step fs).2 point ∧ ∀ fd id, (point.step fs).2.holder fd = some id → (fs.kind id).isSome := by
  have kept {later : Fs T} (same : later.holder = fs.holder) (fd : Fd) (id : InodeId) (found : later.holder fd = some id) :
      (fs.kind id).isSome := by
    rw [same] at found
    exact sane.opened fd id found
  have looked (looks : point.Looks) : Change fs (point.step fs).2 point ∧
      ∀ fd id, (point.step fs).2.holder fd = some id → (fs.kind id).isSome := by
    rw [step_looks looks fs]
    exact ⟨.same (.refl fs), sane.opened⟩
  -- Six points change the tree. All others only look.
  cases point with
  | create flags d name =>
    rw [create_state]
    obtain ⟨change, same⟩ := creation_change false sane relies fair name
    exact ⟨change, kept same⟩
  | createDir d name =>
    rw [createDir_state]
    obtain ⟨change, same⟩ := creation_change true sane relies fair name
    exact ⟨change, kept same⟩
  | pathCreate d comp comps =>
    rw [pathCreate_state]
    obtain ⟨change, same⟩ := creation_change true sane relies fair comp
    exact ⟨change, kept same⟩
  | truncate flags id =>
    obtain ⟨same, holder⟩ := clear_effect fs id
    exact ⟨.same same, kept holder⟩
  | allocate flags id => exact ⟨.same (.of_table rfl rfl rfl), sane.opened⟩
  | insert fd flags id =>
    refine ⟨.same (.of_table rfl rfl rfl), fun other v found => ?_⟩
    rw [Point.step, holder, Table.lookup_insert] at found
    split at found
    · cases found
      exact held
    · exact sane.opened other v found
  | remove removal d name =>
    cases link : fs.links d name with
    | none =>
      obtain ⟨same, holder⟩ := removeEntry_nothing link
      exact ⟨.same same, kept holder⟩
    | some v =>
      cases removal with
      | unlink =>
        have file := relies v link
        have gone := removeEntry_effect link fun m => links_none (by rw [file]; decide) m
        exact ⟨.removed (fun same => by cases same) gone, kept gone.holder⟩
      | rmdir =>
        obtain ⟨dir, leaf⟩ := relies v link
        have gone := removeEntry_effect link leaf
        exact ⟨.removed (fun _ => dir) gone, kept gone.holder⟩
  | move d name e newName =>
    cases link : fs.links d name with
    | none =>
      obtain ⟨same, holder⟩ := moveEntry_nothing link
      exact ⟨.same same, kept holder⟩
    | some v =>
      have moved := moveEntry_effect link held relies.2
      refine ⟨?_, kept moved.holder⟩
      -- A move onto itself changes nothing.
      by_cases here : e = d ∧ newName = name
      · obtain ⟨rfl, rfl⟩ := here
        exact .same moved.still
      · exact .moved relies.1 here (fair v link) moved
  | _ => exact looked trivial

/-! ### What the next point relies on -/

omit [TimeProvider T] in
/-- In a tree what an entry names is reached. -/
theorem IsTree.live (tree : IsTree fs) (found : fs.findInode d name = .ok v) : Live fs v :=
  tree.tree.rooted ⟨d, name, (findInode_ok.mp found).1⟩

omit [TimeProvider T] in
/-- What exists and is not a file is a directory. -/
theorem dir_of_not_file (there : (fs.kind id).isSome) (notFile : ¬ fs.isFile id) : fs.kind id = some true := by
  obtain ⟨dir, kind⟩ := Option.isSome_iff_exists.mp there
  cases dir with
  | true => exact kind
  | false => exact absurd (isFile_iff.mpr kind) notFile

omit [TimeProvider T] in
/-- What a rename may replace has nothing below it. -/
theorem leaf_of_allowed {sourceIsDir : Bool} (sane : Sane fs) (allowed : fs.refuses sourceIsDir id = none) : Leaf fs id := by
  by_cases dir : fs.kind id = some true
  · obtain ⟨entries, found⟩ := kind_dir.mp dir
    rw [Fs.refuses, found, (isDir_iff sane).mpr dir] at allowed
    split at allowed
    · cases allowed
    split at allowed
    · cases allowed
    split at allowed
    · cases allowed
    · next empty =>
      intro m
      rw [links_of_entries found]
      exact Table.keys_eq_nil.mp (by simpa using empty) m
  · exact fun m => links_none dir m

/-- Both, of the point that a section leads to. -/
structure Point.Stands (fs : Fs T) (point : Point) : Prop where
  relies : point.Relies fs
  held : point.Held fs

omit [TimeProvider T] in
theorem Point.Stands.fail (e : FsError) : (Point.fail e).Stands fs := ⟨trivial, trivial⟩

omit [TimeProvider T] in
theorem opened_stands {flags : Nat} (there : (fs.kind id).isSome) : (Point.opened flags id).Stands fs := by
  unfold Point.opened
  split
  · split
    · exact ⟨trivial, trivial⟩
    · exact ⟨trivial, there⟩
  · exact ⟨trivial, there⟩

omit [TimeProvider T] in
theorem walk_stands {goal : Goal} {comps : List String} (dir : fs.kind d = some true)
    (live : comps = [] → goal.Puts → Live fs d) : (goal.walk name d comps).Stands fs := by
  cases comps with
  | cons comp comps => exact ⟨trivial, trivial⟩
  | nil =>
    cases goal with
    | openEntry flags => exact ⟨live rfl, trivial⟩
    | mkdir => exact ⟨live rfl trivial, trivial⟩
    | remove removal => exact ⟨trivial, trivial⟩
    | renameFrom newName newDirs => exact ⟨trivial, trivial⟩
    | renameTo oldParent oldName sourceIsDir => exact ⟨live rfl trivial, dir⟩

omit [TimeProvider T] in
theorem path_stands {comps : List String} (live : comps ≠ [] → Live fs d) : (Point.path d comps).Stands fs := by
  cases comps with
  | nil => exact ⟨trivial, trivial⟩
  | cons comp comps => exact ⟨live (by simp), trivial⟩

theorem step_stands {point : Point} (sane : Sane fs) (tree : IsTree fs) (stands : point.Stands fs) (fair : point.Fair fs) :
    (point.step fs).1.Stands (point.step fs).2 := by
  obtain ⟨relies, held⟩ := stands
  have found_there {d v : InodeId} {name : String} (found : fs.findInode d name = .ok v) : (fs.kind v).isSome :=
    (findInode_ok.mp found).2
  -- Each turn hands on what the next point relies on: a directory reached stays the root
  -- or on a live path, and fairness says the rest.
  cases point with
  | done answer => exact ⟨trivial, trivial⟩
  | root goal name comps =>
    rw [Point.step]
    split
    · exact walk_stands sane.root fun _ _ => .refl
    · exact .fail _
  | handle dirFd path flags =>
    rw [Point.step]
    split
    · exact .fail _
    · exact ⟨trivial, trivial⟩
  | present dir path flags =>
    rw [Point.step]
    split
    · exact .fail _
    · next there =>
      refine ⟨fair, ?_⟩
      rw [Point.Held, kind_some, Option.isSome_iff_ne_none, ne_eq, ← Option.isNone_iff_eq_none]
      exact there
  | directory dir path flags =>
    rw [Point.step]
    split
    · exact .fail _
    · next notFile =>
      split
      · exact .fail _
      · exact walk_stands (dir_of_not_file held notFile) relies
  | find goal name current comp comps =>
    rw [Point.step]
    split
    · exact .fail _
    · next next found => exact ⟨fun _ _ => tree.live found, found_there found⟩
  | check goal name next comps =>
    rw [Point.step]
    split
    · exact .fail _
    · next notFile => exact walk_stands (dir_of_not_file held notFile) relies
  | lookup flags parent name =>
    rw [Point.step]
    split
    · next found => exact ⟨trivial, found_there found⟩
    · split
      · next creates => exact ⟨relies creates.2, trivial⟩
      · exact .fail _
  | create flags d name =>
    rw [Point.step]
    -- Only the name is new, and a file.
    rcases createInode_change false sane d name with ⟨later, result, made⟩ | ⟨e, result⟩
    · rw [result]
      exact ⟨trivial, by rw [Point.Held, made.kind, Function.update_self]; rfl⟩
    · rw [result]
      dsimp only
      split
      · exact ⟨trivial, trivial⟩
      · exact .fail _
  -- Another thread made the entry, which is opened instead.
  | again flags parent name =>
    rw [Point.step]
    split
    · exact .fail _
    · next found => exact ⟨trivial, found_there found⟩
  | kind flags id =>
    rw [Point.step]
    split
    · exact .fail _
    · exact opened_stands held
  | truncate flags id =>
    refine ⟨trivial, ?_⟩
    rw [Point.step, Point.Held, (clear_effect fs id).1.kind]
    exact held
  | allocate flags id => exact ⟨trivial, held⟩
  | insert fd flags id => exact ⟨trivial, trivial⟩
  | createDir d name =>
    rw [Point.step]
    rcases fs.createInode d name true with ⟨answer, later⟩
    cases answer with
    | ok v => exact ⟨trivial, trivial⟩
    | error e => exact .fail _
  | pathRoot comps =>
    rw [Point.step]
    split
    · exact path_stands fun _ => .refl
    · exact .fail _
  | pathFind current comp comps =>
    rw [Point.step]
    split
    · next found => exact ⟨fun _ => tree.live found, trivial⟩
    · exact ⟨relies, trivial⟩
    · exact .fail _
  | pathCheck next comps =>
    rw [Point.step]
    split
    · exact .fail _
    · exact path_stands relies
  | pathCreate current comp comps =>
    rw [Point.step]
    rcases createInode_change true sane current comp with ⟨later, result, made⟩ | ⟨e, result⟩
    · rw [result]
      exact path_stands fun _ => (made.below sane).mpr (.inr ⟨rfl, relies⟩)
    · rw [result]
      cases e with
      | alreadyExists => exact ⟨trivial, trivial⟩
      | _ => exact .fail _
  | pathAgain current comp comps =>
    rw [Point.step]
    split
    · next found => exact path_stands fun _ => tree.live found
    · exact .fail _
  -- The entry found is the one that is removed, if it is still the entry then.
  | victim removal parent name =>
    rw [Point.step]
    split
    · exact .fail _
    · next target found =>
      have named (w : InodeId) (link : fs.links parent name = some w) : w = target :=
        Option.some.inj (link.symm.trans (findInode_ok.mp found).1)
      cases removal with
      | unlink => exact ⟨fun w link => .inl (named w link), trivial⟩
      | rmdir => exact ⟨fun w link => .inl (named w link), trivial⟩
  | inspect removal parent name target =>
    cases removal with
    | unlink =>
      rw [Point.step]
      split
      · next file =>
        refine ⟨fun w link => ?_, trivial⟩
        rcases relies w link with rfl | kind
        · exact isFile_iff.mp file
        · exact kind
      · exact .fail _
    | rmdir =>
      rw [Point.step]
      split
      · exact .fail _
      · next entries inside =>
        split
        · next empty =>
          refine ⟨fun w link => ?_, trivial⟩
          -- What the name stands for now is the directory that was inspected, or another one without entries.
          rcases relies w link with rfl | vacant
          · refine ⟨kind_dir.mpr ⟨entries, inside⟩, fun m => ?_⟩
            rw [links_of_entries inside]
            exact Table.keys_eq_nil.mp empty m
          · exact vacant
        · exact .fail _
  | remove removal d name =>
    rw [Point.step]
    cases (fs.removeEntry d name).1 <;> exact ⟨trivial, trivial⟩
  | source oldParent oldName newName newDirs =>
    rw [Point.step]
    split
    · exact .fail _
    · exact ⟨trivial, trivial⟩
  | sourceKind oldParent oldName found newName newDirs => exact walk_stands sane.root fun _ _ => .refl
  | dest oldParent oldName sourceIsDir newParent newName =>
    rw [Point.step]
    split
    -- The new name was free when it was looked up.
    · next e missing =>
      obtain ⟨-, free⟩ := findInode_error missing held (sane.named newParent newName)
      refine ⟨⟨relies, fun w link => ?_⟩, held⟩
      rw [free] at link
      cases link
    · next dest found =>
      refine ⟨⟨relies, fun w link => .inl ?_⟩, held⟩
      exact Option.some.inj (link.symm.trans (findInode_ok.mp found).1)
  | destKind oldParent oldName sourceIsDir newParent newName found =>
    rw [Point.step]
    split
    · exact .fail _
    · next allowed =>
      refine ⟨⟨relies.1, fun w link => ?_⟩, held⟩
      rcases relies.2 w link with rfl | leaf
      · exact leaf_of_allowed sane allowed
      · exact leaf
  | move d name e newName =>
    rw [Point.step]
    cases (fs.moveEntry d name e newName).1 <;> exact ⟨trivial, trivial⟩

end

/-! ### Threads -/

section
variable [TimeProvider T] [DecidableEq U] {threads : Threads U Point (Fs T)}

/-- A turn that takes from no other operation what that one relies on. -/
def Considerate (turn : Pick U (Fs T)) (threads : Threads U Point (Fs T)) : Prop :=
  match turn with
  | .around _ => False
  | .thread thread => (threads.point thread).Fair threads.shared ∧ ∀ other, other ≠ thread →
      (threads.point other).Relies threads.shared → (threads.point other).Relies (threads.turn Point.step turn).shared

/-- A tree, and every operation has what it relies on. -/
structure Sound (threads : Threads U Point (Fs T)) : Prop where
  sane : Sane threads.shared
  tree : IsTree threads.shared
  stands : ∀ thread, (threads.point thread).Stands threads.shared

theorem turn_change {thread : U} (sound : Sound threads) (considerate : Considerate (.thread thread) threads) :
    Change threads.shared (threads.turn Point.step (.thread thread)).shared (threads.point thread) ∧
      Sound (threads.turn Point.step (.thread thread)) := by
  obtain ⟨relies, held⟩ := sound.stands thread
  obtain ⟨fair, spared⟩ := considerate
  obtain ⟨change, opened⟩ := step_change sound.sane relies held fair
  refine ⟨change, change.sane sound.sane fun fd id found => change.there_kept sound.sane (opened fd id found),
    change.isTree sound.sane sound.tree, fun other => ?_⟩
  by_cases same : other = thread
  · subst same
    rw [turn_own]
    exact step_stands sound.sane sound.tree ⟨relies, held⟩ fair
  · have stood := sound.stands other
    rw [turn_other same]
    exact ⟨spared other same stood.relies, change.held_kept sound.sane stood.held⟩

theorem turn_sound (turn : Pick U (Fs T)) (threads : Threads U Point (Fs T)) (considerate : Considerate turn threads)
    (sound : Sound threads) : Sound (threads.turn Point.step turn) := by
  cases turn with
  | around change => exact considerate.elim
  | thread thread => exact (turn_change sound considerate).2

omit [TimeProvider T] [DecidableEq U] in
theorem begin_stands (sane : Sane fs) (task : Task) : (task.begin fs.rootInode).Stands fs := by
  have begun (goal : Goal) (path : String) : (goal.begin path).Stands fs := by
    unfold Goal.begin
    split
    · exact .fail _
    · split
      · exact .fail _
      · exact ⟨trivial, trivial⟩
  cases task with
  | openPathWithFlags path flags =>
    rw [Task.begin]
    split
    · exact .fail _
    · split
      · exact ⟨trivial, by rw [Point.Held, sane.root]; rfl⟩
      · exact ⟨trivial, trivial⟩
  | openAt dirFd path flags =>
    rw [Task.begin]
    split
    · exact .fail _
    · exact ⟨trivial, trivial⟩
  | mkdir path => exact begun _ path
  | mkdirP path =>
    rw [Task.begin]
    split
    · exact .fail _
    · split <;> exact ⟨trivial, trivial⟩
  | unlink path => exact begun _ path
  | rmdir path => exact begun _ path
  | rename oldPath newPath =>
    rw [Task.begin]
    split
    · exact .fail _
    · split
      · split <;> exact ⟨trivial, trivial⟩
      · exact .fail _

omit [TimeProvider T] [DecidableEq U] in
theorem start_sound {tasks : U → Task} (sane : Sane threads.shared) (tree : IsTree threads.shared)
    (begun : ∀ thread, threads.point thread = (tasks thread).begin threads.shared.rootInode) : Sound threads := by
  refine ⟨sane, tree, fun thread => ?_⟩
  rw [begun]
  exact begin_stands sane (tasks thread)

/-! ### What is not lost -/

/-- The turn is of an operation that takes this inode out of its directory. -/
def Taken (v : InodeId) (turn : Pick U (Fs T)) (threads : Threads U Point (Fs T)) : Prop :=
  ∃ thread, turn = .thread thread ∧ (threads.point thread).Takes threads.shared v

/-- A directory with entries keeps its own entry in every turn, and a file that an open created is
reached until it is unlinked or replaced. -/
structure Lossless (schedule : List (Pick U (Fs T))) (threads : Threads U Point (Fs T)) : Prop where
  full : ∀ front turn back d m w, schedule = front ++ turn :: back → let before := interleave Point.step front threads
    before.shared.links.Linked d → before.shared.links d m = some w → (before.turn Point.step turn).shared.links.Linked d
  created : ∀ front thread middle back flags d name v, schedule = front ++ .thread thread :: (middle ++ back) →
    let before := interleave Point.step front threads
    let after := before.turn Point.step (.thread thread)
    before.point thread = .create flags d name → (before.shared.createInode d name false).1 = .ok v →
    AtEveryTurn Point.step (fun turn threads => ¬ Taken v turn threads) middle after →
    Live (interleave Point.step middle after).shared v

theorem full_kept {turn : Pick U (Fs T)} {m : String} {w : InodeId} (sound : Sound threads) (considerate : Considerate turn threads)
    (linked : threads.shared.links.Linked d) (full : threads.shared.links d m = some w) :
    (threads.turn Point.step turn).shared.links.Linked d := by
  cases turn with
  | around change => exact considerate.elim
  | thread thread =>
    obtain ⟨change, after⟩ := turn_change sound considerate
    have different := sound.sane.forest.ne_root linked
    rcases change.live_kept sound.sane sound.tree (sound.tree.tree.rooted linked) with live | ⟨leaf, -⟩
    · exact live.linked (by rw [change.root]; exact different)
    · rw [leaf m] at full
      cases full

/-- A file that is reached stays so in every turn that does not take it. -/
theorem file_kept {turn : Pick U (Fs T)} (sound : Sound threads) (considerate : Considerate turn threads)
    (file : threads.shared.kind v = some false) (live : Live threads.shared v) (spared : ¬ Taken v turn threads) :
    (threads.turn Point.step turn).shared.kind v = some false ∧ Live (threads.turn Point.step turn).shared v := by
  cases turn with
  | around change => exact considerate.elim
  | thread thread =>
    obtain ⟨change, -⟩ := turn_change sound considerate
    refine ⟨change.kind_kept sound.sane file, ?_⟩
    rcases change.live_kept sound.sane sound.tree live with live | ⟨-, takes⟩
    · exact live
    · exact absurd ⟨thread, rfl, takes file⟩ spared

theorem file_stays {schedule : List (Pick U (Fs T))} (sound : Sound threads) (met : AtEveryTurn Point.step Considerate schedule threads)
    (spared : AtEveryTurn Point.step (fun turn threads => ¬ Taken v turn threads) schedule threads)
    (file : threads.shared.kind v = some false) (live : Live threads.shared v) :
    Live (interleave Point.step schedule threads).shared v := by
  induction schedule generalizing threads with
  | nil => exact live
  | cons turn schedule ih =>
    obtain ⟨file, live⟩ := file_kept sound met.1 file live spared.1
    exact ih (turn_sound turn threads met.1 sound) met.2 spared.2 file live

/-- A file that was just created is reached. -/
theorem created_live {thread : U} {flags : Nat} (sound : Sound threads) (here : threads.point thread = .create flags d name) (made : (threads.shared.createInode d name false).1 = .ok v) :
    (threads.turn Point.step (.thread thread)).shared.kind v = some false ∧
      Live (threads.turn Point.step (.thread thread)).shared v := by
  have live := (sound.stands thread).relies
  rw [here] at live
  have state : (threads.turn Point.step (.thread thread)).shared = (threads.shared.createInode d name false).2 := by
    rw [← create_state flags, ← here]
    rfl
  rw [state]
  rcases createInode_change false sound.sane d name with ⟨later, result, created⟩ | ⟨e, result⟩
  · rw [result] at made ⊢
    cases made
    exact ⟨by rw [created.kind, Function.update_self], (created.below sound.sane).mpr (.inr ⟨rfl, live⟩)⟩
  · rw [result] at made
    cases made

theorem nothing_lost {tasks : U → Task} {schedule : List (Pick U (Fs T))} (sane : Sane threads.shared) (tree : IsTree threads.shared)
    (begun : ∀ thread, threads.point thread = (tasks thread).begin threads.shared.rootInode)
    (met : AtEveryTurn Point.step Considerate schedule threads) : Lossless schedule threads := by
  have sound := start_sound sane tree begun
  constructor
  · rintro front turn back d m w rfl before linked full
    obtain ⟨first, rest⟩ := met.split
    exact full_kept (interleave_keeps turn_sound first sound) rest.1 linked full
  · rintro front thread middle back flags d name v rfl before after here made spared
    obtain ⟨first, turn, rest⟩ := met.split
    have sound := interleave_keeps turn_sound first sound
    obtain ⟨file, live⟩ := created_live sound here made
    exact file_stays (turn_sound _ _ turn sound) rest.split.1 spared file live

end

/-! ### Two threads -/

/-- One thread removes a directory, the other creates a file in it. -/
def meeting : Bool → Task
  | true => .rmdir "/d"
  | false => .openPathWithFlags "/d/f" (O_CREAT ||| O_RDWR)

def met : Threads Bool Point (Fs MonotonicCounter) :=
  ⟨(Fs.new.mkdir "/d").2, fun thread => (meeting thread).begin 0⟩

/-- The directory is found empty, then the file is created, then the directory is removed. -/
def overlap : List Bool := [true, true, true, false, false, false, false, false, true]

/-- The root is empty, and the file is in a directory that nothing names. -/
theorem overlap_directories : ((interleave Point.step (overlap.map .thread) met).shared.inodeTable.entries.map fun inode =>
    (inode.1, inode.2.content.entries.map (·.entries))) = [(0, some []), (2, none), (1, some [⟨"f", 2⟩])] := rfl

theorem overlap_loses : ¬ Lossless (overlap.map .thread) met := by
  intro lossless
  obtain ⟨d, name, named⟩ := lossless.full ([true, true, true, false, false, false, false, false].map .thread) (.thread true) [] 1 "f" 2
    rfl ⟨0, "d", rfl⟩ rfl
  rw [links, entries_eq] at named
  obtain ⟨entries, found, entry⟩ := Option.bind_eq_some_iff.mp named
  obtain ⟨inode, stored, content⟩ := Option.bind_eq_some_iff.mp found
  have listed : (d, some entries.entries) ∈ [(0, some []), (2, none), (1, some [⟨"f", 2⟩])] := by
    rw [← overlap_directories]
    exact List.mem_map.mpr ⟨⟨d, inode⟩, AList.mem_lookup_iff.mp stored, by rw [content]; rfl⟩
  have inside := AList.mem_lookup_iff.mp entry
  simp only [List.mem_cons, Prod.mk.injEq, Option.some.injEq, reduceCtorEq, and_false, List.not_mem_nil, or_false, false_or] at listed
  rcases listed with ⟨-, empty⟩ | ⟨-, single⟩
  · rw [empty] at inside
    cases inside
  · rw [single, List.mem_singleton] at inside
    cases inside

/-- Two threads that create different entries of one directory. -/
def neighbours : Threads Bool Point (Fs MonotonicCounter) :=
  ⟨Fs.new, fun thread => (if thread then .openPathWithFlags "/f" (O_CREAT ||| O_RDWR) else .mkdir "/d" : Task).begin 0⟩

theorem neighbours_lossless : Lossless ([true, false, true, true, false, true].map .thread) neighbours := by
  refine nothing_lost (new_sane MonotonicCounter.new) (new_isTree MonotonicCounter.new) (fun thread => rfl) ⟨⟨trivial, ?_⟩, ⟨trivial, ?_⟩, ⟨trivial, ?_⟩,
    ⟨show 1 + 1 < 2 ^ 64 by decide, ?_⟩, ⟨show 2 + 1 < 2 ^ 64 by decide, ?_⟩, ⟨trivial, ?_⟩, trivial⟩ <;> rintro (_ | _) different _
  all_goals first
    | exact absurd rfl different
    | trivial
    | exact fun _ => .refl
    | exact Relation.ReflTransGen.refl

end MonakaFs.FsCore
