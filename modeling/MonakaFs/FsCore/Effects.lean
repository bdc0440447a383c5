import MonakaFs.FsCore.Names

/-! What one operation does to the namespace and to the descriptors.

Reading and writing leave both alone, up to positions and file contents. An open may
create a file and hands out a descriptor, or not; the others put, take away or move
one entry. Everything that is kept by every run is proved from these effects.
-/

set_option autoImplicit false

namespace MonakaFs.FsCore.Fs

variable {T : Type} {fs later : Fs T} {id d e v : InodeId} {name newName : String}

/-- The flag in the metadata agrees with the content. -/
def Typed (fs : Fs T) : Prop := ∀ id inode, fs.inodeTable.lookup id = some inode → inode.metadata.isDir = inode.content.isDir

/-- Inodes and counters are the same. -/
structure Kept (fs later : Fs T) : Prop where
  kind : later.kind = fs.kind
  typed : fs.Typed → later.Typed
  root : later.rootInode = fs.rootInode
  next : later.nextInode = fs.nextInode

structure Same (fs later : Fs T) : Prop extends Kept fs later where
  links : later.links = fs.links

structure Created (d : InodeId) (name : String) (dir : Bool) (fs later : Fs T) : Prop where
  parent : fs.kind d = some true
  free : fs.links d name = none
  links : later.links = fs.links.set d name (some fs.nextInode)
  kind : later.kind = Function.update fs.kind fs.nextInode (some dir)
  typed : fs.Typed → later.Typed
  root : later.rootInode = fs.rootInode
  next : later.nextInode = toU64 (fs.nextInode + 1)
  holder : later.holder = fs.holder

/-- An entry without anything below it was taken away. -/
structure Removed (d : InodeId) (name : String) (v : InodeId) (fs later : Fs T) : Prop extends Kept fs later where
  named : fs.links d name = some v
  leaf : ∀ m, fs.links v m = none
  links : later.links = fs.links.set d name none
  holder : later.holder = fs.holder

/-- An entry was moved, over nothing or over an entry without anything below it. -/
structure Moved (d : InodeId) (name : String) (e : InodeId) (newName : String) (v : InodeId) (fs later : Fs T) : Prop
    extends Kept fs later where
  named : fs.links d name = some v
  target : fs.kind e = some true
  leaf : ∀ w, fs.links e newName = some w → ∀ m, fs.links w m = none
  links : later.links = fs.links.move d name e newName v
  holder : later.holder = fs.holder

/-- What holds of a filesystem in every run, before the inode numbers run out. -/
structure Sane (fs : Fs T) : Prop where
  root : fs.kind fs.rootInode = some true
  named : ∀ d n v, fs.links d n = some v → (fs.kind v).isSome
  typed : fs.Typed
  bounded : ∀ id, (fs.kind id).isSome → id < fs.nextInode
  forest : fs.links.Forest fs.rootInode
  opened : ∀ fd id, fs.holder fd = some id → (fs.kind id).isSome

theorem Kept.refl (fs : Fs T) : Kept fs fs := ⟨rfl, fun typed => typed, rfl, rfl⟩

theorem Same.refl (fs : Fs T) : Same fs fs := ⟨.refl fs, rfl⟩

theorem Kept.trans {last : Fs T} (first : Kept fs later) (second : Kept later last) : Kept fs last where
  kind := second.kind.trans first.kind
  typed typed := second.typed (first.typed typed)
  root := second.root.trans first.root
  next := second.next.trans first.next

theorem Same.trans {last : Fs T} (first : Same fs later) (second : Same later last) : Same fs last where
  toKept := first.toKept.trans second.toKept
  links := second.links.trans first.links

/-- Only inodes count for the namespace. -/
theorem Same.of_table (table : later.inodeTable = fs.inodeTable) (root : later.rootInode = fs.rootInode)
    (next : later.nextInode = fs.nextInode) : Same fs later where
  kind := by funext id; rw [Fs.kind, Fs.kind, table]
  typed typed := by rw [Typed, table]; exact typed
  root := root
  next := next
  links := by funext d name; rw [Fs.links, Fs.links, entries_eq, entries_eq, table]

namespace Sane

variable (sane : Sane fs)
include sane

theorem unused : fs.kind fs.nextInode = none := by
  cases there : fs.kind fs.nextInode with
  | none => rfl
  | some dir => exact absurd (sane.bounded fs.nextInode (by rw [there]; rfl)) (Nat.lt_irrefl _)

theorem unlinked : ¬ fs.links.Linked fs.nextInode := by
  rintro ⟨d, n, named⟩
  have there := sane.named d n _ named
  rw [sane.unused] at there
  cases there

theorem ne_root : fs.nextInode ≠ fs.rootInode := by
  intro same
  have unused := sane.unused
  rw [same, sane.root] at unused
  cases unused

theorem next_leaf (name : String) : fs.links fs.nextInode name = none :=
  links_none (by rw [sane.unused]; exact fun same => by cases same) name

theorem file_ne_root (file : fs.kind v = some false) : v ≠ fs.rootInode := by
  rintro rfl
  rw [sane.root] at file
  cases file

end Sane

/-! ### Invariants after an effect -/

theorem Same.sane (sane : Sane fs) (same : Same fs later) (opened : ∀ fd id, later.holder fd = some id → (later.kind id).isSome) :
    Sane later where
  root := by rw [same.root, same.kind]; exact sane.root
  named := by rw [same.links, same.kind]; exact sane.named
  typed := same.typed sane.typed
  bounded := by rw [same.kind, same.next]; exact sane.bounded
  forest := by rw [same.links, same.root]; exact sane.forest
  opened := opened

theorem Created.sane {dir : Bool} (sane : Sane fs) (made : Created d name dir fs later) (room : fs.nextInode + 1 < 2 ^ 64) :
    Sane later where
  root := by rw [made.root, made.kind, Function.update_of_ne sane.ne_root.symm]; exact sane.root
  named e m v named := by
    rw [made.kind]
    rw [made.links] at named
    rcases Links.set_some named with ⟨-, -, same⟩ | ⟨-, old⟩
    · cases same
      rw [Function.update_self]
      rfl
    · rw [Function.update_apply]
      split
      · rfl
      · exact sane.named e m v old
  typed := made.typed sane.typed
  bounded id there := by
    rw [made.next, toU64, Nat.mod_eq_of_lt room]
    rw [made.kind, Function.update_apply] at there
    split at there
    · next same => rw [same]; exact Nat.lt_succ_self _
    · exact Nat.lt_succ_of_lt (sane.bounded id there)
  forest := by rw [made.links, made.root]; exact sane.forest.put sane.unlinked sane.ne_root
  opened fd id held := by
    rw [made.holder] at held
    rw [made.kind, Function.update_apply]
    split
    · rfl
    · exact sane.opened fd id held

theorem Removed.sane (sane : Sane fs) (gone : Removed d name v fs later) : Sane later where
  root := by rw [gone.root, gone.kind]; exact sane.root
  named e m w named := by
    rw [gone.links] at named
    rw [gone.kind]
    rcases Links.set_some named with ⟨-, -, same⟩ | ⟨-, old⟩
    · cases same
    · exact sane.named e m w old
  typed := gone.typed sane.typed
  bounded := by rw [gone.kind, gone.next]; exact sane.bounded
  forest := by rw [gone.links, gone.root]; exact sane.forest.take
  opened := by rw [gone.holder, gone.kind]; exact sane.opened

theorem Moved.sane (sane : Sane fs) (moved : Moved d name e newName v fs later) : Sane later where
  root := by rw [moved.root, moved.kind]; exact sane.root
  named c m w named := by
    rw [moved.links] at named
    rw [moved.kind]
    rcases Links.move_some named with ⟨-, -, rfl⟩ | ⟨-, -, old⟩
    · exact sane.named d name w moved.named
    · exact sane.named c m w old
  typed := moved.typed sane.typed
  bounded := by rw [moved.kind, moved.next]; exact sane.bounded
  forest := by rw [moved.links, moved.root]; exact sane.forest.move moved.named
  opened := by rw [moved.holder, moved.kind]; exact sane.opened

end MonakaFs.FsCore.Fs
