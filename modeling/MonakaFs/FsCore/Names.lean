import MonakaFs.Data.Hierarchy
import MonakaFs.FsCore.Fs

/-! The namespace of a filesystem: which inode a directory names, and what resolves.

The operations look entries up one by one and stop at files. In a filesystem whose
entries all name inodes this is a walk over links.
-/

set_option autoImplicit false

namespace MonakaFs.FsCore

def FileContent.isDir : FileContent → Bool
  | .file _ => false
  | .dir _ => true

def FileContent.entries : FileContent → Option (Table String InodeId)
  | .file _ => none
  | .dir entries => some entries

namespace Fs

variable {T : Type} {fs later : Fs T} {id d v : InodeId} {name : String} {comps : List String}

/-- Whether an inode is a directory; `none` if there is no such inode. -/
def kind (fs : Fs T) (id : InodeId) : Option Bool := (fs.inodeTable.lookup id).map (·.content.isDir)

def links (fs : Fs T) : Links InodeId String := fun d name => (fs.entries d).bind (·.lookup name)

/-- The inode that a path resolves to. -/
def resolve (fs : Fs T) (path : String) : Option InodeId := fs.links.walk fs.rootInode (components path)

/-- The inodes that descriptors are open on. -/
def holder (fs : Fs T) (fd : Fd) : Option InodeId := (fs.fdTable.lookup fd).map (·.inodeId)

theorem entries_eq (fs : Fs T) (id : InodeId) : fs.entries id = (fs.inodeTable.lookup id).bind (·.content.entries) := by
  unfold entries
  congr 1
  funext inode
  cases inode.content <;> rfl

theorem kind_dir : fs.kind id = some true ↔ ∃ entries, fs.entries id = some entries := by
  rw [kind, entries_eq]
  cases fs.inodeTable.lookup id with
  | none => simp
  | some inode =>
    obtain ⟨_, content⟩ := inode
    cases content <;> simp [FileContent.isDir, FileContent.entries]

theorem kind_some : (fs.kind id).isSome = (fs.inodeTable.lookup id).isSome := by
  rw [kind, Option.isSome_map]

theorem isFile_iff : fs.isFile id = true ↔ fs.kind id = some false := by
  rw [kind, isFile]
  cases fs.inodeTable.lookup id with
  | none => simp
  | some inode =>
    obtain ⟨_, content⟩ := inode
    cases content <;> simp [FileContent.isDir]

theorem links_of_entries {entries : Table String InodeId} (found : fs.entries d = some entries) (name : String) :
    fs.links d name = entries.lookup name := by
  rw [links, found]
  rfl

theorem links_none (notDir : fs.kind d ≠ some true) (name : String) : fs.links d name = none := by
  cases found : fs.entries d with
  | none => rw [links, found]; rfl
  | some entries => exact absurd (kind_dir.mpr ⟨entries, found⟩) notDir

theorem kind_of_links (named : fs.links d name = some v) : fs.kind d = some true := by
  by_contra other
  rw [links_none other] at named
  cases named

/-! ### One inode replaced -/

section
variable {inode : Inode}

theorem entries_insert (table : later.inodeTable = AList.insert id inode fs.inodeTable) (other : InodeId) :
    later.entries other = if other = id then inode.content.entries else fs.entries other := by
  rw [entries_eq, entries_eq, table, Table.lookup_insert]
  split <;> rfl

theorem kind_insert (table : later.inodeTable = AList.insert id inode fs.inodeTable) (other : InodeId) :
    later.kind other = if other = id then some inode.content.isDir else fs.kind other := by
  rw [kind, kind, table, Table.lookup_insert]
  split <;> rfl

theorem links_insert (table : later.inodeTable = AList.insert id inode fs.inodeTable) (other : InodeId) (name : String) :
    later.links other name = if other = id then inode.content.entries.bind (·.lookup name) else fs.links other name := by
  rw [links, links, entries_insert table]
  split <;> rfl

end

/-! ### What the walks find -/

theorem findInode_ok : fs.findInode d name = .ok v ↔ fs.links d name = some v ∧ (fs.kind v).isSome := by
  unfold findInode
  cases found : fs.entries d with
  | none => simp [links, found]
  | some entries =>
    rw [links_of_entries found, kind_some]
    dsimp only
    cases entries.lookup name with
    | none => simp
    | some id =>
      by_cases there : (fs.inodeTable.lookup id).isSome
      · simp only [there, if_true, Except.ok.injEq, Option.some.injEq]
        exact ⟨fun same => ⟨same, same ▸ there⟩, And.left⟩
      · simp only [there, Bool.false_eq_true, if_false, Option.some.injEq]
        exact ⟨fun same => (by cases same), fun same => absurd (same.1 ▸ same.2) there⟩

theorem findInode_error {e : FsError} (failed : fs.findInode d name = .error e) (dir : fs.kind d = some true)
    (named : ∀ v, fs.links d name = some v → (fs.kind v).isSome) : e = .notFound ∧ fs.links d name = none := by
  obtain ⟨entries, found⟩ := kind_dir.mp dir
  have free : fs.links d name = none := by
    cases link : fs.links d name with
    | none => rfl
    | some v =>
      rw [findInode_ok.mpr ⟨link, named v link⟩] at failed
      cases failed
  rw [links_of_entries found] at free
  simp only [findInode, found, free] at failed
  cases failed
  exact ⟨rfl, by rw [links_of_entries found, free]⟩

/-- A descent from a directory ends in one. -/
theorem descend_ok (dir : fs.kind d = some true) (named : ∀ e n v, fs.links e n = some v → (fs.kind v).isSome) :
    fs.descend d comps = .ok v ↔ fs.links.walk d comps = some v ∧ fs.kind v = some true := by
  induction comps generalizing d with
  | nil => exact ⟨fun same => by cases same; exact ⟨rfl, dir⟩, fun same => by cases same.1; rfl⟩
  | cons comp comps ih =>
    rw [descend, Links.walk]
    cases link : fs.links d comp with
    | none =>
      cases found : fs.findInode d comp with
      | error e => simp
      | ok next =>
        rw [findInode_ok, link] at found
        cases found.1
    | some next =>
      have there := named d comp next link
      rw [findInode_ok.mpr ⟨link, there⟩]
      dsimp only [Option.bind_some]
      by_cases file : fs.isFile next = true
      -- A file on the way is refused at once. The walk finds nothing below it.
      · rw [if_pos file]
        have kind := isFile_iff.mp file
        refine ⟨fun failed => (by cases failed), ?_⟩
        rintro ⟨onward, target⟩
        cases comps with
        | nil =>
          cases onward
          rw [kind] at target
          cases target
        | cons after comps =>
          rw [Links.walk, links_none (by rw [kind]; decide)] at onward
          cases onward
      · rw [if_neg file]
        refine ih ?_
        obtain ⟨isDir, kind⟩ := Option.isSome_iff_exists.mp there
        cases isDir with
        | true => exact kind
        | false => exact absurd (isFile_iff.mpr kind) file

end Fs
end MonakaFs.FsCore
