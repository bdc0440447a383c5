import MonakaFs.FsCore.Files
import MonakaFs.FsCore.Runs

/-! Snapshots of a filesystem, and what is restored from them.

A file is written out as one array of bytes: a buffer of zeros whose front is filled
by a read, which stops behind the last block. Restoring writes the array into a new
store and corrects the size. Inodes are visited in the order of the table, which is
any order.
-/

set_option autoImplicit false

namespace MonakaFs.FsCore

structure MetadataSnapshot where
  size : Nat
  created : Nat
  modified : Nat
  permissions : Nat
  isDir : Bool
  deriving DecidableEq, Repr

namespace MetadataSnapshot

def fromMetadata (metadata : Metadata) : MetadataSnapshot :=
  ⟨metadata.size, metadata.created, metadata.modified, metadata.permissions, metadata.isDir⟩

def toMetadata (snapshot : MetadataSnapshot) : Metadata :=
  ⟨snapshot.size, snapshot.created, snapshot.modified, snapshot.permissions, snapshot.isDir⟩

end MetadataSnapshot

/-- File data, with absent blocks as zeros. -/
structure FileDataSnapshot where
  size : Nat
  data : Bytes
  deriving DecidableEq, Repr

inductive FileContentSnapshot where
  | file (fileData : FileDataSnapshot)
  | dir (entries : Table String InodeId)

structure InodeSnapshot where
  id : InodeId
  metadata : MetadataSnapshot
  content : FileContentSnapshot

structure FsSnapshot where
  nextInode : InodeId
  rootInode : InodeId
  inodes : List InodeSnapshot

section
variable [Target]

def FileDataSnapshot.fromStorage (storage : BlockStorage) : FileDataSnapshot :=
  let bytes := storage.read 0 storage.size
  ⟨storage.size, bytes ++ List.replicate (storage.size - bytes.length) 0⟩

def FileDataSnapshot.restore (fileData : FileDataSnapshot) : BlockStorage :=
  let storage := if fileData.data = [] then .new else BlockStorage.new.write 0 fileData.data
  -- the size of a sparse file
  if storage.size ≠ fileData.size then storage.truncate fileData.size else storage

def FileContent.snapshot : FileContent → FileContentSnapshot
  | .file storage => .file (.fromStorage storage)
  | .dir entries => .dir entries

def FileContentSnapshot.restore : FileContentSnapshot → FileContent
  | .file fileData => .file fileData.restore
  | .dir entries => .dir entries

def Inode.snapshot (id : InodeId) (inode : Inode) : InodeSnapshot :=
  ⟨id, .fromMetadata inode.metadata, inode.content.snapshot⟩

def InodeSnapshot.restore (snapshot : InodeSnapshot) : Inode := ⟨snapshot.metadata.toMetadata, snapshot.content.restore⟩

namespace Fs

variable {T : Type}

/-- The inodes of the table in some order. -/
def Visits (fs : Fs T) (inodes : List (Sigma fun _ : InodeId => Inode)) : Prop := inodes.Perm fs.inodeTable.entries

def toSnapshot (fs : Fs T) (inodes : List (Sigma fun _ : InodeId => Inode)) : FsSnapshot :=
  ⟨fs.nextInode, fs.rootInode, inodes.map fun entry => entry.2.snapshot entry.1⟩

def fromSnapshot (snapshot : FsSnapshot) (timeProvider : T) : Fs T :=
  { emptyWith timeProvider snapshot.rootInode snapshot.nextInode with
    inodeTable := snapshot.inodes.foldl (fun table inode => AList.insert inode.id inode.restore table) ∅ }

/-- Filesystems as they can come to be: new ones, after a call, and restored. -/
inductive Reachable [TimeProvider T] : Fs T → Prop where
  | new (clock : T) : Reachable (withTimeProvider clock)
  | called {fs : Fs T} (reachable : Reachable fs) (call : Call) : Reachable (call.perform fs)
  | restored {fs : Fs T} {inodes : List (Sigma fun _ : InodeId => Inode)} (reachable : Reachable fs) (visits : Visits fs inodes)
      (clock : T) : Reachable (fromSnapshot (fs.toSnapshot inodes) clock)

end Fs

/-! ### File data -/

open BlockStorage

variable {storage : BlockStorage}

/-- What was not read is zeros. -/
theorem fromStorage_eq (whole : Whole storage) : FileDataSnapshot.fromStorage storage = ⟨storage.size, storage.content⟩ := by
  have short : storage.readable ≤ storage.size := Nat.min_le_left _ _
  have rest : storage.size = storage.readable + (storage.size - storage.readable) := by omega
  have front : storage.read 0 storage.size = (List.range storage.readable).map storage.byteAt := by
    rw [read_eq whole, Nat.sub_zero, Nat.min_eq_right short]
    simp only [Nat.zero_add]
  have tail : List.replicate (storage.size - storage.readable) (0 : UInt8) =
      (List.range (storage.size - storage.readable)).map fun i => storage.byteAt (storage.readable + i) := by
    refine (List.eq_replicate_iff.mpr ⟨by simp, fun byte member => ?_⟩).symm
    obtain ⟨i, within, rfl⟩ := List.mem_map.mp member
    have more := List.mem_range.mp within
    refine blockByte_behind ?_
    simp only [readable, BLOCK_SIZE] at more ⊢
    omega
  have whole : storage.content = (List.range (storage.readable + (storage.size - storage.readable))).map storage.byteAt := by
    rw [← rest, content]
  rw [FileDataSnapshot.fromStorage, whole, List.range_add, List.map_append, List.map_map, front, List.length_map,
    List.length_range, tail]
  rfl

theorem restore_whole (fileData : FileDataSnapshot) (small : fileData.size < 2 ^ Target.usizeBits) : Whole fileData.restore := by
  have written : Whole (if fileData.data = [] then .new else BlockStorage.new.write 0 fileData.data) := by
    split
    · exact new_whole
    · exact write_whole new_whole (Nat.two_pow_pos _)
  unfold FileDataSnapshot.restore
  generalize (if fileData.data = [] then BlockStorage.new else BlockStorage.new.write 0 fileData.data) = storage at written ⊢
  dsimp only
  split
  · exact truncate_whole written small
  · exact written

theorem restore_content (whole : Whole storage) : (FileDataSnapshot.fromStorage storage).restore.content = storage.content := by
  rw [fromStorage_eq whole]
  by_cases empty : storage.content = []
  · have size : storage.size = 0 := by rw [← content_length, empty]; rfl
    simp only [FileDataSnapshot.restore, empty, if_true, size]
    rfl
  · have fits : 0 + storage.content.length < 2 ^ Target.usizeBits := by
      rw [Nat.zero_add, content_length]
      exact whole.small
    have size := write_size new_whole fits empty
    rw [Nat.zero_add, content_length] at size
    have kept : ¬ (BlockStorage.new.write 0 storage.content).size ≠ storage.size := by
      rw [size]
      simp [BlockStorage.new]
    simp only [FileDataSnapshot.restore, empty, if_false, kept]
    exact append_content new_whole fits

/-! ### Inodes -/

/-- Two inodes with the same metadata, and the same entries or the same bytes. -/
inductive Alike : Inode → Inode → Prop where
  | file {metadata : Metadata} {storage storage' : BlockStorage} (same : storage'.content = storage.content) :
      Alike ⟨metadata, .file storage'⟩ ⟨metadata, .file storage⟩
  | dir (metadata : Metadata) (entries : Table String InodeId) : Alike ⟨metadata, .dir entries⟩ ⟨metadata, .dir entries⟩

/-- The files are whole. -/
def AllWhole {T : Type} (fs : Fs T) : Prop := ∀ id stored, fs.node id = some (some stored) → Whole stored.storage

/-- What a snapshot keeps of an inode. -/
def rebuilt (inode : Inode) : Inode := (inode.snapshot 0).restore

theorem rebuilt_alike {inode : Inode} (whole : ∀ stored, inode.stored = some stored → Whole stored.storage) :
    Alike (rebuilt inode) inode := by
  obtain ⟨metadata, content⟩ := inode
  cases content with
  | file storage => exact .file (restore_content (whole ⟨storage, metadata.size⟩ rfl))
  | dir entries => exact .dir metadata entries

theorem Alike.snapshot {inode inode' : Inode} (alike : Alike inode' inode) (id : InodeId)
    (whole : ∀ stored, inode.stored = some stored → Whole stored.storage)
    (whole' : ∀ stored, inode'.stored = some stored → Whole stored.storage) : inode'.snapshot id = inode.snapshot id := by
  cases alike with
  | dir => rfl
  | @file metadata storage storage' same =>
    have sizes : storage'.size = storage.size := by rw [← content_length, same, content_length]
    have data : FileDataSnapshot.fromStorage storage' = FileDataSnapshot.fromStorage storage := by
      rw [fromStorage_eq (whole ⟨storage, metadata.size⟩ rfl), fromStorage_eq (whole' ⟨storage', metadata.size⟩ rfl), sizes, same]
    simp only [Inode.snapshot, FileContent.snapshot, data]

section
variable {T : Type} {fs : Fs T} {inodes : List (Sigma fun _ : InodeId => Inode)} {clock : T}

open Fs

/-- Distinct inodes are put in one after the other. -/
theorem foldl_insert_entries (table : Table InodeId Inode) (fresh : ∀ entry ∈ inodes, entry.1 ∉ table) (distinct : inodes.NodupKeys) :
    ((inodes.map fun entry => entry.2.snapshot entry.1).foldl (fun table inode => AList.insert inode.id inode.restore table)
      table).entries = (inodes.map (Sigma.map id fun _ => rebuilt)).reverse ++ table.entries := by
  induction inodes generalizing table with
  | nil => rfl
  | cons entry inodes ih =>
    obtain ⟨unlike, distinct⟩ := List.nodupKeys_cons.mp distinct
    have absent : entry.1 ∉ table := fresh entry List.mem_cons_self
    have step : AList.insert (entry.2.snapshot entry.1).id (entry.2.snapshot entry.1).restore table =
        AList.insert entry.1 (rebuilt entry.2) table := rfl
    rw [List.map_cons, List.foldl_cons, step, ih _ ?_ distinct, AList.entries_insert_of_notMem absent, List.map_cons,
      List.reverse_cons, List.append_assoc]
    · rfl
    · intro other member
      rw [AList.mem_insert]
      rintro (same | old)
      · exact unlike (same ▸ List.mem_keys_of_mem member)
      · exact fresh other (List.mem_cons_of_mem entry member) old

/-- The table of a restored filesystem, in some order. -/
theorem restored_entries (visits : Visits fs inodes) (clock : T) :
    (fromSnapshot (fs.toSnapshot inodes) clock).inodeTable.entries.Perm (inodes.map (Sigma.map id fun _ => rebuilt)) := by
  have distinct : inodes.NodupKeys := (List.perm_nodupKeys visits).mpr fs.inodeTable.nodupKeys
  have entries := foldl_insert_entries ∅ (fun _ _ => AList.notMem_empty _) distinct
  rw [fromSnapshot, toSnapshot, entries]
  simp only [AList.empty_entries, List.append_nil]
  exact List.reverse_perm _

theorem restored_lookup (visits : Visits fs inodes) (clock : T) (id : InodeId) :
    (fromSnapshot (fs.toSnapshot inodes) clock).inodeTable.lookup id = (fs.inodeTable.lookup id).map rebuilt := by
  have entries := (restored_entries visits clock).trans (visits.map _)
  rw [AList.lookup, AList.lookup, List.perm_dlookup id (AList.nodupKeys _) entries, List.dlookup_map₂]

/-! ### Every file is whole -/

theorem Fate.whole [TimeProvider T] {call : Call} {id : InodeId} {stored : Stored} (fate : Fate call fs id (some (some stored)))
    (whole : AllWhole fs) : Whole stored.storage := by
  generalize after : some (some stored) = result at fate
  cases fate with
  | kept same => exact whole id stored (by rw [← same, after])
  | created isDir _ _ =>
    cases isDir with
    | true => cases after
    | false =>
      cases after
      exact new_whole
  | @written before found _ offset data =>
    cases after
    exact write_whole (whole id before found) (Nat.mod_lt _ (Nat.two_pow_pos _))
  | @truncated before found _ size =>
    cases after
    exact truncate_whole (whole id before found) (Nat.mod_lt _ (Nat.two_pow_pos _))

theorem rebuilt_whole {inode : Inode} (whole : ∀ stored, inode.stored = some stored → Whole stored.storage) :
    ∀ stored, (rebuilt inode).stored = some stored → Whole stored.storage := by
  obtain ⟨metadata, content⟩ := inode
  intro stored found
  cases content with
  | file storage =>
    cases found
    refine restore_whole _ ?_
    rw [fromStorage_eq (whole ⟨storage, metadata.size⟩ rfl)]
    exact (whole ⟨storage, metadata.size⟩ rfl).small
  | dir entries => cases found

/-- The files of one inode of the table. -/
theorem AllWhole.inode {id : InodeId} {inode : Inode} (whole : AllWhole fs) (found : fs.inodeTable.lookup id = some inode) :
    ∀ stored, inode.stored = some stored → Whole stored.storage := by
  intro stored file
  exact whole id stored (by rw [Fs.node, found, Option.map_some, file])

theorem reachable_whole [TimeProvider T] (reachable : Reachable fs) : AllWhole fs := by
  induction reachable with
  | new clock =>
    intro id stored found
    rw [Fs.node, withTimeProvider] at found
    dsimp only at found
    rw [Table.lookup_insert] at found
    split at found
    · cases found
    · cases found
  | @called fs _ call ih =>
    intro id stored found
    have fate := perform_fate call fs id
    rw [found] at fate
    exact fate.whole ih
  | @restored fs inodes _ visits clock ih =>
    intro id stored found
    rw [Fs.node, restored_lookup visits] at found
    obtain ⟨inode', present, file⟩ := Option.map_eq_some_iff.mp found
    obtain ⟨inode, old, rfl⟩ := Option.map_eq_some_iff.mp present
    exact rebuilt_whole (ih.inode old) stored file

theorem reachable_after [TimeProvider T] {calls : List Call} (reachable : Reachable fs) : Reachable (after calls fs) := by
  induction calls generalizing fs with
  | nil => exact reachable
  | cons call calls ih => exact ih (reachable.called call)

/-! ### The round trip -/

structure SameSnapshot (snapshot other : FsSnapshot) : Prop where
  next : snapshot.nextInode = other.nextInode
  root : snapshot.rootInode = other.rootInode
  inodes : snapshot.inodes.Perm other.inodes

theorem restored_alike (whole : AllWhole fs) (visits : Visits fs inodes) (clock : T) (id : InodeId) :
    Option.Rel Alike ((fromSnapshot (fs.toSnapshot inodes) clock).inodeTable.lookup id) (fs.inodeTable.lookup id) := by
  rw [restored_lookup visits]
  cases found : fs.inodeTable.lookup id with
  | none => exact .none
  | some inode => exact .some (rebuilt_alike (whole.inode found))

theorem restored_snapshot {inodes' : List (Sigma fun _ : InodeId => Inode)} (whole : AllWhole fs) (visits : Visits fs inodes)
    (visits' : Visits (fromSnapshot (fs.toSnapshot inodes) clock) inodes') :
    SameSnapshot ((fromSnapshot (fs.toSnapshot inodes) clock).toSnapshot inodes') (fs.toSnapshot inodes) := by
  refine ⟨rfl, rfl, ?_⟩
  refine ((visits'.trans (restored_entries visits clock)).map _).trans (.of_eq ?_)
  rw [List.map_map]
  refine List.map_congr_left fun entry member => ?_
  have found : fs.inodeTable.lookup entry.1 = some entry.2 :=
    AList.mem_lookup_iff.mpr (visits.mem_iff.mp member)
  exact (rebuilt_alike (whole.inode found)).snapshot entry.1 (whole.inode found) (rebuilt_whole (whole.inode found))

omit [Target] in
theorem Alike.entries {found before : Option Inode} (alike : Option.Rel Alike found before) :
    found.bind (·.content.entries) = before.bind (·.content.entries) := by
  cases alike with
  | none => rfl
  | some same => cases same <;> rfl

omit [Target] in
theorem Alike.metadata {found before : Option Inode} (alike : Option.Rel Alike found before) :
    found.map (·.metadata) = before.map (·.metadata) := by
  cases alike with
  | none => rfl
  | some same => cases same <;> rfl

section
variable {later : Fs T} (alike : ∀ id, Option.Rel Alike (later.inodeTable.lookup id) (fs.inodeTable.lookup id))
include alike

omit [Target] in
theorem alike_entries : later.entries = fs.entries := by
  funext id
  rw [entries_eq, entries_eq, Alike.entries (alike id)]

omit [Target] in
theorem alike_findInode : later.findInode = fs.findInode := by
  funext parent name
  have there (id : InodeId) : (later.inodeTable.lookup id).isSome = (fs.inodeTable.lookup id).isSome := by
    have same := congrArg Option.isSome (Alike.metadata (alike id))
    simpa only [Option.isSome_map] using same
  simp only [Fs.findInode, alike_entries alike, there]

omit [Target] in
/-- A path leads to the same inode, with the same metadata. -/
theorem alike_paths (root : later.rootInode = fs.rootInode) (path : String) :
    later.resolve path = fs.resolve path ∧ later.stat path = fs.stat path := by
  have links : later.links = fs.links := by
    funext id name
    rw [Fs.links, Fs.links, alike_entries alike]
  -- A path is walked by the names, and what it leads to has the same metadata.
  refine ⟨by rw [resolve, resolve, links, root], ?_⟩
  unfold stat
  rw [root, alike_findInode alike]
  split
  · rfl
  have top := Alike.metadata (alike fs.rootInode)
  cases before : fs.inodeTable.lookup fs.rootInode with
  | none =>
    rw [before] at top
    rw [Option.map_eq_none_iff.mp top]
  | some inode =>
    rw [before] at top
    obtain ⟨inode', found, -⟩ := Option.map_eq_some_iff.mp top
    rw [found]
    refine bind_congr fun target => ?_
    have metadata := Alike.metadata (alike target)
    cases there : fs.inodeTable.lookup target with
    | none =>
      rw [there] at metadata
      rw [Option.map_eq_none_iff.mp metadata]
    | some inode =>
      rw [there] at metadata
      obtain ⟨inode', found, same⟩ := Option.map_eq_some_iff.mp metadata
      rw [found]
      dsimp only
      rw [same]

end

end

end

/-- A file with a gap: five bytes behind the first block, and a tail that was never written. -/
def sparseFile : List Call :=
  [.openPathWithFlags "/f" (O_RDWR ||| O_CREAT), .writeAt 3 5000 [1, 2, 3, 4, 5], .ftruncate 3 9000]

end MonakaFs.FsCore
