import MonakaFs.FsCore.Contents
import MonakaFs.FsCore.Refusals

/-! What a call does to the files.

A file is its storage together with the size in its metadata. Directories may come
and go around it; only a write, a truncation or a truncating open gives it another
content, and a creation makes one under a new number.
-/

set_option autoImplicit false

namespace MonakaFs.FsCore

/-- The storage of a file and its recorded size. -/
structure Stored where
  storage : BlockStorage
  size : Nat
  deriving DecidableEq

def Inode.stored (inode : Inode) : Option Stored :=
  match inode.content with
  | .file storage => some ⟨storage, inode.metadata.size⟩
  | .dir _ => none

namespace Fs

section
variable {T : Type} {fs later : Fs T} {id d v : InodeId} {name : String} {flags : Nat}

/-- What has this number: nothing, a directory, or a file. -/
def node (fs : Fs T) (id : InodeId) : Option (Option Stored) := (fs.inodeTable.lookup id).map Inode.stored

theorem node_of_table (table : later.inodeTable = fs.inodeTable) : later.node = fs.node := by
  funext id
  rw [node, node, table]

theorem node_insert {inode : Inode} (table : later.inodeTable = AList.insert id inode fs.inodeTable) :
    later.node = Function.update fs.node id (some inode.stored) := by
  funext other
  rw [Function.update_apply, node, table, Table.lookup_insert]
  split <;> rfl

/-- A directory is no file, whatever its entries are. -/
theorem node_relink {metadata : Metadata} {entries changed : Table String InodeId} {timestamp : Nat}
    (stored : fs.inodeTable.lookup d = some ⟨metadata, .dir entries⟩)
    (table : later.inodeTable = AList.insert d (Inode.modify ⟨metadata, .dir entries⟩ (.dir changed) timestamp) fs.inodeTable) :
    later.node = fs.node := by
  rw [node_insert table]
  refine Function.update_eq_self_iff.mpr ?_
  rw [node, stored]
  rfl

/-! ### Descriptors -/

theorem insertFd_node (fs : Fs T) (id : InodeId) (flags : Nat) : (fs.insertFd id flags).2.node = fs.node := node_of_table rfl

theorem setPosition_node (fs : Fs T) (fd : Fd) (position : Nat) : (fs.setPosition fd position).node = fs.node := by
  unfold setPosition
  split
  · exact node_of_table rfl
  · rfl

theorem close_node (fs : Fs T) (fd : Fd) : (fs.close fd).2.node = fs.node := by
  unfold close
  split
  · exact node_of_table rfl
  · rfl

theorem seek_node (fs : Fs T) (fd : Fd) (offset whence : Int) : (fs.seek fd offset whence).2.node = fs.node := by
  unfold seek
  split
  · rfl
  split
  · rfl
  split
  · rfl
  dsimp only
  split
  · rfl
  split
  · rfl
  · exact setPosition_node fs fd _

theorem readThrough_node [Target] (fs : Fs T) (fd : Fd) (position : FileHandle → Nat) (wanted : Nat) :
    (fs.readThrough fd position wanted).2.node = fs.node := by
  unfold readThrough
  split
  · rfl
  split
  · rfl
  split
  · rfl
  split
  · rfl
  · exact setPosition_node fs fd _

end

section
variable {T : Type} [TimeProvider T] {fs later : Fs T} {id d v : InodeId} {name : String} {flags : Nat}

theorem update_node (inode : Inode) (written : BlockStorage) (size : Nat) :
    (fs.update id (inode.store written size)).node = Function.update fs.node id (some (some ⟨written, size⟩)) := by
  have table : (fs.update id (inode.store written size)).inodeTable =
      AList.insert id (inode.store written size (TimeProvider.now fs.timeProvider).1) fs.inodeTable := rfl
  exact node_insert table

section
variable [Target]

theorem writeThrough_node (fs : Fs T) (fd : Fd) (position : FileHandle → BlockStorage → Nat) (after : Nat → Nat → Nat)
    (buf : Bytes) : (fs.writeThrough fd position after buf).2.node = fs.node ∨
      ∃ handle stored, fs.fdTable.lookup fd = some handle ∧ fs.node handle.inodeId = some (some stored) ∧
        let written := stored.storage.write (toUsize (position handle stored.storage)) buf
        (fs.writeThrough fd position after buf).2.node =
          Function.update fs.node handle.inodeId (some (some ⟨written, toU64 written.size⟩)) := by
  unfold writeThrough
  split
  · exact .inl rfl
  next handle found =>
  split
  · exact .inl rfl
  split
  · exact .inl rfl
  next inode present =>
  split
  · exact .inl rfl
  · next storage content =>
    refine .inr ⟨handle, ⟨storage, inode.metadata.size⟩, found, ?_, ?_⟩
    · rw [node, present, Option.map_some, Inode.stored, content]
    · rw [setPosition_node, update_node]

theorem ftruncate_node (fs : Fs T) (fd : Fd) (size : Nat) : (fs.ftruncate fd size).2.node = fs.node ∨
    ∃ handle stored, fs.fdTable.lookup fd = some handle ∧ fs.node handle.inodeId = some (some stored) ∧
      (fs.ftruncate fd size).2.node =
        Function.update fs.node handle.inodeId (some (some ⟨stored.storage.truncate (toUsize size), size⟩)) := by
  unfold ftruncate
  split
  · exact .inl rfl
  next handle found =>
  split
  · exact .inl rfl
  split
  · exact .inl rfl
  next inode present =>
  split
  · exact .inl rfl
  · next storage content =>
    refine .inr ⟨handle, ⟨storage, inode.metadata.size⟩, found, ?_, ?_⟩
    · rw [node, present, Option.map_some, Inode.stored, content]
    · rw [update_node]

end

/-! ### Entries -/

/-- What a creation puts under its number. -/
def created (isDir : Bool) : Option (Option Stored) := some (if isDir then none else some ⟨.new, 0⟩)

theorem createInode_node (fs : Fs T) (d : InodeId) (name : String) (isDir : Bool) :
    (∃ e, fs.createInode d name isDir = (.error e, fs)) ∨ ∃ later, fs.createInode d name isDir = (.ok fs.nextInode, later) ∧
      later.node = Function.update fs.node fs.nextInode (created isDir) ∧ later.nextInode = toU64 (fs.nextInode + 1) := by
  rcases createInode_cases fs d name isDir with failed | ⟨metadata, entries, stored, free⟩
  · exact .inl failed
  · obtain ⟨timestamp, later, made, table, next⟩ := createInode_made isDir stored free
    refine .inr ⟨later, made, ?_, next⟩
    let linked : Fs T := { fs with inodeTable := AList.insert d (Inode.modify ⟨metadata, .dir entries⟩
      (.dir (AList.insert name fs.nextInode entries)) timestamp) fs.inodeTable }
    have unlinked : linked.node = fs.node := node_relink stored rfl
    have added : later.inodeTable = AList.insert fs.nextInode (if isDir then Inode.newDir timestamp else Inode.newFile timestamp)
        linked.inodeTable := table
    rw [node_insert added, unlinked]
    cases isDir <;> rfl

theorem createInode_nodes {isDir : Bool} {later : Fs T} (made : fs.createInode d name isDir = (.ok fs.nextInode, later)) :
    later.node = Function.update fs.node fs.nextInode (created isDir) ∧ later.nextInode = toU64 (fs.nextInode + 1) := by
  rcases createInode_node fs d name isDir with ⟨e, failed⟩ | ⟨later', made', effect⟩
  · rw [made] at failed
    cases failed
  · rw [made] at made'
    cases made'
    exact effect

theorem removeEntry_node (fs : Fs T) (d : InodeId) (name : String) : (fs.removeEntry d name).2.node = fs.node := by
  unfold removeEntry
  split
  · rfl
  · next parent stored =>
    obtain ⟨metadata, content⟩ := parent
    split
    · rfl
    · next entries same =>
      cases same
      exact node_relink stored rfl

theorem unlink_node (fs : Fs T) (path : String) : (fs.unlink path).2.node = fs.node := by
  unfold unlink
  split
  · rfl
  split
  · rfl
  split
  · exact removeEntry_node fs _ _
  · rfl

theorem rmdir_node (fs : Fs T) (path : String) : (fs.rmdir path).2.node = fs.node := by
  unfold rmdir
  split
  · rfl
  split
  · rfl
  split
  · rfl
  split
  · exact removeEntry_node fs _ _
  · rfl

theorem moveEntry_node (fs : Fs T) (d : InodeId) (name : String) (e : InodeId) (newName : String) :
    (fs.moveEntry d name e newName).2.node = fs.node := by
  have ticked : { fs with timeProvider := (TimeProvider.now fs.timeProvider).2 }.node = fs.node := node_of_table rfl
  unfold moveEntry
  dsimp only
  split
  · exact ticked
  next parent stored =>
  obtain ⟨metadata, content⟩ := parent
  dsimp only
  cases content with
  | file storage => exact ticked
  | dir entries =>
    dsimp only
    split
    · exact ticked
    · split
      · exact node_relink stored rfl
      · have taken : { fs with
            timeProvider := (TimeProvider.now fs.timeProvider).2
            inodeTable := AList.insert d (Inode.modify ⟨metadata, .dir entries⟩ (.dir (AList.erase name entries))
              (TimeProvider.now fs.timeProvider).1) fs.inodeTable }.node = fs.node := node_relink stored rfl
        split
        · exact taken
        · next target stored' =>
          obtain ⟨metadata', content'⟩ := target
          cases content' with
          | file storage => exact taken
          | dir entries' => exact (node_relink stored' rfl).trans taken

theorem rename_node (fs : Fs T) (oldPath newPath : String) : (fs.rename oldPath newPath).2.node = fs.node := by
  unfold rename
  split
  · rfl
  split
  · split
    · rfl
    split
    · rfl
    split
    · rfl
    split
    · rfl
    split
    · rfl
    · exact moveEntry_node fs _ _ _ _
  · rfl

theorem mkdir_node (fs : Fs T) (path : String) : (fs.mkdir path).2 = fs ∨
    ((fs.mkdir path).2.node = Function.update fs.node fs.nextInode (some none) ∧
      (fs.mkdir path).2.nextInode = toU64 (fs.nextInode + 1)) := by
  unfold mkdir
  split
  · exact .inl rfl
  · next parent name _ =>
    rcases createInode_node fs parent name true with ⟨e, failed⟩ | ⟨later, made, nodes⟩
    · rw [failed]
      exact .inl rfl
    · rw [made]
      exact .inr nodes

/-! ### Opens -/

theorem openInode_node (fs : Fs T) (id : InodeId) (flags : Nat) : (fs.openInode id flags).2.node = fs.node ∨
    ∃ stored, fs.node id = some (some stored) ∧ flags &&& O_TRUNC ≠ 0 ∧
      (fs.openInode id flags).2.node = Function.update fs.node id (some (some ⟨stored.storage.truncate 0, 0⟩)) := by
  unfold openInode
  split
  · exact .inl rfl
  next inode present =>
  split
  · split
    · exact .inl rfl
    split
    · exact .inl rfl
    · exact .inl (insertFd_node fs id flags)
  · next storage content =>
    split
    · next truncates =>
      split
      · exact .inl rfl
      · refine .inr ⟨⟨storage, inode.metadata.size⟩, ?_, truncates, ?_⟩
        · rw [node, present, Option.map_some, Inode.stored, content]
        · rw [insertFd_node, update_node]
    · exact .inl (insertFd_node fs id flags)

theorem openInode_next (fs : Fs T) (id : InodeId) (flags : Nat) : (fs.openInode id flags).2.nextInode = fs.nextInode := by
  unfold openInode
  split
  · rfl
  split
  · split
    · rfl
    split
    · rfl
    · rfl
  · split
    · split
      · rfl
      · rfl
    · rfl

/-- An open truncates the file it finds, or puts an empty one under a new number. -/
theorem openEntry_node (fs : Fs T) (d : InodeId) (name : String) (flags : Nat) :
    ((fs.openEntry d name flags).2.node = fs.node ∧ (fs.openEntry d name flags).2.nextInode = fs.nextInode) ∨
      (∃ id stored, fs.links d name = some id ∧ fs.node id = some (some stored) ∧ flags &&& O_TRUNC ≠ 0 ∧
        (fs.openEntry d name flags).2.node = Function.update fs.node id (some (some ⟨stored.storage.truncate 0, 0⟩)) ∧
        (fs.openEntry d name flags).2.nextInode = fs.nextInode) ∨
      ((fs.openEntry d name flags).2.node = Function.update fs.node fs.nextInode (some (some ⟨.new, 0⟩)) ∧
        (fs.openEntry d name flags).2.nextInode = toU64 (fs.nextInode + 1)) := by
  rcases findOrCreate_cases fs d name flags with ⟨e, result⟩ | ⟨id, named, result⟩ | ⟨-, later, made, result⟩
  · rw [openEntry, result]
    exact .inl ⟨rfl, rfl⟩
  · rw [openEntry, result]
    dsimp only
    rcases openInode_node fs id flags with same | ⟨stored, found, truncates, nodes⟩
    · exact .inl ⟨same, openInode_next fs id flags⟩
    · exact .inr (.inl ⟨id, stored, named, found, truncates, nodes, openInode_next fs id flags⟩)
  · rw [openEntry, result]
    dsimp only
    rw [openInode_next]
    obtain ⟨nodes, next⟩ := createInode_nodes made
    refine .inr (.inr ⟨?_, next⟩)
    rcases openInode_node later fs.nextInode flags with same | ⟨stored, found, -, nodes'⟩
    · rw [same, nodes]
      rfl
    · -- an empty file is truncated to an empty file
      rw [nodes, Function.update_self] at found
      cases found
      rw [nodes', nodes, Function.update_idem]
      rfl

/-- How many directories `mkdir_p` makes: all from the first one that is missing. -/
def missing (fs : Fs T) : InodeId → List String → Nat
  | _, [] => 0
  | current, comp :: comps =>
      match fs.findInode current comp with
      | .ok next => if fs.isFile next then 0 else fs.missing next comps
      | .error .notFound => if (fs.links current comp).isNone then comps.length + 1 else 0
      | .error _ => 0

theorem toU64_succ (n k : Nat) : toU64 (toU64 (n + 1) + k) = toU64 (n + (k + 1)) := by
  simp only [toU64]
  omega

/-- Only numbers from here on were given to directories. -/
structure Numbered (fs : Fs T) (count : Nat) (later : Fs T) : Prop where
  nodes : ∀ id, later.node id = fs.node id ∨
    (later.node id = some none ∧ ∃ k < count, toU64 id = toU64 (fs.nextInode + k))
  next : toU64 later.nextInode = toU64 (fs.nextInode + count)

omit [TimeProvider T] in
theorem Numbered.refl (fs : Fs T) : Numbered fs 0 fs := ⟨fun _ => .inl rfl, rfl⟩

omit [TimeProvider T] in
theorem Numbered.more {middle : Fs T} {count : Nat} (nodes : middle.node = Function.update fs.node fs.nextInode (some none))
    (next : middle.nextInode = toU64 (fs.nextInode + 1)) (rest : Numbered middle count later) :
    Numbered fs (count + 1) later := by
  refine ⟨fun id => ?_, by rw [rest.next, next, toU64_succ]⟩
  rcases rest.nodes id with same | ⟨gone, k, fewer, number⟩
  · rw [same, nodes, Function.update_apply]
    split
    · next first => exact .inr ⟨rfl, 0, Nat.succ_pos _, by rw [first]; rfl⟩
    · exact .inl rfl
  · exact .inr ⟨gone, k + 1, Nat.succ_lt_succ fewer, by rw [number, next, toU64_succ]⟩

/-- Everything is missing below a directory that was just made. -/
theorem mkdirPath_all {comps : List String} {timestamp : Nat} (empty : fs.inodeTable.lookup d = some (Inode.newDir timestamp)) :
    Numbered fs comps.length (fs.mkdirPath d comps).2 := by
  induction comps generalizing fs d timestamp with
  | nil => exact .refl fs
  | cons comp comps ih =>
    have missing : fs.findInode d comp = .error .notFound := by
      simp only [findInode, entries, empty, Inode.newDir, Option.bind_some]
      rfl
    obtain ⟨timestamp', later, made, table, next⟩ := createInode_made true empty (show AList.lookup comp ∅ = none from rfl)
    rw [mkdirPath, missing]
    simp only [made]
    exact .more (createInode_nodes made).1 next (ih (by rw [table, Table.lookup_insert, if_pos rfl, if_pos rfl]))

omit [TimeProvider T] in
theorem findInode_notFound (missing : fs.findInode d name = .error .notFound) : fs.kind d = some true := by
  unfold findInode at missing
  split at missing
  · cases missing
  · next entries found => exact kind_dir.mpr ⟨entries, found⟩

theorem mkdirPath_numbered (comps : List String) : Numbered fs (fs.missing d comps) (fs.mkdirPath d comps).2 := by
  induction comps generalizing d with
  | nil => exact .refl fs
  | cons comp comps ih =>
    rw [mkdirPath, missing]
    cases found : fs.findInode d comp with
    | ok next =>
      dsimp only
      split
      · exact .refl fs
      · exact ih
    | error e =>
      by_cases absent : e = .notFound
      · subst absent
        obtain ⟨metadata, entries, stored, inside⟩ := stored_dir (findInode_notFound found)
        dsimp only
        cases link : fs.links d comp with
        | none =>
          rw [links_of_entries inside] at link
          obtain ⟨timestamp, later, made, table, -⟩ := createInode_made true stored link
          obtain ⟨nodes, next⟩ := createInode_nodes made
          rw [made]
          exact .more nodes next (mkdirPath_all (by rw [table, Table.lookup_insert, if_pos rfl, if_pos rfl]))
        | some v =>
          rw [createInode_taken (findInode_notFound found) link]
          dsimp only
          rw [found]
          exact .refl fs
      · cases e <;> first | exact absurd rfl absent | exact .refl fs

theorem mkdirP_numbered (fs : Fs T) (path : String) : Numbered fs
    (if path = "" ∨ (fs.inodeTable.lookup fs.rootInode).isNone then 0 else fs.missing fs.rootInode (components path))
    (fs.mkdirP path).2 := by
  unfold mkdirP
  by_cases empty : path = ""
  · rw [if_pos empty, if_pos (.inl empty)]
    exact .refl fs
  rw [if_neg empty]
  by_cases there : (fs.inodeTable.lookup fs.rootInode).isSome
  · rw [if_neg (by simp [empty, Option.isSome_iff_ne_none.mp there])]
    split
    · next root =>
      rw [root]
      exact .refl fs
    · exact mkdirPath_numbered _
  · rw [if_pos (.inr (by simpa using there)), if_neg there]
    split <;> exact .refl fs

end

end Fs

theorem toU64_ne (n : Nat) : toU64 (n + 1) ≠ n := by
  unfold toU64
  omega

section
variable {T : Type}

/-- The call writes to or truncates this file. -/
def Changes : Call → InodeId → Fs T → Prop
  | .write fd _, id, fs | .writeAt fd _ _, id, fs | .appendWrite fd _, id, fs | .ftruncate fd _, id, fs => fs.holder fd = some id
  | call, id, fs => ∃ parent name flags, call.opens fs = some (parent, name, flags) ∧ fs.links parent name = some id ∧
      flags &&& O_TRUNC ≠ 0

variable [TimeProvider T] [Target] {fs : Fs T} {id : InodeId}

/-- How many inodes a call creates. -/
def Call.creations : Call → Fs T → Nat
  | .mkdirP path, fs =>
      if path = "" ∨ (fs.inodeTable.lookup fs.rootInode).isNone then 0 else fs.missing fs.rootInode (components path)
  | call, fs => if (call.perform fs).nextInode = fs.nextInode then 0 else 1

open Fs

/-- What a call makes of the file with one number. -/
inductive Fate (call : Call) (fs : Fs T) (id : InodeId) : Option (Option Stored) → Prop where
  | kept {after : Option (Option Stored)} (same : after = fs.node id) : Fate call fs id after
  | created {k : Nat} (isDir : Bool) (fewer : k < call.creations fs) (number : toU64 id = toU64 (fs.nextInode + k)) :
      Fate call fs id (Fs.created isDir)
  | written {stored : Stored} (found : fs.node id = some (some stored)) (changes : Changes call id fs) (offset : Nat) (data : Bytes) :
      Fate call fs id (some (some ⟨stored.storage.write (toUsize offset) data, toU64 (stored.storage.write (toUsize offset) data).size⟩))
  | truncated {stored : Stored} (found : fs.node id = some (some stored)) (changes : Changes call id fs) (size : Nat) :
      Fate call fs id (some (some ⟨stored.storage.truncate (toUsize size), size⟩))

theorem creations_one {call : Call} (single : ∀ path, call ≠ .mkdirP path)
    (next : (call.perform fs).nextInode = toU64 (fs.nextInode + 1)) : 0 < call.creations fs := by
  have moved : (call.perform fs).nextInode ≠ fs.nextInode := by
    rw [next]
    exact toU64_ne _
  rw [Call.creations.eq_2 call fs single, if_neg moved]
  exact Nat.one_pos

/-- A file was put under the next number, or not. -/
theorem Fate.of_created {call : Call} (isDir : Bool) (single : ∀ path, call ≠ .mkdirP path)
    (nodes : (call.perform fs).node = Function.update fs.node fs.nextInode (Fs.created isDir))
    (next : (call.perform fs).nextInode = toU64 (fs.nextInode + 1)) : Fate call fs id ((call.perform fs).node id) := by
  rw [nodes, Function.update_apply]
  split
  · next same => exact .created isDir (creations_one single next) (by rw [same]; rfl)
  · exact .kept rfl

theorem Fate.of_opened {call : Call} {parent : InodeId} {name : String} {flags : Nat} (single : ∀ path, call ≠ .mkdirP path)
    (opens : call.opens fs = some (parent, name, flags)) (result : call.perform fs = (fs.openEntry parent name flags).2)
    (changes : ∀ id, Changes call id fs ↔ ∃ parent name flags, call.opens fs = some (parent, name, flags) ∧
      fs.links parent name = some id ∧ flags &&& O_TRUNC ≠ 0) : Fate call fs id ((call.perform fs).node id) := by
  rcases openEntry_node fs parent name flags with ⟨same, -⟩ | ⟨v, stored, named, found, truncates, nodes, -⟩ | ⟨nodes, next⟩
  · exact .kept (by rw [result, same])
  · rw [result, nodes, Function.update_apply]
    split
    · next same =>
      subst same
      have zero : stored.storage.truncate 0 = stored.storage.truncate (toUsize 0) := by rw [toUsize, Nat.zero_mod]
      rw [zero]
      exact .truncated found ((changes id).mpr ⟨parent, name, flags, opens, named, truncates⟩) 0
    · exact .kept rfl
  · exact .of_created false single (by rw [result, nodes]; rfl) (by rw [result, next])

theorem Fate.of_written {call : Call} {fd : Fd} {position : FileHandle → BlockStorage → Nat} {after : Nat → Nat → Nat} {buf : Bytes}
    (result : call.perform fs = (fs.writeThrough fd position after buf).2) (changes : ∀ id, Changes call id fs ↔ fs.holder fd = some id) :
    Fate call fs id ((call.perform fs).node id) := by
  rcases writeThrough_node fs fd position after buf with same | ⟨handle, stored, held, found, nodes⟩
  · exact .kept (by rw [result, same])
  · rw [result, nodes, Function.update_apply]
    split
    · next same =>
      subst same
      exact .written found ((changes _).mpr (by rw [holder, held]; rfl)) _ buf
    · exact .kept rfl

theorem perform_fate (call : Call) (fs : Fs T) (id : InodeId) : Fate call fs id ((call.perform fs).node id) := by
  have unchanged {call : Call} (same : (call.perform fs).node = fs.node) : Fate call fs id ((call.perform fs).node id) :=
    .kept (congrFun same id)
  cases call with
  | openPathWithFlags path flags =>
    rcases openPath_cases fs path flags with ⟨⟨e, result⟩, -⟩ | ⟨result, -⟩ | ⟨d, name, opens, result⟩
    · exact unchanged (by rw [Call.perform, result])
    · exact unchanged (by rw [Call.perform, result, insertFd_node])
    · exact .of_opened (fun _ same => by cases same) opens (by rw [Call.perform, result]) fun _ => Iff.rfl
  | openAt dirFd path flags =>
    rcases openAt_cases fs dirFd path flags with ⟨⟨e, result⟩, -⟩ | ⟨d, name, opens, result⟩
    · exact unchanged (by rw [Call.perform, result])
    · exact .of_opened (fun _ same => by cases same) opens (by rw [Call.perform, result]) fun _ => Iff.rfl
  | write fd buf => exact .of_written rfl fun _ => Iff.rfl
  | writeAt fd offset buf => exact .of_written rfl fun _ => Iff.rfl
  | appendWrite fd buf => exact .of_written rfl fun _ => Iff.rfl
  | read fd wanted => exact unchanged (readThrough_node fs fd _ wanted)
  | readAt fd offset wanted => exact unchanged (readThrough_node fs fd _ wanted)
  | ftruncate fd size =>
    rcases ftruncate_node fs fd size with same | ⟨handle, stored, held, found, nodes⟩
    · exact unchanged same
    · rw [Call.perform, nodes, Function.update_apply]
      split
      · next same =>
        subst same
        exact .truncated found (by rw [Changes, holder, held]; rfl) size
      · exact .kept rfl
  | seek fd offset whence => exact unchanged (seek_node fs fd offset whence)
  | close fd => exact unchanged (close_node fs fd)
  | mkdir path =>
    rcases mkdir_node fs path with same | ⟨nodes, next⟩
    · exact unchanged (by rw [Call.perform, same])
    · exact .of_created true (fun _ same => by cases same) (by rw [Call.perform, nodes]; rfl) next
  | mkdirP path =>
    rcases (mkdirP_numbered fs path).nodes id with same | ⟨gone, k, fewer, number⟩
    -- Of the directories that are made, each gets a number of its own.
    · exact .kept same
    · rw [Call.perform, gone]
      exact .created true fewer number
  | unlink path => exact unchanged (unlink_node fs path)
  | rmdir path => exact unchanged (rmdir_node fs path)
  | rename oldPath newPath => exact unchanged (rename_node fs oldPath newPath)

end
end MonakaFs.FsCore
