import MonakaFs.Async.Interleaving
import MonakaFs.FsCore.Refusals

/-! The thread-safe build: an operation is a sequence of lock sections.

Every inode has a lock of its own, and an operation takes one after the other: it walks
from directory to directory, looks at what it found, and changes the directory at the
end. A point is where an operation stands before its next section. A thread that
nobody interrupts does what the operation does in one piece.
-/

set_option autoImplicit false

namespace MonakaFs.FsCore

open Async

/-- The two ways to take an entry away. -/
inductive Removal where
  | unlink
  | rmdir
  deriving DecidableEq

/-- What an operation does in the directory where its walk ends. -/
inductive Goal where
  | openEntry (flags : Nat)
  | mkdir
  | remove (removal : Removal)
  | renameFrom (newName : String) (newDirs : List String)
  | renameTo (oldParent : InodeId) (oldName : String) (sourceIsDir : Bool)

/-- The section that comes next. -/
inductive Point where
  | done (answer : Except FsError (Option Fd))
  | root (goal : Goal) (name : String) (comps : List String)
  | handle (dirFd : Fd) (path : String) (flags : Nat)
  | present (dir : InodeId) (path : String) (flags : Nat)
  | directory (dir : InodeId) (path : String) (flags : Nat)
  | find (goal : Goal) (name : String) (current : InodeId) (comp : String) (comps : List String)
  | check (goal : Goal) (name : String) (next : InodeId) (comps : List String)
  | lookup (flags : Nat) (parent : InodeId) (name : String)
  | create (flags : Nat) (parent : InodeId) (name : String)
  | again (flags : Nat) (parent : InodeId) (name : String)
  | kind (flags : Nat) (id : InodeId)
  | truncate (flags : Nat) (id : InodeId)
  | allocate (flags : Nat) (id : InodeId)
  | insert (fd : Fd) (flags : Nat) (id : InodeId)
  | createDir (parent : InodeId) (name : String)
  | pathRoot (comps : List String)
  | pathFind (current : InodeId) (comp : String) (comps : List String)
  | pathCheck (next : InodeId) (comps : List String)
  | pathCreate (current : InodeId) (comp : String) (comps : List String)
  | pathAgain (current : InodeId) (comp : String) (comps : List String)
  | victim (removal : Removal) (parent : InodeId) (name : String)
  | inspect (removal : Removal) (parent : InodeId) (name : String) (target : InodeId)
  | remove (removal : Removal) (parent : InodeId) (name : String)
  | source (oldParent : InodeId) (oldName newName : String) (newDirs : List String)
  | sourceKind (oldParent : InodeId) (oldName : String) (source : InodeId) (newName : String) (newDirs : List String)
  | dest (oldParent : InodeId) (oldName : String) (sourceIsDir : Bool) (newParent : InodeId) (newName : String)
  | destKind (oldParent : InodeId) (oldName : String) (sourceIsDir : Bool) (newParent : InodeId) (newName : String)
      (dest : InodeId)
  | move (oldParent : InodeId) (oldName : String) (newParent : InodeId) (newName : String)

def Point.fail (e : FsError) : Point := .done (.error e)

namespace Goal

def arrive (goal : Goal) (name : String) (parent : InodeId) : Point :=
  match goal with
  | .openEntry flags => .lookup flags parent name
  | .mkdir => .createDir parent name
  | .remove removal => .victim removal parent name
  | .renameFrom newName newDirs => .source parent name newName newDirs
  | .renameTo oldParent oldName sourceIsDir => .dest oldParent oldName sourceIsDir parent name

def walk (goal : Goal) (name : String) (current : InodeId) : List String → Point
  | [] => goal.arrive name current
  | comp :: comps => .find goal name current comp comps

end Goal

/-- The loop of `mkdir_p` over the remaining components. -/
def Point.path (current : InodeId) : List String → Point
  | [] => .done (.ok none)
  | comp :: comps => .pathFind current comp comps

/-- After an open has refused directories. -/
def Point.opened (flags : Nat) (id : InodeId) : Point :=
  if flags &&& O_TRUNC ≠ 0 then
    if accessMode flags = O_RDONLY then .fail .invalidArgument else .truncate flags id
  else .allocate flags id

/-- Why a rename may not replace what is at its destination, once the source was looked at. -/
def Fs.refuses {T : Type} (fs : Fs T) (sourceIsDir : Bool) (dest : InodeId) : Option FsError :=
  if sourceIsDir ∧ ¬ fs.isDir dest then some .notADirectory
  else if ¬ sourceIsDir ∧ fs.isDir dest then some .isADirectory
  else if fs.isDir dest ∧ (fs.entries dest).any (·.keys ≠ []) then some .notEmpty
  else none

section
variable {T : Type} [TimeProvider T]

/-- The section that truncates, which looks at the content once more. -/
def Fs.clear (fs : Fs T) (id : InodeId) : Fs T :=
  match fs.inodeTable.lookup id with
  | none => fs
  | some inode =>
      match inode.content with
      | .dir _ => fs
      | .file storage => fs.update id (inode.store (storage.truncate 0) 0)

def Point.step : Point → Fs T → Point × Fs T
  | .done answer, fs => (.done answer, fs)
  | .root goal name comps, fs =>
      if (fs.inodeTable.lookup fs.rootInode).isSome then (goal.walk name fs.rootInode comps, fs) else (.fail .notFound, fs)
  | .handle dirFd path flags, fs =>
      match fs.fdTable.lookup dirFd with
      | none => (.fail .badFileDescriptor, fs)
      | some held => (.present held.inodeId path flags, fs)
  | .present dir path flags, fs =>
      if (fs.inodeTable.lookup dir).isNone then (.fail .notFound, fs) else (.directory dir path flags, fs)
  | .directory dir path flags, fs =>
      if fs.isFile dir then (.fail .notADirectory, fs)
      else
        match (relativeComponents path).getLast? with
        | none => (.fail .invalidArgument, fs)
        | some name => ((Goal.openEntry flags).walk name dir (relativeComponents path).dropLast, fs)
  | .find goal name current comp comps, fs =>
      match fs.findInode current comp with
      | .error e => (.fail e, fs)
      | .ok next => (.check goal name next comps, fs)
  | .check goal name next comps, fs =>
      if fs.isFile next then (.fail .notADirectory, fs) else (goal.walk name next comps, fs)
  | .lookup flags parent name, fs =>
      match fs.findInode parent name with
      | .ok id => (.kind flags id, fs)
      | .error e => if e = .notFound ∧ flags &&& O_CREAT ≠ 0 then (.create flags parent name, fs) else (.fail e, fs)
  | .create flags parent name, fs =>
      match fs.createInode parent name false with
      | (.ok id, fs) => (.kind flags id, fs)
      | (.error e, fs) =>
          if e = .alreadyExists ∧ flags &&& O_EXCL = 0 then (.again flags parent name, fs) else (.fail e, fs)
  | .again flags parent name, fs =>
      match fs.findInode parent name with
      | .error e => (.fail e, fs)
      | .ok id => (.kind flags id, fs)
  | .kind flags id, fs =>
      if (fs.entries id).isSome ∧ (accessMode flags = O_WRONLY ∨ accessMode flags = O_RDWR ∨ flags &&& O_TRUNC ≠ 0) then
        (.fail .isADirectory, fs)
      else (.opened flags id, fs)
  | .truncate flags id, fs => (.allocate flags id, fs.clear id)
  | .allocate flags id, fs => (.insert fs.nextFd flags id, { fs with nextFd := (fs.nextFd + 1) % 2 ^ 32 })
  | .insert fd flags id, fs => (.done (.ok (some fd)), { fs with fdTable := AList.insert fd ⟨id, 0, flags⟩ fs.fdTable })
  | .createDir parent name, fs =>
      match fs.createInode parent name true with
      | (.error e, fs) => (.fail e, fs)
      | (.ok _, fs) => (.done (.ok none), fs)
  | .pathRoot comps, fs =>
      if (fs.inodeTable.lookup fs.rootInode).isSome then (.path fs.rootInode comps, fs) else (.fail .notFound, fs)
  | .pathFind current comp comps, fs =>
      match fs.findInode current comp with
      | .ok next => (.pathCheck next comps, fs)
      | .error .notFound => (.pathCreate current comp comps, fs)
      | .error e => (.fail e, fs)
  | .pathCheck next comps, fs => if fs.isFile next then (.fail .notADirectory, fs) else (.path next comps, fs)
  | .pathCreate current comp comps, fs =>
      match fs.createInode current comp true with
      | (.ok next, fs) => (.path next comps, fs)
      | (.error .alreadyExists, fs) => (.pathAgain current comp comps, fs)
      | (.error e, fs) => (.fail e, fs)
  | .pathAgain current comp comps, fs =>
      -- what another thread created is not looked at
      match fs.findInode current comp with
      | .ok next => (.path next comps, fs)
      | .error e => (.fail e, fs)
  | .victim removal parent name, fs =>
      match fs.findInode parent name with
      | .error e => (.fail e, fs)
      | .ok target => (.inspect removal parent name target, fs)
  | .inspect .unlink parent name target, fs =>
      if fs.isFile target then (.remove .unlink parent name, fs) else (.fail .isADirectory, fs)
  | .inspect .rmdir parent name target, fs =>
      match fs.entries target with
      | none => (.fail .notADirectory, fs)
      | some entries => if entries.keys = [] then (.remove .rmdir parent name, fs) else (.fail .notEmpty, fs)
  | .remove _ parent name, fs => ((fs.removeEntry parent name).1.map (fun _ => none) |> .done, (fs.removeEntry parent name).2)
  | .source oldParent oldName newName newDirs, fs =>
      match fs.findInode oldParent oldName with
      | .error e => (.fail e, fs)
      | .ok found => (.sourceKind oldParent oldName found newName newDirs, fs)
  | .sourceKind oldParent oldName found newName newDirs, fs =>
      ((Goal.renameTo oldParent oldName (fs.isDir found)).walk newName fs.rootInode newDirs, fs)
  | .dest oldParent oldName sourceIsDir newParent newName, fs =>
      match fs.findInode newParent newName with
      | .error _ => (.move oldParent oldName newParent newName, fs)
      | .ok found => (.destKind oldParent oldName sourceIsDir newParent newName found, fs)
  | .destKind oldParent oldName sourceIsDir newParent newName found, fs =>
      match fs.refuses sourceIsDir found with
      | some e => (.fail e, fs)
      | none => (.move oldParent oldName newParent newName, fs)
  | .move oldParent oldName newParent newName, fs =>
      ((fs.moveEntry oldParent oldName newParent newName).1.map (fun _ => none) |> .done,
        (fs.moveEntry oldParent oldName newParent newName).2)

-- the equations of a step are derived here, once and not in every proof
attribute [local simp] Point.step

end

/-! ### What threads run -/

/-- The operations on names. -/
inductive Task where
  | openPathWithFlags (path : String) (flags : Nat)
  | openAt (dirFd : Fd) (path : String) (flags : Nat)
  | mkdir (path : String)
  | mkdirP (path : String)
  | unlink (path : String)
  | rmdir (path : String)
  | rename (oldPath newPath : String)

/-- An operation that first looks for the directory of a path that must not be the root's. -/
def Goal.begin (goal : Goal) (path : String) : Point :=
  if path = "" then .fail .invalidArgument
  else
    match (components path).getLast? with
    | none => .fail .invalidArgument
    | some name => .root goal name (components path).dropLast

/-- What is decided before the first section. -/
def Task.begin (root : InodeId) : Task → Point
  | .openPathWithFlags path flags =>
      if path = "" then .fail .invalidArgument
      else
        match (components path).getLast? with
        | none => .allocate flags root
        | some name => .root (.openEntry flags) name (components path).dropLast
  | .openAt dirFd path flags =>
      if ['/'].isPrefixOf path.toList then .fail .invalidArgument else .handle dirFd path flags
  | .mkdir path => Goal.mkdir.begin path
  | .mkdirP path =>
      if path = "" then .fail .invalidArgument
      else if components path = [] then .done (.ok none)
      else .pathRoot (components path)
  | .unlink path => (Goal.remove .unlink).begin path
  | .rmdir path => (Goal.remove .rmdir).begin path
  | .rename oldPath newPath =>
      if oldPath = "" ∨ newPath = "" then .fail .invalidArgument
      else
        match (components oldPath).getLast?, (components newPath).getLast? with
        | some oldName, some newName =>
            if components oldPath = components newPath then .done (.ok none)
            else .root (.renameFrom newName (components newPath).dropLast) oldName (components oldPath).dropLast
        | _, _ => .fail .invalidArgument

end MonakaFs.FsCore
