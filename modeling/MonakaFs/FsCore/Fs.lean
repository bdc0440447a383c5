import MonakaFs.FsCore.Paths
import MonakaFs.FsCore.Storage

/-! The filesystem: an inode table, a descriptor table, and its operations.

A reference to an inode is its number in the table. An operation that fails may
have changed the filesystem before it failed, so every operation returns both an
answer and the filesystem after it.
-/

set_option autoImplicit false

namespace MonakaFs.FsCore

inductive FileContent where
  | file (storage : BlockStorage)
  | dir (entries : Table String InodeId)

structure Inode where
  metadata : Metadata
  content : FileContent

namespace Inode

def newFile (timestamp : Nat) : Inode := ⟨⟨0, timestamp, timestamp, 0o644, false⟩, .file .new⟩

def newDir (timestamp : Nat) : Inode := ⟨⟨0, timestamp, timestamp, 0o755, true⟩, .dir ∅⟩

/-- The inode with another content, changed at this time. -/
def modify (inode : Inode) (content : FileContent) (timestamp : Nat) : Inode :=
  ⟨{ inode.metadata with modified := timestamp }, content⟩

/-- A file after its content was written; the size follows. -/
def store (inode : Inode) (storage : BlockStorage) (size timestamp : Nat) : Inode :=
  ⟨{ inode.metadata with size := size, modified := timestamp }, .file storage⟩

end Inode

structure Fs (T : Type) where
  nextInode : InodeId
  nextFd : Fd
  fdTable : Table Fd FileHandle
  inodeTable : Table InodeId Inode
  rootInode : InodeId
  timeProvider : T

/-- An answer, and the filesystem after it. -/
abbrev Outcome (T A : Type) := Except FsError A × Fs T

def accessMode (flags : Nat) : Nat := flags &&& 3

namespace Fs

section
variable {T : Type}

/-- No inodes and no descriptors; 0, 1 and 2 are taken. -/
def emptyWith (timeProvider : T) (rootInode nextInode : InodeId) : Fs T := ⟨nextInode, 3, ∅, ∅, rootInode, timeProvider⟩

def entries (fs : Fs T) (id : InodeId) : Option (Table String InodeId) :=
  (fs.inodeTable.lookup id).bind fun inode =>
    match inode.content with
    | .dir entries => some entries
    | .file _ => none

def isFile (fs : Fs T) (id : InodeId) : Bool :=
  (fs.inodeTable.lookup id).any fun inode =>
    match inode.content with
    | .file _ => true
    | .dir _ => false

def findInode (fs : Fs T) (parent : InodeId) (name : String) : Except FsError InodeId :=
  match fs.entries parent with
  | none => .error .notADirectory
  | some entries =>
      match entries.lookup name with
      | some id => if (fs.inodeTable.lookup id).isSome then .ok id else .error .notFound
      | none => .error .notFound

/-- Follow directories only. -/
def descend (fs : Fs T) : InodeId → List String → Except FsError InodeId
  | current, [] => .ok current
  | current, comp :: comps =>
      match fs.findInode current comp with
      | .error e => .error e
      | .ok next => if fs.isFile next then .error .notADirectory else descend fs next comps

/-- The directory that the last component is looked up in. -/
def findParent (fs : Fs T) (comps : List String) : Except FsError InodeId :=
  if (fs.inodeTable.lookup fs.rootInode).isSome then fs.descend fs.rootInode comps.dropLast else .error .notFound

/-- The directory and the last component of a path that must not be the root's. -/
def locate (fs : Fs T) (path : String) : Except FsError (InodeId × String) :=
  if path = "" then .error .invalidArgument
  else
    match (components path).getLast? with
    | none => .error .invalidArgument
    | some name => (fs.findParent (components path)).map fun parent => (parent, name)

def insertFd (fs : Fs T) (inodeId : InodeId) (flags : Nat) : Outcome T Fd :=
  (.ok fs.nextFd,
    { fs with nextFd := (fs.nextFd + 1) % 2 ^ 32, fdTable := AList.insert fs.nextFd ⟨inodeId, 0, flags⟩ fs.fdTable })

def setPosition (fs : Fs T) (fd : Fd) (position : Nat) : Fs T :=
  match fs.fdTable.lookup fd with
  | some handle => { fs with fdTable := AList.insert fd { handle with position := position } fs.fdTable }
  | none => fs

def close (fs : Fs T) (fd : Fd) : Outcome T Unit :=
  if (fs.fdTable.lookup fd).isSome then (.ok (), { fs with fdTable := AList.erase fd fs.fdTable })
  else (.error .badFileDescriptor, fs)

end

section
variable {T : Type} [TimeProvider T]

def withTimeProvider (timeProvider : T) : Fs T :=
  let clock := TimeProvider.now timeProvider
  { emptyWith clock.2 0 1 with inodeTable := AList.insert 0 (Inode.newDir clock.1) ∅ }

/-- Replace an inode by one that depends on the time. -/
def update (fs : Fs T) (id : InodeId) (inode : Nat → Inode) : Fs T :=
  let clock := TimeProvider.now fs.timeProvider
  { fs with timeProvider := clock.2, inodeTable := AList.insert id (inode clock.1) fs.inodeTable }

def createInode (fs : Fs T) (parentId : InodeId) (name : String) (isDir : Bool) : Outcome T InodeId :=
  match fs.inodeTable.lookup parentId with
  | none => (.error .notADirectory, fs)
  | some parent =>
      match parent.content with
      | .file _ => (.error .notADirectory, fs)
      | .dir entries =>
          if (entries.lookup name).isSome then (.error .alreadyExists, fs)
          else
            let id := fs.nextInode
            let clock := TimeProvider.now fs.timeProvider
            let inode := if isDir then Inode.newDir clock.1 else Inode.newFile clock.1
            let linked := parent.modify (.dir (AList.insert name id entries)) clock.1
            (.ok id,
              { fs with
                nextInode := toU64 (id + 1)
                timeProvider := clock.2
                inodeTable := AList.insert id inode (AList.insert parentId linked fs.inodeTable) })

/-- The inode that an open is about. -/
def findOrCreate (fs : Fs T) (parent : InodeId) (name : String) (flags : Nat) : Outcome T InodeId :=
  match fs.findInode parent name with
  | .ok id => (.ok id, fs)
  | .error e =>
      if e = .notFound ∧ flags &&& O_CREAT ≠ 0 then
        match fs.createInode parent name false with
        | (.ok id, fs) => (.ok id, fs)
        | (.error e, fs) =>
            -- another thread was faster, which matters for an exclusive create only
            if e = .alreadyExists ∧ flags &&& O_EXCL = 0 then (fs.findInode parent name, fs) else (.error e, fs)
      else (.error e, fs)

/-- The last steps of an open: refuse directories, truncate, hand out a descriptor. -/
def openInode (fs : Fs T) (id : InodeId) (flags : Nat) : Outcome T Fd :=
  match fs.inodeTable.lookup id with
  | none => (.error .notFound, fs)
  | some inode =>
      match inode.content with
      | .dir _ =>
          if accessMode flags = O_WRONLY ∨ accessMode flags = O_RDWR then (.error .isADirectory, fs)
          else if flags &&& O_TRUNC ≠ 0 then (.error .isADirectory, fs)
          else fs.insertFd id flags
      | .file storage =>
          if flags &&& O_TRUNC ≠ 0 then
            if accessMode flags = O_RDONLY then (.error .invalidArgument, fs)
            else (fs.update id (inode.store (storage.truncate 0) 0)).insertFd id flags
          else fs.insertFd id flags

/-- What both ways to open do once they have reached the directory. -/
def openEntry (fs : Fs T) (parent : InodeId) (name : String) (flags : Nat) : Outcome T Fd :=
  match fs.findOrCreate parent name flags with
  | (.error e, fs) => (.error e, fs)
  | (.ok id, fs) => fs.openInode id flags

def openPathWithFlags (fs : Fs T) (path : String) (flags : Nat) : Outcome T Fd :=
  if path = "" then (.error .invalidArgument, fs)
  else
    match (components path).getLast? with
    | none => fs.insertFd fs.rootInode flags
    | some name =>
        match fs.findParent (components path) with
        | .error e => (.error e, fs)
        | .ok parent => fs.openEntry parent name flags

def openAt (fs : Fs T) (dirFd : Fd) (path : String) (flags : Nat) : Outcome T Fd :=
  if ['/'].isPrefixOf path.toList then (.error .invalidArgument, fs)
  else
    match fs.fdTable.lookup dirFd with
    | none => (.error .badFileDescriptor, fs)
    | some handle =>
        if (fs.inodeTable.lookup handle.inodeId).isNone then (.error .notFound, fs)
        else if fs.isFile handle.inodeId then (.error .notADirectory, fs)
        else
          match (relativeComponents path).getLast? with
          | none => (.error .invalidArgument, fs)
          | some name =>
              match fs.descend handle.inodeId (relativeComponents path).dropLast with
              | .error e => (.error e, fs)
              | .ok parent => fs.openEntry parent name flags

/-- Write through a descriptor, at a position that depends on the file. -/
def writeThrough [Target] (fs : Fs T) (fd : Fd) (position : FileHandle → BlockStorage → Nat) (after : Nat → Nat → Nat)
    (buf : Bytes) : Outcome T Nat :=
  match fs.fdTable.lookup fd with
  | none => (.error .badFileDescriptor, fs)
  | some handle =>
      if accessMode handle.flags = O_RDONLY then (.error .permissionDenied, fs)
      else
        match fs.inodeTable.lookup handle.inodeId with
        | none => (.error .notFound, fs)
        | some inode =>
            match inode.content with
            | .dir _ => (.error .badFileDescriptor, fs)
            | .file storage =>
                let pos := position handle storage
                let written := storage.write (toUsize pos) buf
                (.ok buf.length,
                  (fs.update handle.inodeId (inode.store written (toU64 written.size))).setPosition fd (after pos buf.length))

def write [Target] (fs : Fs T) (fd : Fd) (buf : Bytes) : Outcome T Nat :=
  fs.writeThrough fd
    (fun handle storage => if handle.flags &&& O_APPEND ≠ 0 then storage.size else toUsize handle.position)
    (fun pos n => toU64 (toUsize (pos + n))) buf

/-- Write at an offset, whatever the flags say about appending. -/
def writeAt [Target] (fs : Fs T) (fd : Fd) (offset : Nat) (buf : Bytes) : Outcome T Nat :=
  fs.writeThrough fd (fun _ _ => offset) (fun pos n => toU64 (pos + n)) buf

def appendWrite [Target] (fs : Fs T) (fd : Fd) (buf : Bytes) : Outcome T Nat :=
  fs.writeThrough fd (fun _ storage => storage.size) (fun pos n => toU64 (toUsize (pos + n))) buf

/-- Read through a descriptor, from a position that depends on it. -/
def readThrough [Target] (fs : Fs T) (fd : Fd) (position : FileHandle → Nat) (wanted : Nat) : Outcome T Bytes :=
  match fs.fdTable.lookup fd with
  | none => (.error .badFileDescriptor, fs)
  | some handle =>
      if accessMode handle.flags = O_WRONLY then (.error .permissionDenied, fs)
      else
        match fs.inodeTable.lookup handle.inodeId with
        | none => (.error .notFound, fs)
        | some inode =>
            match inode.content with
            | .dir _ => (.error .badFileDescriptor, fs)
            | .file storage =>
                let bytes := storage.read (toUsize (position handle)) wanted
                (.ok bytes, fs.setPosition fd (toU64 (position handle + bytes.length)))

def read [Target] (fs : Fs T) (fd : Fd) (wanted : Nat) : Outcome T Bytes := fs.readThrough fd (·.position) wanted

def readAt [Target] (fs : Fs T) (fd : Fd) (offset wanted : Nat) : Outcome T Bytes :=
  fs.readThrough fd (fun _ => offset) wanted

def ftruncate [Target] (fs : Fs T) (fd : Fd) (size : Nat) : Outcome T Unit :=
  match fs.fdTable.lookup fd with
  | none => (.error .badFileDescriptor, fs)
  | some handle =>
      if accessMode handle.flags = O_RDONLY then (.error .permissionDenied, fs)
      else
        match fs.inodeTable.lookup handle.inodeId with
        | none => (.error .notFound, fs)
        | some inode =>
            match inode.content with
            | .dir _ => (.error .badFileDescriptor, fs)
            | .file storage => (.ok (), fs.update handle.inodeId (inode.store (storage.truncate (toUsize size)) size))

/-- A conversion to `i64`, or an operation on it, which wraps. -/
def toI64 (n : Int) : Int := n.bmod (2 ^ 64)

def seek (fs : Fs T) (fd : Fd) (offset whence : Int) : Outcome T Nat :=
  match fs.fdTable.lookup fd with
  | none => (.error .badFileDescriptor, fs)
  | some handle =>
      match fs.inodeTable.lookup handle.inodeId with
      | none => (.error .notFound, fs)
      | some inode =>
          match inode.content with
          | .dir _ => (.error .badFileDescriptor, fs)
          | .file storage =>
              let base := if whence = 0 then some 0
                else if whence = 1 then some (toI64 handle.position)
                else if whence = 2 then some (toI64 storage.size)
                else none
              match base with
              | none => (.error .invalidArgument, fs)
              | some base =>
                  let new := toI64 (base + offset)
                  if new < 0 then (.error .invalidArgument, fs)
                  else (.ok new.toNat, fs.setPosition fd new.toNat)

def stat (fs : Fs T) (path : String) : Except FsError Metadata :=
  if path = "" then .error .invalidArgument
  else
    match fs.inodeTable.lookup fs.rootInode with
    | none => .error .notFound
    | some _ => do
        let found ← (components path).foldlM (fun current comp => fs.findInode current comp) fs.rootInode
        match fs.inodeTable.lookup found with
        | some inode => return inode.metadata
        | none => throw .notFound

def fstat (fs : Fs T) (fd : Fd) : Except FsError Metadata :=
  match fs.fdTable.lookup fd with
  | none => .error .badFileDescriptor
  | some handle =>
      match fs.inodeTable.lookup handle.inodeId with
      | none => .error .notFound
      | some inode => .ok inode.metadata

def mkdir (fs : Fs T) (path : String) : Outcome T Unit :=
  match fs.locate path with
  | .error e => (.error e, fs)
  | .ok (parent, name) =>
      match fs.createInode parent name true with
      | (.error e, fs) => (.error e, fs)
      | (.ok _, fs) => (.ok (), fs)

/-- The loop of `mkdir_p` over the remaining components. -/
def mkdirPath (fs : Fs T) : InodeId → List String → Outcome T Unit
  | _, [] => (.ok (), fs)
  | current, comp :: comps =>
      match fs.findInode current comp with
      | .ok next => if fs.isFile next then (.error .notADirectory, fs) else fs.mkdirPath next comps
      | .error .notFound =>
          match fs.createInode current comp true with
          | (.ok next, fs) => fs.mkdirPath next comps
          | (.error .alreadyExists, fs) =>
              -- another thread was faster
              match fs.findInode current comp with
              | .ok next => fs.mkdirPath next comps
              | .error e => (.error e, fs)
          | (.error e, fs) => (.error e, fs)
      | .error e => (.error e, fs)

def mkdirP (fs : Fs T) (path : String) : Outcome T Unit :=
  if path = "" then (.error .invalidArgument, fs)
  else if components path = [] then (.ok (), fs)
  else if (fs.inodeTable.lookup fs.rootInode).isSome then fs.mkdirPath fs.rootInode (components path)
  else (.error .notFound, fs)

/-- Take an entry out of a directory. Its inode stays in the table. -/
def removeEntry (fs : Fs T) (parentId : InodeId) (name : String) : Outcome T Unit :=
  match fs.inodeTable.lookup parentId with
  | none => (.error .notADirectory, fs)
  | some parent =>
      match parent.content with
      | .file _ => (.error .notADirectory, fs)
      | .dir entries => (.ok (), fs.update parentId (parent.modify (.dir (AList.erase name entries))))

def unlink (fs : Fs T) (path : String) : Outcome T Unit :=
  match fs.locate path with
  | .error e => (.error e, fs)
  | .ok (parent, name) =>
      match fs.findInode parent name with
      | .error e => (.error e, fs)
      | .ok target => if fs.isFile target then fs.removeEntry parent name else (.error .isADirectory, fs)

def rmdir (fs : Fs T) (path : String) : Outcome T Unit :=
  match fs.locate path with
  | .error e => (.error e, fs)
  | .ok (parent, name) =>
      match fs.findInode parent name with
      | .error e => (.error e, fs)
      | .ok target =>
          match fs.entries target with
          | none => (.error .notADirectory, fs)
          | some entries => if entries.keys = [] then fs.removeEntry parent name else (.error .notEmpty, fs)

def isDir (fs : Fs T) (id : InodeId) : Bool := (fs.inodeTable.lookup id).any (·.metadata.isDir)

/-- Why a rename may not replace what is at its destination. -/
def replaceError (fs : Fs T) (source dest : InodeId) : Option FsError :=
  if fs.isDir source ∧ ¬ fs.isDir dest then some .notADirectory
  else if ¬ fs.isDir source ∧ fs.isDir dest then some .isADirectory
  else if fs.isDir dest ∧ (fs.entries dest).any (·.keys ≠ []) then some .notEmpty
  else none

/-- Take the entry out of one directory and put it into another, or the same. -/
def moveEntry (fs : Fs T) (oldParentId : InodeId) (oldName : String) (newParentId : InodeId) (newName : String) :
    Outcome T Unit :=
  let clock := TimeProvider.now fs.timeProvider
  let fs := { fs with timeProvider := clock.2 }
  match fs.inodeTable.lookup oldParentId with
  | none => (.error .notADirectory, fs)
  | some oldParent =>
      match oldParent.content with
      | .file _ => (.error .notADirectory, fs)
      | .dir oldEntries =>
          match oldEntries.lookup oldName with
          | none => (.error .notFound, fs)
          | some id =>
              let taken := AList.erase oldName oldEntries
              if oldParentId = newParentId then
                let moved := oldParent.modify (.dir (AList.insert newName id taken)) clock.1
                (.ok (), { fs with inodeTable := AList.insert oldParentId moved fs.inodeTable })
              else
                let fs := { fs with inodeTable := AList.insert oldParentId (oldParent.modify (.dir taken) clock.1) fs.inodeTable }
                match fs.inodeTable.lookup newParentId with
                | none => (.error .notADirectory, fs)
                | some newParent =>
                    match newParent.content with
                    | .file _ => (.error .notADirectory, fs)
                    | .dir newEntries =>
                        let moved := newParent.modify (.dir (AList.insert newName id newEntries)) clock.1
                        (.ok (), { fs with inodeTable := AList.insert newParentId moved fs.inodeTable })

def rename (fs : Fs T) (oldPath newPath : String) : Outcome T Unit :=
  if oldPath = "" ∨ newPath = "" then (.error .invalidArgument, fs)
  else
    match (components oldPath).getLast?, (components newPath).getLast? with
    | some oldName, some newName =>
        if components oldPath = components newPath then (.ok (), fs)
        else
          match fs.findParent (components oldPath) with
          | .error e => (.error e, fs)
          | .ok oldParent =>
              match fs.findInode oldParent oldName with
              | .error e => (.error e, fs)
              | .ok source =>
                  match fs.findParent (components newPath) with
                  | .error e => (.error e, fs)
                  | .ok newParent =>
                      match (fs.findInode newParent newName).toOption.bind (fs.replaceError source) with
                      | some e => (.error e, fs)
                      | none => fs.moveEntry oldParent oldName newParent newName
    | _, _ => (.error .invalidArgument, fs)

end

def new : Fs MonotonicCounter := withTimeProvider .new

end Fs
end MonakaFs.FsCore
