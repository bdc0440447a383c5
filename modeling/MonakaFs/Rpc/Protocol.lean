import MonakaFs.FsCore.Fs
import MonakaFs.Sync.Types

/-! Requests and responses between a client and the server. -/

set_option autoImplicit false

namespace MonakaFs.Rpc

open FsCore

/-- Protocol version spoken by this build. -/
def PROTOCOL_VERSION : Nat := 2

/-- Oldest protocol version a server still accepts. -/
def MIN_PROTOCOL_VERSION : Nat := 1

def negotiateVersion (client : Nat) : Option Nat :=
  if MIN_PROTOCOL_VERSION ≤ client ∧ client ≤ PROTOCOL_VERSION then some client else none

inductive ErrorCode where
  | notFound
  | notADirectory
  | isADirectory
  | invalidArgument
  | badFileDescriptor
  | permissionDenied
  | alreadyExists
  | notEmpty
  | networkError
  | protocolError
  | serializationError
  | io
  | busy
  | conflict
  deriving DecidableEq, Repr

inductive Request where
  | connect (version : Nat)
  | openPath (path : String) (flags : Nat)
  | openAt (dirFd : Fd) (path : String) (flags : Nat)
  | read (fd : Fd) (length : Nat)
  | write (fd : Fd) (data : Bytes)
  | close (fd : Fd)
  | seek (fd : Fd) (offset whence : Int)
  | ftruncate (fd : Fd) (size : Nat)
  | stat (path : String)
  | fstat (fd : Fd)
  | mkdir (path : String)
  | mkdirP (path : String)
  | unlink (path : String)
  | readdir (path : String)
  | readdirFd (fd : Fd)
  | rmdir (path : String)
  | appendWrite (fd : Fd) (data : Bytes)
  | rename (oldPath newPath : String)
  | fsync (fd : Fd)

structure FileMetadata where
  size : Nat
  created : Nat
  modified : Nat
  isDir : Bool
  deriving DecidableEq, Repr

inductive Response where
  | connected (sessionId : String) (version : Nat)
  | ok
  | fd (fd : Fd)
  | data (bytes : Bytes)
  | written (count : Nat)
  | position (pos : Nat)
  | metadata (metadata : FileMetadata)
  | dirEntries (entries : List (String × Bool))
  | error (code : ErrorCode) (message : String)
  deriving DecidableEq

/-- Map a filesystem error to the protocol's error response. -/
def mapFsError : FsError → Response
  | .notFound => .error .notFound "Not found"
  | .notADirectory => .error .notADirectory "Not a directory"
  | .isADirectory => .error .isADirectory "Is a directory"
  | .invalidArgument => .error .invalidArgument "Invalid argument"
  | .badFileDescriptor => .error .badFileDescriptor "Bad file descriptor"
  | .permissionDenied => .error .permissionDenied "Permission denied"
  | .alreadyExists => .error .alreadyExists "Already exists"
  | .notEmpty => .error .notEmpty "Directory not empty"

/-- The text of a sync error. -/
def syncMessage : Sync.SyncError → String
  | .busy path (some holder) => s!"{path} is locked by instance {holder}"
  | .busy path none => s!"{path} is locked by another instance"
  | .conflict path true => s!"{path} changed in S3 concurrently (local copy refreshed)"
  | .conflict path false => s!"{path} changed in S3 concurrently"
  | .fs path text => s!"filesystem error for {path}: {text}"
  | .s3 e => e.message

def syncCode : Sync.SyncError → ErrorCode
  | .busy _ _ => .busy
  | .conflict _ _ => .conflict
  | .fs _ _ => .io
  | .s3 _ => .io

/-- Map a sync error to the protocol's error response. -/
def mapSyncError (e : Sync.SyncError) : Response := .error (syncCode e) (syncMessage e)

def fileMetadata (metadata : Metadata) : FileMetadata :=
  ⟨metadata.size, metadata.created, metadata.modified, metadata.isDir⟩

end MonakaFs.Rpc
