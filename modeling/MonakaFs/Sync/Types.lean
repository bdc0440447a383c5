import Mathlib

/-! Shared types of the sync layer: preconditions, object metadata and errors. -/

set_option autoImplicit false

namespace MonakaFs.Sync

abbrev Bytes := List UInt8

/-- Condition attached to a write or a delete, evaluated atomically by the store. -/
inductive Precondition where
  | none
  | ifMatch (etag : String)
  | ifNoneMatchAny
  deriving DecidableEq, Repr

def Precondition.isIfMatch : Precondition → Bool
  | .ifMatch _ => true
  | _ => false

def Precondition.isIfNoneMatchAny : Precondition → Bool
  | .ifNoneMatchAny => true
  | _ => false

/-- Metadata of an object, by its key under the sync prefix. -/
structure ObjectMeta where
  key : String
  etag : String
  lastModified : Nat
  size : Nat
  deriving DecidableEq, Repr

/-- A listed object as a VFS path. -/
structure S3ObjectInfo where
  path : String
  etag : String
  lastModified : Nat
  size : Nat
  isDir : Bool
  deriving DecidableEq, Repr

inductive S3Error where
  | read (key message : String)
  | write (key message : String)
  | delete (key message : String)
  | preconditionFailed (key : String) (status : Nat) (code : String)
  | notFound (key : String)
  | notImplemented (key message : String)
  deriving DecidableEq, Repr

namespace S3Error

def isPreconditionFailed : S3Error → Bool
  | .preconditionFailed .. => true
  | _ => false

def isNotFound : S3Error → Bool
  | .notFound .. => true
  | _ => false

def isNotImplemented : S3Error → Bool
  | .notImplemented .. => true
  | _ => false

/-- An error that says nothing about the object: a timeout, a broken connection. -/
def isTransport : S3Error → Bool
  | .read .. | .write .. | .delete .. => true
  | _ => false

def message : S3Error → String
  | .read key text => s!"S3 read error for {key}: {text}"
  | .write key text => s!"S3 write error for {key}: {text}"
  | .delete key text => s!"S3 delete error for {key}: {text}"
  | .preconditionFailed key status code => s!"S3 precondition failed for {key} ({status} {code})"
  | .notFound key => s!"S3 object not found: {key}"
  | .notImplemented key text => s!"S3 operation not implemented for {key}: {text}"

theorem transport_kind {e : S3Error} (transport : e.isTransport = true) :
    e.isPreconditionFailed = false ∧ e.isNotFound = false ∧ e.isNotImplemented = false := by
  cases e <;> simp_all [isTransport, isPreconditionFailed, isNotFound, isNotImplemented]

end S3Error

/-- What the sync manager reports to its consumers. -/
inductive SyncError where
  | busy (path : String) (holder : Option String)
  | conflict (path : String) (refreshed : Bool)
  | fs (path message : String)
  | s3 (error : S3Error)
  deriving DecidableEq, Repr

namespace SyncError

def isConflict : SyncError → Bool
  | .conflict .. => true
  | _ => false

end SyncError

def fsError (path : String) (e : S3Error) : SyncError := .fs path e.message

end MonakaFs.Sync
