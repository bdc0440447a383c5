import MonakaFs.Sync.Lease

/-! Configuration and the state a sync manager keeps behind its locks.

Durations and instants are milliseconds.
-/

set_option autoImplicit false

namespace MonakaFs.Sync

/-- A queued change. A delete carries the last ETag known when it was queued. -/
inductive SyncOperation where
  | upload (path : String)
  | delete (path : String) (etag : Option String)
  deriving DecidableEq, Repr

namespace SyncOperation

def path : SyncOperation → String
  | .upload path => path
  | .delete path _ => path

def isDelete : SyncOperation → Bool
  | .upload _ => false
  | .delete .. => true

end SyncOperation

inductive SyncMode where
  | batch
  | realTime
  deriving DecidableEq, Repr

/-- How changes in S3 reach this instance. -/
inductive InboundMode where
  | none
  | polling
  | readThrough
  deriving DecidableEq, Repr

inductive MetadataMode where
  | local
  | s3
  deriving DecidableEq, Repr

structure SyncConfig where
  mode : SyncMode
  inboundMode : InboundMode
  metadataMode : MetadataMode
  pollInterval : Nat
  flushInterval : Nat
  outboundBatchSize : Nat
  fileLock : Bool
  lockTimeout : Nat
  lockLease : Nat
  deriving DecidableEq, Repr

structure SyncedFileMetadata where
  etag : String
  lastModified : Nat
  localModified : Nat
  size : Nat
  deriving DecidableEq, Repr

/-- What this instance last saw: file ETags, and the marker ETags of directories. -/
structure MetadataCache where
  files : Map SyncedFileMetadata
  directories : Map String
  deriving DecidableEq

namespace MetadataCache

def empty : MetadataCache := ⟨∅, ∅⟩

def updateAfterUpload (cache : MetadataCache) (path etag : String) (size localModified timestamp : Nat) :
    MetadataCache :=
  { cache with files := cache.files.insert path ⟨etag, timestamp, localModified, size⟩ }

def updateAfterDownload (cache : MetadataCache) (path etag : String) (lastModified size : Nat) :
    MetadataCache :=
  { cache with files := cache.files.insert path ⟨etag, lastModified, lastModified, size⟩ }

def get (cache : MetadataCache) (path : String) : Option SyncedFileMetadata := cache.files.lookup path

def remove (path : String) (cache : MetadataCache) : MetadataCache :=
  { cache with files := cache.files.erase path }

def paths (cache : MetadataCache) : List String := cache.files.keys

def addDir (path etag : String) (cache : MetadataCache) : MetadataCache :=
  { cache with directories := cache.directories.insert path etag }

def removeDir (path : String) (cache : MetadataCache) : MetadataCache :=
  { cache with directories := cache.directories.erase path }

def dirEtag (cache : MetadataCache) (path : String) : Option String := cache.directories.lookup path

def hasDir (cache : MetadataCache) (path : String) : Bool := (cache.directories.lookup path).isSome

def dirs (cache : MetadataCache) : List String := cache.directories.keys

/-- The ETag cached for a file. -/
def etag (cache : MetadataCache) (path : String) : Option String := (cache.get path).map (·.etag)

section
variable (cache : MetadataCache) (path path' etag : String) (size modified timestamp : Nat)

@[simp] theorem etag_empty : empty.etag path = none := rfl

@[simp] theorem etag_updateAfterUpload :
    (cache.updateAfterUpload path etag size modified timestamp).etag path' =
      if path' = path then some etag else cache.etag path' := by
  simp only [MetadataCache.etag, get, updateAfterUpload, Map.lookup_insert_eq]
  split <;> rfl

@[simp] theorem etag_updateAfterDownload :
    (cache.updateAfterDownload path etag modified size).etag path' =
      if path' = path then some etag else cache.etag path' := by
  simp only [MetadataCache.etag, get, updateAfterDownload, Map.lookup_insert_eq]
  split <;> rfl

@[simp] theorem etag_remove :
    (cache.remove path).etag path' = if path' = path then none else cache.etag path' := by
  simp only [MetadataCache.etag, get, remove, Map.lookup_erase_eq]
  split <;> rfl

@[simp] theorem etag_addDir : (cache.addDir path etag).etag path' = cache.etag path' := rfl

@[simp] theorem etag_removeDir : (cache.removeDir path).etag path' = cache.etag path' := rfl

end

end MetadataCache

/-- What the background tick looks at: the last poll, the last flush, the shutdown flag. -/
structure Schedule where
  lastPoll : Nat
  lastFlush : Nat
  shutdown : Bool
  deriving DecidableEq, Repr

/-- The mutable part of a sync manager, one field for each lock. -/
structure ManagerState where
  outboundQueue : List SyncOperation
  metadataCache : MetadataCache
  leases : LeaseTable
  schedule : Schedule
  deriving DecidableEq

namespace ManagerState

/-- `SyncManager::new` at a given instant. -/
def new (cache : MetadataCache) (now : Nat) : ManagerState := ⟨[], cache, ∅, ⟨now, now, false⟩⟩

/-- The base of the lease on a path, if it is leased and has one. -/
def baseEtag (state : ManagerState) (path : String) : Option String := state.leases.base path

end ManagerState

/-- The fixed part of a sync manager. -/
structure SyncManager where
  instanceId : InstanceId
  config : SyncConfig

end MonakaFs.Sync
