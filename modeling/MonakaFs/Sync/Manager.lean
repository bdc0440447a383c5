import MonakaFs.Sync.Acquire

/-! The sync manager.

Every function is a program over the operations of `Op`, in the order in which
the source performs them. Loops that wait for somebody else carry a bound on
their rounds; a program cut off there is one that still waits.
-/

set_option autoImplicit false

namespace MonakaFs.Sync

open Async

structure SyncStats where
  downloaded : Nat := 0
  deleted : Nat := 0
  deriving DecidableEq, Repr

inductive LoadError where
  | s3 (source : S3Error)
  | fs (error : S3Error)
  deriving DecidableEq, Repr

def baseCond : Option String → Precondition
  | some etag => .ifMatch etag
  | none => .ifNoneMatchAny

namespace SyncManager

variable {F : Type} (manager : SyncManager)

/-- Queue an upload. A leased path is only marked dirty. -/
def enqueueUpload (path : String) : Task F Unit := do
  let leases ← withLeases (·.alter path fun lease => { lease with dirty := true, pendingDelete := false })
  if (leases.lookup path).isSome then return ()
  let _ ← withQueue fun queue => queue.filter (·.path ≠ path) ++ [.upload path]

/-- Queue a deletion with the ETag cached for the path, and drop the cache entry. -/
def enqueueDelete (path : String) : Task F Unit := do
  let leases ← withLeases (·.alter path fun lease => { lease with pendingDelete := true, dirty := false })
  if (leases.lookup path).isSome then return ()
  let cache ← withCache (·.remove path)
  let _ ← withQueue fun queue => queue.filter (·.path ≠ path) ++ [.delete path (cache.etag path)]

def isLocked (path : String) : Task F Bool := do
  let leases ← withLeases id
  return (leases.lookup path).isSome

def hasPendingOp (path : String) : Task F Bool := do
  let queue ← withQueue id
  return queue.any fun op => op.path = path

theorem isLocked_bind {B : Type} (path : String) (k : Bool → Task F B) :
    (isLocked path >>= k) = next (.leases id) fun leases => k (leases.lookup path).isSome := rfl

theorem hasPendingOp_bind {B : Type} (path : String) (k : Bool → Task F B) :
    (hasPendingOp path >>= k) = next (.queue id) fun queue => k (queue.any fun op => op.path = path) := rfl

/-! ### Outbound -/

/-- Precondition of the next write: the lease base, else the cached ETag, else "must not exist". -/
def condForUpload (path : String) : Task F Precondition := do
  let leases ← withLeases id
  match leases.lookup path with
  | some lease => return baseCond lease.baseEtag
  | none =>
      let cache ← withCache id
      return baseCond (cache.etag path)

/-- Whether a remote ETag counts as the outcome of a PUT under this condition. -/
def landed (cond : Precondition) (remoteEtag : String) : Bool :=
  match cond with
  | .ifNoneMatchAny => true
  | .ifMatch base => decide (remoteEtag ≠ base)
  | .none => false

/-- HEAD the object after a PUT that failed without an answer about the condition. -/
def verifyUploadLanded (path : String) (cond : Precondition) : Task F (Option String) := do
  match ← headFile path with
  | .ok (some info) => return if landed cond info.etag then some info.etag else none
  | _ => return none

/-- The existence checks before a write in S3 passthrough mode. -/
def passthroughChecks (path : String) : Task F (Except S3Error Unit) := do
  if manager.config.metadataMode = .s3 then
    let file ← headFile path
    let dir ← headDirMarker path
    let children ← hasChildren path
    return (file >>= fun _ => dir) >>= fun _ => children >>= fun _ => .ok ()
  else return .ok ()

/-- The PUT of an upload with its retries. -/
def putUpload (path : String) (content : Bytes) (cond : Precondition) : Task F (Except S3Error String) := do
  match ← putFile path content cond with
  | .ok etag => return .ok etag
  | .error e =>
      if e.isNotFound && cond.isIfMatch then
        putFile path content .ifNoneMatchAny
      else if e.isPreconditionFailed && cond.isIfNoneMatchAny then
        match ← headFile path with
        | .error failed => return .error failed
        | .ok (some _) => return .error e
        | .ok none => putFile path content .ifNoneMatchAny
      else if !e.isPreconditionFailed then
        match ← verifyUploadLanded path cond with
        | some etag => return .ok etag
        | none => return .error e
      else return .error e

/-- Record an acknowledged upload in the cache and in a held lease. -/
def recordUpload (path etag : String) (size localModified : Nat) : Task F Unit := do
  let now ← instant
  let _ ← withCache fun cache => cache.updateAfterUpload path etag size localModified (now / 1000)
  let _ ← withLeases (·.alter path fun lease => { lease with baseEtag := some etag, dirty := false })

/-- Read a file from the local filesystem and PUT it under a condition. -/
def uploadWithCond (path : String) (cond : Precondition) : Task F (Except SyncError String) := do
  match ← onFs (.readFileContent path) with
  | .error e => return .error (fsError path e)
  | .ok content =>
      let localModified ← onFs (.statModified path)
      match ← manager.passthroughChecks path with
      | .error e => return .error (.s3 e)
      | .ok () =>
          match ← putUpload path content cond with
          | .error e => return .error (.s3 e)
          | .ok etag =>
              recordUpload path etag content.length localModified
              return .ok etag

/-- Write a downloaded version into the local filesystem and record it in the cache. -/
def storeDownload (path : String) (content : Bytes) (info : ObjectMeta) : Task F (Except S3Error Unit) := do
  match ← onFs (.writeFileContent path content) with
  | .error e => return .error e
  | .ok () =>
      let _ ← withCache fun cache => cache.updateAfterDownload path info.etag info.lastModified content.length
      return .ok ()

/-- Replace the local copy by the current object; whether that succeeded. -/
def refreshLocalFromRemote (path : String) : Task F Bool := do
  match ← getFile path with
  | .ok (some (content, info)) =>
      match ← storeDownload path content info with
      | .error _ => return false
      | .ok () =>
          let _ ← withLeases (·.alter path fun lease => { lease with baseEtag := some info.etag, dirty := false })
          return true
  | .ok none =>
      let _ ← withCache (·.remove path)
      let _ ← withLeases (·.alter path fun lease => { lease with baseEtag := none })
      return false
  | .error _ => return false

/-- The remote version won: pull it and report the conflict. -/
def conflict (path : String) : Task F SyncError := do
  let refreshed ← refreshLocalFromRemote path
  return .conflict path refreshed

/-- A conditional upload was rejected: overwrite if leases are disabled, else keep the remote version. -/
def handleUploadConflict (path : String) : Task F (Except SyncError Unit) := do
  if manager.config.fileLock = false then
    match ← manager.uploadWithCond path .none with
    | .ok _ => return .ok ()
    | .error e => return .error e
  else
    let e ← conflict path
    return .error e

def isRejection : SyncError → Bool
  | .s3 e => e.isPreconditionFailed
  | _ => false

def syncFileNow (path : String) : Task F (Except SyncError Unit) := do
  let cond ← condForUpload path
  match ← manager.uploadWithCond path cond with
  | .ok _ => return .ok ()
  | .error e => if isRejection e then manager.handleUploadConflict path else return .error e

/-! ### Inbound, one file -/

/-- Refresh one file from S3, unless it is leased. -/
def refreshFileFromS3 (path : String) : Task F (Except SyncError Unit) := do
  if ← isLocked path then return .ok ()
  match ← getFile path with
  | .error e => return .error (.s3 e)
  | .ok none => return .ok ()
  | .ok (some (content, info)) =>
      match ← storeDownload path content info with
      | .error e => return .error (fsError path e)
      | .ok () => return .ok ()

/-- HEAD, then GET into the local filesystem when the ETag differs from the cached one.
The remote ETag, and whether the file was refreshed. -/
def headAndRefresh (path : String) : Task F (Except SyncError (Option String × Bool)) := do
  match ← headFile path with
  | .error e => return .error (.s3 e)
  | .ok none => return .ok (none, false)
  | .ok (some found) =>
      let cache ← withCache id
      if cache.etag path = some found.etag then return .ok (some found.etag, false)
      match ← getFile path with
      | .error e => return .error (.s3 e)
      | .ok none => return .ok (none, false)
      | .ok (some (content, info)) =>
          match ← storeDownload path content info with
          | .error e => return .error (fsError path e)
          | .ok () => return .ok (some info.etag, true)

def checkAndRefreshFromS3 (path : String) : Task F (Except SyncError Bool) := do
  if ← isLocked path then return .ok false
  let refreshed ← headAndRefresh path
  return refreshed.map (·.2)

/-! ### Leases -/

/-- Join a lease this instance already holds, waiting while its last closer releases it. -/
def joinHeld (path : String) : Nat → Task F Bool
  | 0 => .halt
  | rounds + 1 => do
      let leases ← withLeases (·.alter path fun lease =>
        if lease.releasing then lease else { lease with refcount := lease.refcount + 1 })
      match leases.lookup path with
      | none => return false
      | some lease =>
          if lease.releasing then
            sleep 10
            joinHeld path rounds
          else return true

/-- Take a queued upload of this path out of the queue; whether there was one. -/
def takePending (path : String) : Task F Bool := do
  let queue ← withQueue fun queue => queue.filter (· ≠ .upload path)
  return decide (SyncOperation.upload path ∈ queue)

/-- The base to pin under a fresh lease: a queued upload lands first, otherwise the
local copy is refreshed. -/
def leaseBase (path : String) : Task F (Except SyncError (Option String)) := do
  if ← takePending path then
    let cond ← condForUpload path
    match ← manager.uploadWithCond path cond with
    | .ok etag => return .ok (some etag)
    | .error e =>
        if isRejection e then
          let e ← conflict path
          return .error e
        else return .error e
  else
    let refreshed ← headAndRefresh path
    return refreshed.map (·.1)

def newLease (base : Option String) (acquired : Acquired) : WriteLease :=
  { baseEtag := base
    lockEtag := acquired.lockEtag
    epoch := acquired.epoch
    expiresAt := acquired.expiresAt
    refcount := 1
    dirty := false
    pendingDelete := false
    lost := false
    releasing := false }

/-- The part of an open after the acquisition: join another thread's entry or insert our own. -/
def pinLease (path : String) (acquired : Acquired) : Task F (Except SyncError Unit) := do
  let leases ← withLeases (·.alter path fun lease => { lease with refcount := lease.refcount + 1 })
  if (leases.lookup path).isSome then
    release path acquired.lockEtag
    return .ok ()
  match ← manager.leaseBase path with
  | .error e =>
      release path acquired.lockEtag
      return .error e
  | .ok base =>
      let _ ← withLeases (·.insert path (newLease base acquired))
      return .ok ()

/-- Take the lease of a path before it is opened for write. Several opens of one instance share it. -/
def onOpenWrite (rounds : Nat) (path : String) : Task F (Except SyncError Unit) := do
  if manager.config.fileLock = false then return .ok ()
  if ← joinHeld path rounds then return .ok ()
  match ← acquire manager.instanceId path manager.config.lockLease manager.config.lockTimeout with
  | .error e => return .error e
  | .ok acquired => manager.pinLease path acquired

/-- Push the pending change of a leased path, a delete or an upload. -/
def flushLease (path : String) (snapshot : WriteLease) : Task F (Except SyncError Unit) := do
  if snapshot.pendingDelete then
    match snapshot.baseEtag with
    | none =>
        let _ ← withCache (·.remove path)
        return .ok ()
    | some base =>
        match ← deleteFile path (.ifMatch base) with
        | .ok () =>
            let _ ← withCache (·.remove path)
            return .ok ()
        | .error e =>
            if e.isPreconditionFailed then
              let e ← conflict path
              return .error e
            else return .error (.s3 e)
  else if snapshot.dirty = false then return .ok ()
  else
    match ← manager.uploadWithCond path (baseCond snapshot.baseEtag) with
    | .ok _ => return .ok ()
    | .error e =>
        if isRejection e then
          let e ← conflict path
          return .error e
        else return .error e

/-- Mark the entry of a path as releasing; the entry as it is then. -/
def beginRelease (path : String) : Task F (Option WriteLease) := do
  let leases ← withLeases (·.alter path fun lease => { lease with releasing := true })
  return (leases.lookup path).map fun lease => { lease with releasing := true }

/-- Push the pending change, give the lock object back and drop the entry. -/
def finishRelease (path : String) (snapshot : WriteLease) : Task F (Except SyncError Unit) := do
  let result ← manager.flushLease path snapshot
  release path snapshot.lockEtag
  let _ ← withLeases (·.erase path)
  return result

/-- The entry after one reference is given back. The last one starts the release. -/
def closeEntry (lease : WriteLease) : WriteLease :=
  if lease.refcount > 1 then { lease with refcount := lease.refcount - 1 } else { lease with releasing := true }

/-- Give back one reference; the last one flushes and releases. -/
def onClose (path : String) : Task F (Except SyncError Unit) := do
  let leases ← withLeases (·.alter path closeEntry)
  match leases.lookup path with
  | none => return .ok ()
  | some lease =>
      if lease.refcount > 1 then return .ok ()
      else manager.finishRelease path { lease with releasing := true }

def onFsync (path : String) : Task F (Except SyncError Unit) := do
  let leases ← withLeases id
  match leases.lookup path with
  | some lease => if lease.dirty || lease.pendingDelete then manager.flushLease path lease else return .ok ()
  | none => manager.syncFileNow path

def onMkdir (path : String) : Task F (Except SyncError Unit) := do
  match ← putDirMarker path with
  | .error e => return .error (.s3 e)
  | .ok (some etag) =>
      let _ ← withCache (·.addDir path etag)
      return .ok ()
  | .ok none =>
      match ← headDirMarker path with
      | .error e => return .error (.s3 e)
      | .ok none => return .ok ()
      | .ok (some etag) =>
          let _ ← withCache (·.addDir path etag)
          return .ok ()

def onRmdir (path : String) : Task F (Except SyncError Unit) := do
  let cache ← withCache id
  let cond := match cache.dirEtag path with
    | some etag => Precondition.ifMatch etag
    | none => .none
  match ← deleteDirMarker path cond with
  | .error e =>
      if e.isPreconditionFailed then
        let _ ← withCache (·.removeDir path)
        return .ok ()
      else return .error (.s3 e)
  | .ok () =>
      let _ ← withCache (·.removeDir path)
      return .ok ()

def releaseLeases : List String → Option SyncError → Task F (Except SyncError Unit)
  | [], none => return .ok ()
  | [], some e => return .error e
  | path :: paths, firstError => do
      match ← beginRelease path with
      | none => releaseLeases paths firstError
      | some snapshot =>
          match ← manager.finishRelease path snapshot with
          | .ok () => releaseLeases paths firstError
          | .error e => releaseLeases paths (firstError.or (some e))

/-- Flush and give back every lease, for shutdown. The first error, after all are processed. -/
def releaseAllLeases : Task F (Except SyncError Unit) := do
  let leases ← withLeases id
  let paths ← arrange leases.keys
  manager.releaseLeases paths none

def renewPaths : List String → Task F Unit
  | [] => return ()
  | path :: paths => do
      let leases ← withLeases id
      match leases.lookup path with
      | none => renewPaths paths
      | some lease =>
          match ← renew manager.instanceId path lease.epoch lease.lockEtag manager.config.lockLease with
          | .ok (newEtag, expiresAt) =>
              let _ ← withLeases (·.alter path fun lease => { lease with lockEtag := newEtag, expiresAt := expiresAt })
              renewPaths paths
          | .error e =>
              if e.isPreconditionFailed || e.isNotFound then
                let _ ← withLeases (·.alter path fun lease => { lease with lost := true })
                renewPaths paths
              else renewPaths paths

/-- Extend the leases that are past half of their lifetime. -/
def renewLeases : Task F Unit := do
  let now ← instant
  let leases ← withLeases id
  let due ← arrange (leases.pathsNeedingRenewal now manager.config.lockLease)
  manager.renewPaths due

/-! ### Background tick, outbound -/

/-- Delete a file on the known ETag. A store without conditional deletes gets a plain one. -/
def flushDelete (path : String) (etag : Option String) : Task F Unit := do
  let cond := match etag with
    | some etag => Precondition.ifMatch etag
    | none => .none
  match ← deleteFile path cond with
  | .ok () => return ()
  | .error e =>
      if e.isPreconditionFailed then
        if manager.config.fileLock then
          let _ ← refreshLocalFromRemote path
        else
          let _ ← deleteFile path .none
      else if e.isNotImplemented then
        let _ ← deleteFile path .none
      else return ()

def requeue (path : String) : Task F Unit := do
  let _ ← withQueue fun queue => queue ++ [.upload path]

/-- Push one queued upload; whether it counts as processed. -/
def flushUpload (path : String) : Task F (Except SyncError Bool) := do
  if manager.config.mode = .realTime then return .ok false
  if ← isLocked path then return .ok false
  let cond ← condForUpload path
  match ← manager.uploadWithCond path cond with
  | .ok _ => return .ok true
  | .error e =>
      if isRejection e then
        match ← manager.handleUploadConflict path with
        | .ok () => return .ok true
        | .error e =>
            if e.isConflict then return .ok true
            else
              requeue path
              return .error e
      else
        requeue path
        return .error e

def flushLoop : Nat → Nat → Task F (Except SyncError Nat)
  | 0, processed => do
      let now ← instant
      let _ ← withSchedule fun schedule => { schedule with lastFlush := now }
      return .ok processed
  | batch + 1, processed => do
      let queue ← withQueue List.tail
      match queue.head? with
      | none =>
          let now ← instant
          let _ ← withSchedule fun schedule => { schedule with lastFlush := now }
          return .ok processed
      | some (.upload path) =>
          match ← manager.flushUpload path with
          | .error e => return .error e
          | .ok counted => flushLoop batch (if counted then processed + 1 else processed)
      | some (.delete path etag) =>
          manager.flushDelete path etag
          flushLoop batch (processed + 1)

def flushOutbound : Task F (Except SyncError Nat) := manager.flushLoop manager.config.outboundBatchSize 0

/-- Flush until the queue is empty. -/
def forceFlush : Nat → Task F (Except SyncError Nat)
  | 0 => .halt
  | rounds + 1 => do
      let queue ← withQueue id
      if queue.isEmpty then return .ok 0
      match ← manager.flushOutbound with
      | .error e => return .error e
      | .ok count =>
          let rest ← forceFlush rounds
          return rest.map (count + ·)

/-! ### Background tick, inbound -/

/-- Download a listed object. -/
def downloadFile (info : S3ObjectInfo) : Task F (Except S3Error Unit) := do
  match ← getFile info.path with
  | .error e => return .error e
  | .ok none => return .error (.notFound info.path)
  | .ok (some (content, found)) => storeDownload info.path content found

def deleteLocalFile (path : String) : Task F (Except S3Error Unit) := do
  match ← onFs (.unlink path) with
  | .error e => return .error e
  | .ok () =>
      let _ ← withCache (·.remove path)
      return .ok ()

/-- Create the directory of a listed marker, if it is new. -/
def pollMarker (info : S3ObjectInfo) : Task F Unit := do
  let cache ← withCache id
  if cache.hasDir info.path then return ()
  let _ ← onFs (.mkdirP info.path)
  let _ ← withCache (·.addDir info.path info.etag)

/-- Download a listed file if its ETag is new here, unless it is leased or has a queued change. -/
def pollFile (info : S3ObjectInfo) : Task F Bool := do
  let cache ← withCache id
  if cache.etag info.path = some info.etag then return false
  if ← isLocked info.path then return false
  if ← hasPendingOp info.path then return false
  match ← downloadFile info with
  | .error _ => return false
  | .ok () => return true

def pollObjects : List S3ObjectInfo → SyncStats → Task F SyncStats
  | [], stats => return stats
  | info :: rest, stats => do
      if info.isDir then
        pollMarker info
        pollObjects rest stats
      else
        let downloaded ← pollFile info
        pollObjects rest (if downloaded then { stats with downloaded := stats.downloaded + 1 } else stats)

/-- Delete a cached file that is gone from S3, unless it is leased or has a queued change. -/
def pollGone (listed : List String) (path : String) : Task F Bool := do
  if path ∈ listed then return false
  if ← isLocked path then return false
  if ← hasPendingOp path then return false
  match ← deleteLocalFile path with
  | .error _ => return false
  | .ok () => return true

def pollDeleted (listed : List String) : List String → SyncStats → Task F SyncStats
  | [], stats => return stats
  | path :: rest, stats => do
      let deleted ← pollGone listed path
      pollDeleted listed rest (if deleted then { stats with deleted := stats.deleted + 1 } else stats)

def pollDirs (listed : List String) : List String → Task F Unit
  | [] => return ()
  | dir :: rest => do
      if dir ∈ listed then pollDirs listed rest
      else
        let _ ← onFs (.rmdir dir)
        let _ ← withCache (·.removeDir dir)
        pollDirs listed rest

def pollInbound : Task F (Except S3Error SyncStats) := do
  match ← listFiles with
  | .error e => return .error e
  | .ok objects =>
      let files := (objects.filter fun info => !info.isDir).map (·.path)
      let dirs := (objects.filter (·.isDir)).map (·.path)
      let stats ← pollObjects objects {}
      let cache ← withCache id
      let paths ← arrange cache.paths
      let stats ← pollDeleted files paths stats
      let cache ← withCache id
      let localDirs ← arrange cache.dirs
      pollDirs dirs localDirs
      return .ok stats

/-- Whether the outbound queue is due. -/
def shouldFlush (queue : List SyncOperation) (elapsed : Nat) : Bool :=
  match manager.config.mode with
  | .realTime => queue.any (·.isDelete)
  | .batch =>
      decide (manager.config.outboundBatchSize ≤ queue.length) ||
        (!queue.isEmpty && decide (manager.config.flushInterval ≤ elapsed))

/-- Flush the queue if it is due; whether that did any work. -/
def flushIfDue : Task F Bool := do
  let queue ← withQueue id
  let schedule ← withSchedule id
  let now ← instant
  if manager.shouldFlush queue (now - schedule.lastFlush) then
    match ← manager.flushOutbound with
    | .ok count => return decide (0 < count)
    | .error _ => return false
  else return false

/-- Poll if the interval has passed; whether that did any work. -/
def pollIfDue : Task F Bool := do
  let schedule ← withSchedule id
  let now ← instant
  if manager.config.pollInterval ≤ now - schedule.lastPoll then
    let polled ← pollInbound
    let now ← instant
    let _ ← withSchedule fun schedule => { schedule with lastPoll := now }
    match polled with
    | .ok stats => return decide (0 < stats.downloaded ∨ 0 < stats.deleted)
    | .error _ => return false
  else return false

/-- The background tick; whether it did any work. -/
def maybeSync : Task F Bool := do
  let schedule ← withSchedule id
  if schedule.shutdown then return false
  if manager.config.fileLock then manager.renewLeases
  let flushed ← manager.flushIfDue
  let polled ← manager.pollIfDue
  return flushed || polled

end SyncManager

/-! ### Initial load -/

section
variable {F : Type}

def populateDirs : List S3ObjectInfo → MetadataCache → Task F MetadataCache
  | [], cache => return cache
  | info :: rest, cache => do
      let _ ← onFs (.mkdirP info.path)
      populateDirs rest (cache.addDir info.path info.etag)

def populateFiles : List S3ObjectInfo → MetadataCache → Task F (Except LoadError MetadataCache)
  | [], cache => return .ok cache
  | info :: rest, cache => do
      match ← getFile info.path with
      | .error _ => populateFiles rest cache
      | .ok none => populateFiles rest cache
      | .ok (some (content, found)) =>
          match ← onFs (.loadFile info.path content) with
          | .error e => return .error (.fs e)
          | .ok () =>
              populateFiles rest (cache.updateAfterDownload info.path found.etag found.lastModified content.length)

/-- Fill the local filesystem from S3; the cache that describes it. -/
def populateFromS3 : Task F (Except LoadError MetadataCache) := do
  match ← listFiles with
  | .error e => return .error (.s3 e)
  | .ok objects =>
      let cache ← populateDirs (objects.filter (·.isDir)) .empty
      populateFiles (objects.filter fun info => !info.isDir) cache

/-- Load from S3, or begin with an empty filesystem. -/
def loadOrEmpty (fresh : F) : Task F MetadataCache := do
  match ← populateFromS3 with
  | .ok cache => return cache
  | .error _ =>
      let _ ← app fun _ => fresh
      return .empty

/-- Start an instance. -/
def initServer (fresh : F) : Task F Unit := do
  let cache ← loadOrEmpty fresh
  let _ ← withCache fun _ => cache
  let now ← instant
  let _ ← withSchedule fun _ => ⟨now, now, false⟩

end

end MonakaFs.Sync
