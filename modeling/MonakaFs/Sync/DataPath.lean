import MonakaFs.Sync.Cluster
import MonakaFs.Sync.Transfer

/-! The operations of the data path.

Uploads, downloads, the queue and the polls read and write files, caches and
queues. They never write a lock object, and in the lease table they change only
what a lease knows about its data. The bound is stated once, operation by
operation. Whether a program may send or queue deletes is a parameter.
-/

set_option autoImplicit false

namespace MonakaFs.Sync

open Async SyncManager

inductive Op.Data {F : Type} (deletes : Prop) : Op F → Prop where
  | look {r : Request} : r.writes = none → Data deletes (.request r)
  | putFile {path : String} {data : Bytes} {cond : Precondition} :
      Data deletes (.request (.put (fileKey path) data cond))
  | putMarker {path : String} : Data deletes (.request (.put (dirMarkerKey path) [] .ifNoneMatchAny))
  | deleteFile {path : String} {cond : Precondition} : deletes → Data deletes (.request (.delete (fileKey path) cond))
  | deleteMarker {path : String} {cond : Precondition} :
      deletes → Data deletes (.request (.delete (dirMarkerKey path) cond))
  | readQueue : Data deletes (.queue id)
  | pop : Data deletes (.queue List.tail)
  | take {path : String} : Data deletes (.queue fun queue => queue.filter (· ≠ .upload path))
  | requeue {path : String} : Data deletes (.queue fun queue => queue ++ [.upload path])
  | enqueue {path : String} : Data deletes (.queue fun queue => queue.filter (·.path ≠ path) ++ [.upload path])
  | enqueueDelete {path : String} {etag : Option String} : deletes →
      Data deletes (.queue fun queue => queue.filter (·.path ≠ path) ++ [.delete path etag])
  | cache {change : MetadataCache → MetadataCache} : Data deletes (.cache change)
  | readLeases : Data deletes (.leases id)
  | pin {path etag : String} :
      Data deletes (.leases (·.alter path fun lease => { lease with baseEtag := some etag, dirty := false }))
  | unpin {path : String} : Data deletes (.leases (·.alter path fun lease => { lease with baseEtag := none }))
  | markDirty {path : String} :
      Data deletes (.leases (·.alter path fun lease => { lease with dirty := true, pendingDelete := false }))
  | markDelete {path : String} :
      Data deletes (.leases (·.alter path fun lease => { lease with pendingDelete := true, dirty := false }))
  | schedule {change : Schedule → Schedule} : Data deletes (.schedule change)
  | now : Data deletes .now
  | fs {call : LocalCall} : Data deletes (.fs call)
  | arrange {keys : List String} : Data deletes (.arrange keys)
  | app {change : F → F} : Data deletes (.app change)

/-- A program of data operations only. -/
abbrev OnData {F A : Type} (deletes : Prop) (task : Task F A) : Prop :=
  task.Only (I := syncSignature F) (Op.Data deletes)

/-- Data requests write no lock object. -/
theorem Op.Data.unlocked {F : Type} {deletes : Prop} {r : Request} (data : (Op.request (F := F) r).Data deletes)
    (path : String) : r.writes ≠ some (lockKey path) := by
  cases data with
  | look looks => rw [looks]; exact nofun
  | putFile | deleteFile => exact fun same => fileKey_ne_lockKey _ path (Option.some.inj same)
  | putMarker | deleteMarker => exact fun same => dirMarkerKey_ne_lockKey _ path (Option.some.inj same)

section
variable {F : Type} {deletes : Prop} (manager : SyncManager) (path : String)

theorem transfers_data (op : Op F) (transfers : op.Transfers deletes path) : op.Data deletes := by
  cases transfers with
  | look looks => exact .look looks
  | put => exact .putFile
  | delete permitted => exact .deleteFile permitted
  | readCache | forget | uploaded | downloaded => exact .cache
  | readLeases => exact .readLeases
  | pin => exact .pin
  | unpin => exact .unpin
  | now => exact .now
  | read | stat | write => exact .fs

theorem uploadWithCond_data (cond : Precondition) : OnData (F := F) deletes (manager.uploadWithCond path cond) :=
  (uploadWithCond_moving manager path cond).mono (transfers_data path)

theorem condForUpload_data : OnData (F := F) deletes (condForUpload path) :=
  (condForUpload_moving path).mono (transfers_data path)

theorem storeDownload_data (content : Bytes) (info : ObjectMeta) :
    OnData (F := F) deletes (storeDownload path content info) :=
  (storeDownload_moving path content info).mono (transfers_data path)

theorem refreshLocalFromRemote_data : OnData (F := F) deletes (refreshLocalFromRemote path) :=
  (refreshLocalFromRemote_moving path).mono (transfers_data path)

theorem conflict_data : OnData (F := F) deletes (conflict path) := (conflict_moving path).mono (transfers_data path)

theorem handleUploadConflict_data : OnData (F := F) deletes (manager.handleUploadConflict path) :=
  (handleUploadConflict_moving manager path).mono (transfers_data path)

theorem syncFileNow_data : OnData (F := F) deletes (manager.syncFileNow path) :=
  (syncFileNow_moving manager path).mono (transfers_data path)

theorem isLocked_data : OnData (F := F) deletes (isLocked path) := ⟨.readLeases, fun _ => trivial⟩

theorem hasPendingOp_data : OnData (F := F) deletes (hasPendingOp path) := ⟨.readQueue, fun _ => trivial⟩

theorem refreshFileFromS3_data : OnData (F := F) deletes (refreshFileFromS3 path) := by
  apply (isLocked_data path).bind
  intro locked
  split
  · trivial
  simp only [getFile_bind, only_next]
  refine ⟨.look rfl, fun found => ?_⟩
  split
  · trivial
  · trivial
  · exact (storeDownload_data ..).bind fun stored => by cases stored <;> trivial

theorem headAndRefresh_data : OnData (F := F) deletes (headAndRefresh path) :=
  (headAndRefresh_moving path).mono (transfers_data path)

theorem checkAndRefreshFromS3_data : OnData (F := F) deletes (checkAndRefreshFromS3 path) := by
  apply (isLocked_data path).bind
  intro locked
  split
  · trivial
  · exact (headAndRefresh_data path).bind fun _ => trivial

/-! ### Under a lease -/

theorem takePending_data : OnData (F := F) deletes (takePending path) := ⟨.take, fun _ => trivial⟩

theorem leaseBase_data : OnData (F := F) deletes (manager.leaseBase path) := by
  apply (takePending_data path).bind
  intro pending
  split
  · apply (condForUpload_data path).bind
    intro cond
    apply (uploadWithCond_data ..).bind
    rintro (e | etag)
    · dsimp only
      split
      · exact (conflict_data path).bind fun _ => trivial
      · trivial
    · trivial
  · exact (headAndRefresh_data path).bind fun _ => trivial

theorem flushLease_data (snapshot : WriteLease) : OnData (F := F) True (manager.flushLease path snapshot) :=
  (flushLease_moving manager path snapshot).mono (transfers_data path)

theorem onFsync_data : OnData (F := F) True (manager.onFsync path) := by
  simp only [onFsync, withLeases_bind, only_next]
  refine ⟨.readLeases, fun leases => ?_⟩
  split
  · split
    · exact flushLease_data ..
    · trivial
  · exact syncFileNow_data ..

/-! ### The queue -/

theorem enqueueUpload_data : OnData (F := F) deletes (enqueueUpload path) := by
  simp only [enqueueUpload, withLeases_bind, only_next]
  refine ⟨.markDirty, fun leases => ?_⟩
  split
  · trivial
  · exact ⟨.enqueue, fun _ => trivial⟩

theorem enqueueDelete_data : OnData (F := F) True (enqueueDelete path) := by
  simp only [enqueueDelete, withLeases_bind, only_next]
  refine ⟨.markDelete, fun leases => ?_⟩
  split
  · trivial
  · exact ⟨.cache, fun _ => ⟨.enqueueDelete trivial, fun _ => trivial⟩⟩

theorem requeue_data : OnData (F := F) deletes (requeue path) := ⟨.requeue, fun _ => trivial⟩

theorem flushDelete_data (etag : Option String) : OnData (F := F) True (manager.flushDelete path etag) :=
  (flushDelete_moving manager path etag).mono (transfers_data path)

theorem flushUpload_data : OnData (F := F) deletes (manager.flushUpload path) := by
  unfold flushUpload
  split
  · trivial
  apply (isLocked_data path).bind
  intro locked
  split
  · trivial
  apply (condForUpload_data path).bind
  intro cond
  apply (uploadWithCond_data ..).bind
  rintro (e | etag)
  · dsimp only
    split
    · apply (handleUploadConflict_data ..).bind
      rintro (failed | _)
      · dsimp only
        split
        · trivial
        · exact (requeue_data path).bind fun _ => trivial
      · trivial
    · exact (requeue_data path).bind fun _ => trivial
  · trivial

theorem flushLoop_data (batch processed : Nat) : OnData (F := F) True (manager.flushLoop batch processed) := by
  induction batch generalizing processed with
  | zero => exact ⟨.now, fun _ => ⟨.schedule, fun _ => trivial⟩⟩
  | succ batch ih =>
    simp only [flushLoop, withQueue_bind, only_next]
    refine ⟨.pop, fun queue => ?_⟩
    split
    · exact ⟨.now, fun _ => ⟨.schedule, fun _ => trivial⟩⟩
    · apply (flushUpload_data ..).bind
      rintro (e | counted)
      · trivial
      · exact ih _
    · exact (flushDelete_data ..).bind fun _ => ih _

theorem forceFlush_data (rounds : Nat) : OnData (F := F) True (manager.forceFlush rounds) := by
  induction rounds with
  | zero => trivial
  | succ rounds ih =>
    simp only [forceFlush, withQueue_bind, only_next]
    refine ⟨.readQueue, fun queue => ?_⟩
    split
    · trivial
    · apply (flushLoop_data ..).bind
      rintro (e | count)
      · trivial
      · exact ih.bind fun _ => trivial

theorem flushIfDue_data : OnData (F := F) True manager.flushIfDue := by
  simp only [flushIfDue, withQueue_bind, withSchedule_bind, instant_bind, only_next]
  refine ⟨.readQueue, fun queue => ⟨.schedule, fun schedule => ⟨.now, fun now => ?_⟩⟩⟩
  split
  · exact (flushLoop_data ..).bind fun result => by cases result <;> trivial
  · trivial

/-! ### Polls -/

theorem downloadFile_data (info : S3ObjectInfo) : OnData (F := F) deletes (downloadFile info) :=
  (downloadFile_moving info).mono (transfers_data info.path)

theorem deleteLocalFile_data : OnData (F := F) deletes (deleteLocalFile path) := by
  simp only [deleteLocalFile, onFs_bind, only_next]
  refine ⟨.fs, fun removed => ?_⟩
  rcases (removed : Except S3Error Unit) with e | _
  · trivial
  · exact ⟨.cache, fun _ => trivial⟩

theorem pollMarker_data (info : S3ObjectInfo) : OnData (F := F) deletes (pollMarker info) := by
  simp only [pollMarker, withCache_bind, only_next]
  refine ⟨.cache, fun cache => ?_⟩
  split
  · trivial
  · exact ⟨.fs, fun _ => ⟨.cache, fun _ => trivial⟩⟩

theorem pollFile_data (info : S3ObjectInfo) : OnData (F := F) deletes (pollFile info) := by
  simp only [pollFile, withCache_bind, only_next]
  refine ⟨.cache, fun cache => ?_⟩
  split
  · trivial
  apply (isLocked_data info.path).bind
  intro locked
  split
  · trivial
  apply (hasPendingOp_data info.path).bind
  intro pending
  split
  · trivial
  · exact (downloadFile_data info).bind fun result => by cases result <;> trivial

theorem pollObjects_data (objects : List S3ObjectInfo) (stats : SyncStats) :
    OnData (F := F) deletes (pollObjects objects stats) := by
  induction objects generalizing stats with
  | nil => trivial
  | cons info rest ih =>
    unfold pollObjects
    split
    · exact (pollMarker_data info).bind fun _ => ih _
    · exact (pollFile_data info).bind fun _ => ih _

theorem pollGone_data (listed : List String) : OnData (F := F) deletes (pollGone listed path) := by
  unfold pollGone
  split
  · trivial
  apply (isLocked_data path).bind
  intro locked
  split
  · trivial
  apply (hasPendingOp_data path).bind
  intro pending
  split
  · trivial
  · exact (deleteLocalFile_data path).bind fun result => by cases result <;> trivial

theorem pollDeleted_data (listed paths : List String) (stats : SyncStats) :
    OnData (F := F) deletes (pollDeleted listed paths stats) := by
  induction paths generalizing stats with
  | nil => trivial
  | cons path rest ih => exact (pollGone_data path listed).bind fun _ => ih _

theorem pollDirs_data (listed dirs : List String) : OnData (F := F) deletes (pollDirs listed dirs) := by
  induction dirs with
  | nil => trivial
  | cons dir rest ih =>
    unfold pollDirs
    split
    · exact ih
    · exact ⟨.fs, fun _ => ⟨.cache, fun _ => ih⟩⟩

theorem pollInbound_data : OnData (F := F) deletes pollInbound := by
  simp only [pollInbound, listFiles_bind, only_next]
  refine ⟨.look rfl, fun listed => ?_⟩
  rcases (listed : Except S3Error (List ObjectMeta)) with e | metas
  · trivial
  apply (pollObjects_data ..).bind
  intro stats
  refine ⟨.cache, fun cache => ⟨.arrange, fun paths => ?_⟩⟩
  apply (pollDeleted_data ..).bind
  intro stats
  exact ⟨.cache, fun cache => ⟨.arrange, fun dirs => (pollDirs_data ..).bind fun _ => trivial⟩⟩

theorem pollIfDue_data : OnData (F := F) deletes manager.pollIfDue := by
  simp only [pollIfDue, withSchedule_bind, instant_bind, only_next]
  refine ⟨.schedule, fun schedule => ⟨.now, fun now => ?_⟩⟩
  split
  · apply pollInbound_data.bind
    intro polled
    refine ⟨.now, fun now => ⟨.schedule, fun _ => ?_⟩⟩
    cases polled <;> trivial
  · trivial

/-! ### Directories and the initial load -/

theorem headDirMarker_data : OnData (F := F) deletes (headDirMarker path) := ⟨.look rfl, fun _ => trivial⟩

theorem onMkdir_data : OnData (F := F) deletes (onMkdir path) := by
  refine Prog.Only.bind (I := syncSignature F) ?_ fun made => ?_
  · simp only [putDirMarker, putObject_bind, only_next]
    refine ⟨.putMarker, fun reply => ?_⟩
    split
    · trivial
    · split <;> trivial
  · split
    · trivial
    · exact ⟨.cache, fun _ => trivial⟩
    · apply (headDirMarker_data path).bind
      intro found
      split
      · trivial
      · trivial
      · exact ⟨.cache, fun _ => trivial⟩

theorem onRmdir_data : OnData (F := F) True (onRmdir path) := by
  simp only [onRmdir, deleteDirMarker_bind, withCache_bind, only_next]
  refine ⟨.cache, fun cache => ⟨.deleteMarker trivial, fun reply => ?_⟩⟩
  split
  · split
    · exact ⟨.cache, fun _ => trivial⟩
    · trivial
  · exact ⟨.cache, fun _ => trivial⟩

theorem populateDirs_data (dirs : List S3ObjectInfo) (cache : MetadataCache) :
    OnData (F := F) deletes (populateDirs dirs cache) := by
  induction dirs generalizing cache with
  | nil => trivial
  | cons info rest ih => exact ⟨.fs, fun _ => ih _⟩

theorem populateFiles_data (files : List S3ObjectInfo) (cache : MetadataCache) :
    OnData (F := F) deletes (populateFiles files cache) := by
  induction files generalizing cache with
  | nil => trivial
  | cons info rest ih =>
    simp only [populateFiles, getFile_bind, only_next]
    refine ⟨.look rfl, fun found => ?_⟩
    split
    · exact ih _
    · exact ih _
    · refine ⟨.fs, fun loaded => ?_⟩
      rcases (loaded : Except S3Error Unit) with e | _
      · trivial
      · exact ih _

theorem initServer_data (fresh : F) : OnData deletes (initServer fresh) := by
  have populated : OnData (F := F) deletes populateFromS3 := by
    simp only [populateFromS3, listFiles_bind, only_next]
    refine ⟨.look rfl, fun listed => ?_⟩
    rcases (listed : Except S3Error (List ObjectMeta)) with e | metas
    · trivial
    · exact (populateDirs_data ..).bind fun _ => populateFiles_data ..
  have loaded : OnData deletes (loadOrEmpty fresh) := by
    apply populated.bind
    rintro (e | cache)
    · exact ⟨.app, fun _ => trivial⟩
    · trivial
  exact loaded.bind fun cache => ⟨.cache, fun _ => ⟨.now, fun _ => ⟨.schedule, fun _ => trivial⟩⟩⟩

end

end MonakaFs.Sync
