import MonakaFs.Sync.Footprint

/-! The operations that move one file between the local filesystem and the store.

An upload, a download and the conflict between them look at the store, change the
object of one path, its local copy, and what the cache and a held lease know about
it. They never touch the queue, another path, or the set of leases.
-/

set_option autoImplicit false

namespace MonakaFs.Sync

open Async SyncManager

inductive Op.Transfers {F : Type} (deletes : Prop) (path : String) : Op F → Prop where
  | look {r : Request} : r.writes = none → Transfers deletes path (.request r)
  | put {data : Bytes} {cond : Precondition} : Transfers deletes path (.request (.put (fileKey path) data cond))
  | delete {cond : Precondition} : deletes → Transfers deletes path (.request (.delete (fileKey path) cond))
  | readCache : Transfers deletes path (.cache id)
  | forget : Transfers deletes path (.cache (·.remove path))
  | uploaded {etag : String} {size modified timestamp : Nat} :
      Transfers deletes path (.cache (·.updateAfterUpload path etag size modified timestamp))
  | downloaded {etag : String} {modified size : Nat} :
      Transfers deletes path (.cache (·.updateAfterDownload path etag modified size))
  | readLeases : Transfers deletes path (.leases id)
  | pin {etag : String} : Transfers deletes path
      (.leases (·.alter path fun lease => { lease with baseEtag := some etag, dirty := false }))
  | unpin : Transfers deletes path (.leases (·.alter path fun lease => { lease with baseEtag := none }))
  | now : Transfers deletes path .now
  | read : Transfers deletes path (.fs (.readFileContent path))
  | stat : Transfers deletes path (.fs (.statModified path))
  | write {data : Bytes} : Transfers deletes path (.fs (.writeFileContent path data))

/-- A program that moves one file only. -/
abbrev Moving {F A : Type} (deletes : Prop) (path : String) (task : Task F A) : Prop :=
  task.Only (I := syncSignature F) (Op.Transfers deletes path)

section
variable {F : Type} {deletes : Prop} (manager : SyncManager) (path : String)

theorem looks_transfers (op : Op F) (looks : op.Looks) : op.Transfers deletes path := by
  cases op with
  | request r => exact .look looks
  | queue | cache | leases | schedule | now | wake | jitter | fs | arrange | app => exact looks.elim

/-! ### Uploads -/

theorem verifyUploadLanded_moving (cond : Precondition) :
    Moving (F := F) deletes path (verifyUploadLanded path cond) := by
  simp only [verifyUploadLanded, headFile_bind, only_next]
  refine ⟨.look rfl, fun reply => ?_⟩
  split <;> trivial

theorem putFile_moving (data : Bytes) (cond : Precondition) :
    Moving (F := F) deletes path (putFile path data cond) := ⟨.put, fun _ => trivial⟩

theorem putUpload_moving (data : Bytes) (cond : Precondition) :
    Moving (F := F) deletes path (putUpload path data cond) := by
  simp only [putUpload, putFile_bind, only_next]
  refine ⟨.put, fun reply => ?_⟩
  split
  · trivial
  · split
    · exact putFile_moving ..
    · split
      · simp only [headFile_bind, only_next]
        refine ⟨.look rfl, fun found => ?_⟩
        split
        · trivial
        · trivial
        · exact putFile_moving ..
      · split
        · apply (verifyUploadLanded_moving ..).bind
          intro landed
          cases landed <;> trivial
        · trivial

theorem recordUpload_moving (etag : String) (size localModified : Nat) :
    Moving (F := F) deletes path (recordUpload path etag size localModified) :=
  ⟨.now, fun _ => ⟨.uploaded, fun _ => ⟨.pin, fun _ => trivial⟩⟩⟩

theorem uploadWithCond_moving (cond : Precondition) :
    Moving (F := F) deletes path (manager.uploadWithCond path cond) := by
  simp only [uploadWithCond, onFs_bind, only_next]
  refine ⟨.read, fun read => ?_⟩
  rcases (read : Except S3Error Bytes) with e | content
  · trivial
  refine ⟨.stat, fun modified => ?_⟩
  apply ((passthroughChecks_looks manager path).mono (looks_transfers path)).bind
  rintro (e | _)
  · trivial
  apply (putUpload_moving ..).bind
  rintro (e | etag)
  · trivial
  · exact (recordUpload_moving ..).bind fun _ => trivial

theorem condForUpload_moving : Moving (F := F) deletes path (condForUpload path) := by
  simp only [condForUpload, withLeases_bind, only_next]
  refine ⟨.readLeases, fun leases => ?_⟩
  split
  · trivial
  · exact ⟨.readCache, fun _ => trivial⟩

/-! ### Downloads -/

theorem storeDownload_moving (content : Bytes) (info : ObjectMeta) :
    Moving (F := F) deletes path (storeDownload path content info) := by
  simp only [storeDownload, onFs_bind, only_next]
  refine ⟨.write, fun written => ?_⟩
  rcases (written : Except S3Error Unit) with e | _
  · trivial
  · exact ⟨.downloaded, fun _ => trivial⟩

theorem refreshLocalFromRemote_moving : Moving (F := F) deletes path (refreshLocalFromRemote path) := by
  simp only [refreshLocalFromRemote, getFile_bind, only_next]
  refine ⟨.look rfl, fun found => ?_⟩
  split
  · apply (storeDownload_moving ..).bind
    rintro (e | _)
    · trivial
    · exact ⟨.pin, fun _ => trivial⟩
  · exact ⟨.forget, fun _ => ⟨.unpin, fun _ => trivial⟩⟩
  · trivial

theorem conflict_moving : Moving (F := F) deletes path (conflict path) :=
  (refreshLocalFromRemote_moving path).bind fun _ => trivial

theorem handleUploadConflict_moving : Moving (F := F) deletes path (manager.handleUploadConflict path) := by
  unfold handleUploadConflict
  split
  · exact (uploadWithCond_moving ..).bind fun result => by cases result <;> trivial
  · exact (conflict_moving path).bind fun _ => trivial

theorem syncFileNow_moving : Moving (F := F) deletes path (manager.syncFileNow path) := by
  apply (condForUpload_moving path).bind
  intro cond
  apply (uploadWithCond_moving ..).bind
  rintro (e | etag)
  · dsimp only
    split
    · exact handleUploadConflict_moving ..
    · trivial
  · trivial

theorem headAndRefresh_moving : Moving (F := F) deletes path (headAndRefresh path) := by
  simp only [headAndRefresh, headFile_bind, only_next]
  refine ⟨.look rfl, fun head => ?_⟩
  split
  · trivial
  · trivial
  simp only [withCache_bind, only_next]
  refine ⟨.readCache, fun cache => ?_⟩
  split
  · trivial
  simp only [getFile_bind, only_next]
  refine ⟨.look rfl, fun found => ?_⟩
  split
  · trivial
  · trivial
  · exact (storeDownload_moving ..).bind fun stored => by cases stored <;> trivial

theorem downloadFile_moving (info : S3ObjectInfo) : Moving (F := F) deletes info.path (downloadFile info) := by
  simp only [downloadFile, getFile_bind, only_next]
  refine ⟨.look rfl, fun found => ?_⟩
  split
  · trivial
  · trivial
  · exact storeDownload_moving ..

/-! ### Deletes -/

theorem flushLease_moving (snapshot : WriteLease) : Moving (F := F) True path (manager.flushLease path snapshot) := by
  unfold flushLease
  split
  · split
    · exact ⟨.forget, fun _ => trivial⟩
    · simp only [deleteFile_bind, only_next]
      refine ⟨.delete trivial, fun deleted => ?_⟩
      split
      · exact ⟨.forget, fun _ => trivial⟩
      · split
        · exact (conflict_moving path).bind fun _ => trivial
        · trivial
  · split
    · trivial
    · apply (uploadWithCond_moving ..).bind
      rintro (e | etag)
      · dsimp only
        split
        · exact (conflict_moving path).bind fun _ => trivial
        · trivial
      · trivial

theorem flushDelete_moving (etag : Option String) : Moving (F := F) True path (manager.flushDelete path etag) := by
  simp only [flushDelete, deleteFile_bind, only_next]
  refine ⟨.delete trivial, fun deleted => ?_⟩
  split
  · trivial
  · split
    · split
      · exact (refreshLocalFromRemote_moving path).bind fun _ => trivial
      · exact ⟨.delete trivial, fun _ => trivial⟩
    · split
      · exact ⟨.delete trivial, fun _ => trivial⟩
      · trivial

end
end MonakaFs.Sync
