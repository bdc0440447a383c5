import MonakaFs.Sync.Provenance.Files

/-! Provenance through opens and closes, the background tick and the initial load. -/

set_option autoImplicit false

namespace MonakaFs.Sync.Provenance

open Async LawfulBackend

section
variable [EtagScheme] {F : Type} [LawfulBackend F] {s : Node F}

section
variable (manager : SyncManager) {path : String}

/-! ### Leases -/

theorem joinHeld_safe (rounds : Nat) (grounded : Grounded none s) :
    contract.Safe (fun joined t => Grounded none t ∧ (joined = false → Unleased path t))
      (SyncManager.joinHeld (F := F) path rounds) s := by
  induction rounds generalizing s with
  | zero => exact fun _ _ => trivial
  | succ rounds ih =>
    simp only [SyncManager.joinHeld, withLeases_bind]
    refine safe_leases fun t leased cached _ grow => ?_
    have grounded : Grounded none t := by
      refine grounded.of_basis grow fun name etag _ pinned => ?_
      rwa [Basis, cached, ManagerState.baseEtag, leased, LeaseTable.base_alter _ _ _ fun lease => by split <;> rfl]
        at pinned
    split
    · next missing =>
      refine Contract.safe_done fun u moves => ⟨grounded.frame (.of_rely moves), fun _ => ?_⟩
      rw [Unleased, (Frame.of_rely moves).leases, leased, Map.lookup_alter, if_pos rfl, missing]
      rfl
    · split
      · simp only [sleep, instant_bind, wake]
        refine safe_steady trivial trivial fun now u frame => safe_steady trivial trivial fun _ v later => ?_
        exact ih (grounded.frame (frame.trans later))
      · exact Contract.safe_done fun u moves => ⟨grounded.frame (.of_rely moves), by simp⟩

theorem leaseBase_safe (grounded : Grounded none s) (unleased : Unleased path s) :
    contract.Safe (fun result t => Grounded none t ∧ ∀ etag, result = .ok (some etag) → Known path etag t.log)
      (manager.leaseBase (F := F) path) s := by
  have idle (t : Node F) (grounded : Grounded none t) (result : Except SyncError (Option String))
      (known : ∀ etag, result = .ok (some etag) → Known path etag t.log) :
      contract.Safe (fun result t => Grounded none t ∧ ∀ etag, result = .ok (some etag) → Known path etag t.log)
        (pure result : Task F _) t :=
    Contract.safe_done fun v moves => ⟨grounded.frame (.of_rely moves), fun etag same =>
      (Frame.of_rely moves).known (known etag same)⟩
  have take : (SyncManager.takePending (F := F) path).Only (I := syncSignature F) fun op => op.Steady ∧ op.Calm :=
    ⟨⟨trivial, trivial⟩, fun _ => trivial⟩
  refine ((keeps_frame s).safe take (.refl s)).bind fun pending t frame => ?_
  have grounded := grounded.frame frame
  split
  · refine (condForUpload_safe grounded).bind fun cond u done => ?_
    refine (uploadWithCond_safe manager done.1 done.2).bind fun result v done => ?_
    rcases result with e | etag
    · dsimp only
      split
      · exact (conflict_safe done.1).bind fun e w grounded => idle w grounded _ (by simp)
      · exact idle v done.1 _ (by simp)
    · exact idle v done.1 _ fun other same => done.2 other (by simpa using same)
  · refine (headAndRefresh_safe grounded (unleased.frame frame)).bind fun result u done => ?_
    refine idle u done.1 _ fun etag same => ?_
    rcases result with e | ⟨base, refreshed⟩
    · cases same
    · exact done.2 etag refreshed (by cases same; rfl)

theorem release_safe (lockEtag : String) (grounded : Grounded none s) :
    contract.Safe (fun _ t => Grounded none t) (release (F := F) path lockEtag) s :=
  tame_safe ((release_silent path lockEtag).mono quiet_tame) grounded

theorem pinLease_safe (acquired : Acquired) (grounded : Grounded none s) (unleased : Unleased path s) :
    contract.Safe (fun _ t => Grounded none t) (manager.pinLease (F := F) path acquired) s := by
  simp only [SyncManager.pinLease, withLeases_bind]
  refine safe_leases fun t leased cached kept grow => ?_
  have absent : s.state.manager.leases.lookup path = none := unleased
  have same : t.state.manager.leases = s.state.manager.leases := by
    rw [leased, Map.alter, absent]
  have frame : Frame s t := ⟨cached, same, kept, grow⟩
  simp only [absent, Option.isSome_none, Bool.false_eq_true, if_false]
  refine (leaseBase_safe manager (grounded.frame frame) (unleased.frame frame)).bind fun result u done => ?_
  rcases result with e | base
  · exact (release_safe _ done.1).bind fun _ v grounded => safe_return grounded _
  · dsimp only
    refine safe_leases fun v leased cached _ grow => safe_return (fun name etag outside pinned => ?_) _
    rw [Basis, cached, ManagerState.baseEtag, leased, LeaseTable.base, Map.lookup_insert_eq] at pinned
    split at pinned
    · next same =>
      subst same
      rcases pinned with pinned | pinned
      · exact grow (done.1 name etag outside (.inl pinned))
      · exact grow (done.2 etag (by rw [show base = some etag from pinned]))
    · exact grow (done.1 name etag outside pinned)

theorem onOpenWrite_safe (rounds : Nat) (grounded : Grounded none s) :
    contract.Safe (fun _ t => Grounded none t) (manager.onOpenWrite (F := F) rounds path) s := by
  unfold SyncManager.onOpenWrite
  split
  · exact safe_return grounded _
  · refine (joinHeld_safe rounds grounded).bind fun joined t done => ?_
    cases joined with
    | true => exact safe_return done.1 _
    | false =>
      simp only [Bool.false_eq_true, if_false]
      refine (silent_frame (acquire_silent _ _ _ _) t).bind fun result u frame => ?_
      have grounded := done.1.frame frame
      rcases result with e | acquired
      · exact safe_return grounded _
      · exact pinLease_safe manager acquired grounded ((done.2 rfl).frame frame)

/-- The base of a lease snapshot is known. -/
def SnapshotKnown (path : String) (snapshot : WriteLease) (log : Log F) : Prop :=
  ∀ etag, snapshot.baseEtag = some etag → Known path etag log

theorem flushLease_safe {snapshot : WriteLease} (grounded : Grounded none s)
    (base : SnapshotKnown path snapshot s.log) :
    contract.Safe (fun _ t => Grounded none t) (manager.flushLease (F := F) path snapshot) s := by
  have dropCache (t : Node F) (grounded : Grounded none t) :
      contract.Safe (fun _ t => Grounded none t)
        (next (.cache (·.remove path)) fun _ => (pure (.ok ()) : Task F (Except SyncError Unit))) t :=
    tame_safe (by rw [only_next]; exact ⟨tame_remove path, fun _ => trivial⟩) grounded
  unfold SyncManager.flushLease
  split
  · split
    · exact dropCache s grounded
    · simp only [deleteFile_bind]
      refine safe_steady trivial trivial fun reply t frame => ?_
      have grounded := grounded.frame frame
      rcases (reply : Except S3Error Unit) with e | _
      · dsimp only
        split
        · exact (conflict_safe grounded).bind fun e u grounded => safe_return grounded _
        · exact safe_return grounded _
      · exact dropCache t grounded
  · split
    · exact safe_return grounded _
    · have based : Based path s.log (baseCond snapshot.baseEtag) := by
        cases found : snapshot.baseEtag with
        | none => trivial
        | some etag => exact base etag found
      refine (uploadWithCond_safe manager grounded based).bind fun result t done => ?_
      rcases result with e | etag
      · dsimp only
        split
        · exact (conflict_safe done.1).bind fun e u grounded => safe_return grounded _
        · exact safe_return done.1 _
      · exact safe_return done.1 _

theorem finishRelease_safe {snapshot : WriteLease} (grounded : Grounded none s)
    (base : SnapshotKnown path snapshot s.log) :
    contract.Safe (fun _ t => Grounded none t) (manager.finishRelease (F := F) path snapshot) s := by
  refine (flushLease_safe manager grounded base).bind fun result t grounded => ?_
  refine (release_safe _ grounded).bind fun _ u grounded => ?_
  refine tame_safe ?_ grounded
  simp only [withLeases_bind, only_next]
  exact ⟨tame_erase path, fun _ => trivial⟩

/-- An entry that a section hands out has a known base. -/
theorem Grounded.snapshot {t : Node F} {lease : WriteLease} (grounded : Grounded none s)
    (grow : ∀ {name etag}, Known name etag s.log → Known name etag t.log)
    (found : s.state.manager.leases.lookup path = some lease) (releasing : Bool) :
    SnapshotKnown path { lease with releasing := releasing } t.log := fun etag same =>
  grow (grounded path etag (by simp) (.inr (by rw [ManagerState.baseEtag, LeaseTable.base, found]; exact same)))

theorem onClose_safe (grounded : Grounded none s) :
    contract.Safe (fun _ t => Grounded none t) (manager.onClose (F := F) path) s := by
  simp only [SyncManager.onClose, withLeases_bind]
  refine safe_leases fun t leased cached _ grow => ?_
  have later : Grounded none t := by
    refine grounded.of_basis grow fun name etag _ pinned => ?_
    rwa [Basis, cached, ManagerState.baseEtag, leased,
      LeaseTable.base_alter _ _ _ fun lease => by unfold SyncManager.closeEntry; split <;> rfl]
      at pinned
  split
  · exact safe_return later _
  · next lease found =>
    split
    · exact safe_return later _
    · exact finishRelease_safe manager later (grounded.snapshot grow found true)

theorem onFsync_safe (locking : manager.config.fileLock = true) (grounded : Grounded none s) :
    contract.Safe (fun _ t => Grounded none t) (manager.onFsync (F := F) path) s := by
  simp only [SyncManager.onFsync, withLeases_bind]
  refine safe_leases fun t leased cached kept grow => ?_
  have later := grounded.frame ⟨cached, leased, kept, grow⟩
  split
  · next lease found =>
    split
    · exact flushLease_safe manager later (grounded.snapshot grow found lease.releasing)
    · exact safe_return later _
  · exact syncFileNow_safe manager locking later

theorem beginRelease_safe (grounded : Grounded none s) :
    contract.Safe (fun snapshot t => Grounded none t ∧
      ∀ lease, snapshot = some lease → SnapshotKnown path lease t.log)
      (SyncManager.beginRelease (F := F) path) s := by
  simp only [SyncManager.beginRelease, withLeases_bind]
  refine safe_leases fun t leased cached _ grow => Contract.safe_done fun u moves => ?_
  have frame := Frame.of_rely moves
  have later : Grounded none t := grounded.of_basis grow fun name etag _ pinned => by
    rwa [Basis, cached, ManagerState.baseEtag, leased, LeaseTable.base_alter _ _ _ fun _ => by rfl] at pinned
  refine ⟨later.frame frame, fun lease same => ?_⟩
  obtain ⟨entry, found, rfl⟩ := Option.map_eq_some_iff.mp same
  exact grounded.snapshot (fun known => frame.known (grow known)) found true

theorem releaseLeases_safe (paths : List String) (firstError : Option SyncError) (grounded : Grounded none s) :
    contract.Safe (fun _ t => Grounded none t) (manager.releaseLeases (F := F) paths firstError) s := by
  induction paths generalizing s firstError with
  | nil => cases firstError <;> exact safe_return grounded _
  | cons path paths ih =>
    refine (beginRelease_safe grounded).bind fun snapshot t done => ?_
    rcases snapshot with _ | lease
    · exact ih firstError done.1
    · refine (finishRelease_safe manager done.1 (done.2 lease rfl)).bind fun result u grounded => ?_
      rcases result with e | _
      · exact ih _ grounded
      · exact ih _ grounded

theorem releaseAllLeases_safe (grounded : Grounded none s) :
    contract.Safe (fun _ t => Grounded none t) (manager.releaseAllLeases (F := F)) s := by
  simp only [SyncManager.releaseAllLeases, withLeases_bind]
  refine safe_leases fun t leased cached kept grow => ?_
  have grounded := grounded.frame ⟨cached, leased, kept, grow⟩
  simp only [arrange_bind]
  exact safe_steady trivial trivial fun paths u frame => releaseLeases_safe manager paths none (grounded.frame frame)

/-! ### Background tick -/

theorem flushDelete_safe (locking : manager.config.fileLock = true) (etag : Option String)
    (grounded : Grounded none s) :
    contract.Safe (fun _ t => Grounded none t) (manager.flushDelete (F := F) path etag) s := by
  simp only [SyncManager.flushDelete, deleteFile_bind, locking, if_true]
  refine safe_steady trivial trivial fun reply t frame => ?_
  have grounded := grounded.frame frame
  rcases (reply : Except S3Error Unit) with e | _
  · dsimp only
    split
    · exact (refreshLocalFromRemote_safe grounded).bind fun _ _ grounded => safe_return grounded _
    · split
      · exact safe_steady trivial trivial fun _ u frame => safe_return (grounded.frame frame) _
      · exact safe_return grounded _
  · exact safe_return grounded _

theorem flushUpload_safe (locking : manager.config.fileLock = true) (grounded : Grounded none s) :
    contract.Safe (fun _ t => Grounded none t) (manager.flushUpload (F := F) path) s := by
  have requeued (t : Node F) (grounded : Grounded none t) (e : SyncError) :
      contract.Safe (fun _ t => Grounded none t) (do
        SyncManager.requeue path
        (pure (.error e) : Task F (Except SyncError Bool))) t := by
    simp only [SyncManager.requeue, withQueue_bind]
    exact safe_steady trivial trivial fun _ u frame => safe_return (grounded.frame frame) _
  unfold SyncManager.flushUpload
  split
  · exact safe_return grounded _
  · refine isLocked_safe.bind fun locked t done => ?_
    have grounded := grounded.frame done.1
    split
    · exact safe_return grounded _
    · refine (condForUpload_safe grounded).bind fun cond u done => ?_
      refine (uploadWithCond_safe manager done.1 done.2).bind fun result v done => ?_
      rcases result with e | etag
      · dsimp only
        split
        · refine (handleUploadConflict_safe manager locking done.1).bind fun outcome w grounded => ?_
          rcases outcome with e | _
          · dsimp only
            split
            · exact safe_return grounded _
            · exact requeued w grounded e
          · exact safe_return grounded _
        · exact requeued v done.1 e
      · exact safe_return done.1 _

theorem flushLoop_safe (locking : manager.config.fileLock = true) (batch processed : Nat)
    (grounded : Grounded none s) :
    contract.Safe (fun _ t => Grounded none t) (manager.flushLoop (F := F) batch processed) s := by
  have stamped (t : Node F) (grounded : Grounded none t) (count : Nat) :
      contract.Safe (fun _ t => Grounded none t) (manager.flushLoop (F := F) 0 count) t := by
    simp only [SyncManager.flushLoop, instant_bind, withSchedule_bind]
    exact safe_steady trivial trivial fun _ u frame => safe_steady trivial trivial fun _ v later =>
      safe_return (grounded.frame (frame.trans later)) _
  induction batch generalizing s processed with
  | zero => exact stamped s grounded processed
  | succ batch ih =>
    rw [SyncManager.flushLoop, withQueue_bind]
    refine safe_steady trivial trivial fun queue t frame => ?_
    have grounded := grounded.frame frame
    split
    · exact stamped t grounded processed
    · refine (flushUpload_safe manager locking grounded).bind fun result u grounded => ?_
      rcases result with e | counted
      · exact safe_return grounded _
      · exact ih _ grounded
    · exact (flushDelete_safe manager locking _ grounded).bind fun _ u grounded => ih _ grounded

theorem flushOutbound_safe (locking : manager.config.fileLock = true) (grounded : Grounded none s) :
    contract.Safe (fun _ t => Grounded none t) (manager.flushOutbound (F := F)) s :=
  flushLoop_safe manager locking _ _ grounded

theorem forceFlush_safe (locking : manager.config.fileLock = true) (rounds : Nat) (grounded : Grounded none s) :
    contract.Safe (fun _ t => Grounded none t) (manager.forceFlush (F := F) rounds) s := by
  induction rounds generalizing s with
  | zero => exact fun _ _ => trivial
  | succ rounds ih =>
    simp only [SyncManager.forceFlush, withQueue_bind]
    refine safe_steady trivial trivial fun queue t frame => ?_
    have grounded := grounded.frame frame
    split
    · exact safe_return grounded _
    · refine (flushOutbound_safe manager locking grounded).bind fun result u grounded => ?_
      rcases result with e | count
      · exact safe_return grounded _
      · exact (ih grounded).bind fun rest v grounded => safe_return grounded _

theorem hasPendingOp_safe :
    contract.Safe (fun _ t => Frame s t) (SyncManager.hasPendingOp (F := F) path) s := by
  refine (keeps_frame s).safe ?_ (.refl s)
  exact ⟨⟨trivial, trivial⟩, fun _ => trivial⟩

theorem downloadFile_safe {info : S3ObjectInfo} (grounded : Grounded none s) (unleased : Unleased info.path s) :
    contract.Safe (fun _ t => Grounded none t) (SyncManager.downloadFile (F := F) info) s := by
  simp only [SyncManager.downloadFile, getFile_bind]
  refine safe_get fun reply t frame current => ?_
  have grounded := grounded.frame frame
  rcases reply with e | _ | ⟨data, found⟩
  · exact safe_return grounded _
  · exact safe_return grounded _
  · refine (storeDownload_safe grounded (current data found rfl)).weaken fun result u done => ?_
    rcases result with e | _
    · exact grounded.frame done
    · exact (Stored.unleased done (unleased.frame frame)).2

theorem pollMarker_safe {info : S3ObjectInfo} (grounded : Grounded none s) :
    contract.Safe (fun _ t => Grounded none t) (SyncManager.pollMarker (F := F) info) s := by
  refine tame_safe ?_ grounded
  simp only [SyncManager.pollMarker, withCache_bind, only_next]
  refine ⟨fun cache name etag pinned => pinned, fun cache => ?_⟩
  split
  · trivial
  · simp only [onFs_bind, only_next]
    exact ⟨⟨trivial, trivial⟩, fun _ => ⟨fun cache name etag pinned => pinned, fun _ => trivial⟩⟩

theorem pollFile_safe {info : S3ObjectInfo} (grounded : Grounded none s) :
    contract.Safe (fun _ t => Grounded none t) (SyncManager.pollFile (F := F) info) s := by
  simp only [SyncManager.pollFile, withCache_bind]
  refine safe_cache fun t cached leased kept grow => ?_
  have grounded := grounded.frame ⟨cached, leased, kept, grow⟩
  split
  · exact safe_return grounded _
  · refine isLocked_safe.bind fun locked u done => ?_
    have grounded := grounded.frame done.1
    cases locked with
    | true => exact safe_return grounded _
    | false =>
      refine hasPendingOp_safe.bind fun pending v frame => ?_
      have grounded := grounded.frame frame
      cases pending with
      | true => exact safe_return grounded _
      | false =>
        refine (downloadFile_safe grounded ((done.2 rfl).frame frame)).bind fun result w grounded => ?_
        rcases result with e | _ <;> exact safe_return grounded _

theorem pollObjects_safe (objects : List S3ObjectInfo) (stats : SyncStats) (grounded : Grounded none s) :
    contract.Safe (fun _ t => Grounded none t) (SyncManager.pollObjects (F := F) objects stats) s := by
  induction objects generalizing s stats with
  | nil => exact safe_return grounded _
  | cons info rest ih =>
    unfold SyncManager.pollObjects
    split
    · exact (pollMarker_safe grounded).bind fun _ t grounded => ih _ grounded
    · exact (pollFile_safe grounded).bind fun _ t grounded => ih _ grounded

theorem deleteLocalFile_safe (grounded : Grounded none s) (unleased : Unleased path s) :
    contract.Safe (fun _ t => Grounded none t) (SyncManager.deleteLocalFile (F := F) path) s := by
  simp only [SyncManager.deleteLocalFile, onFs_bind]
  refine safe_unlink grounded (fun e t frame => safe_return (grounded.frame frame) _) fun t grounded manager => ?_
  simp only [withCache_bind]
  refine safe_cache fun u cached leased _ grow => safe_return (grounded.of_basis_at grow ?_ ?_) _
  · intro name etag different pinned
    rw [Basis, cached, MetadataCache.etag_remove, if_neg different, ManagerState.baseEtag, leased] at pinned
    exact pinned
  · intro etag pinned
    rw [Basis, cached, MetadataCache.etag_remove, if_pos rfl, ManagerState.baseEtag, leased, manager, LeaseTable.base,
      show _ = none from unleased] at pinned
    rcases pinned with pinned | pinned <;> cases pinned

theorem pollGone_safe (listed : List String) (grounded : Grounded none s) :
    contract.Safe (fun _ t => Grounded none t) (SyncManager.pollGone (F := F) listed path) s := by
  unfold SyncManager.pollGone
  split
  · exact safe_return grounded _
  · refine isLocked_safe.bind fun locked t done => ?_
    have grounded := grounded.frame done.1
    cases locked with
    | true => exact safe_return grounded _
    | false =>
      refine hasPendingOp_safe.bind fun pending u frame => ?_
      have grounded := grounded.frame frame
      cases pending with
      | true => exact safe_return grounded _
      | false =>
        refine (deleteLocalFile_safe grounded ((done.2 rfl).frame frame)).bind fun result v grounded => ?_
        rcases result with e | _ <;> exact safe_return grounded _

theorem pollDeleted_safe (listed paths : List String) (stats : SyncStats) (grounded : Grounded none s) :
    contract.Safe (fun _ t => Grounded none t) (SyncManager.pollDeleted (F := F) listed paths stats) s := by
  induction paths generalizing s stats with
  | nil => exact safe_return grounded _
  | cons path rest ih => exact (pollGone_safe listed grounded).bind fun _ t grounded => ih _ grounded

theorem pollInbound_safe (grounded : Grounded none s) :
    contract.Safe (fun _ t => Grounded none t) (SyncManager.pollInbound (F := F)) s := by
  simp only [SyncManager.pollInbound, listFiles_bind]
  refine safe_steady trivial trivial fun reply t frame => ?_
  have grounded := grounded.frame frame
  rcases (reply : Except S3Error (List ObjectMeta)) with e | metas
  · exact safe_return grounded _
  refine (pollObjects_safe _ _ grounded).bind fun stats u grounded => ?_
  simp only [withCache_bind]
  refine safe_cache fun v cached leased kept grow => ?_
  have grounded := grounded.frame ⟨cached, leased, kept, grow⟩
  simp only [arrange_bind]
  refine safe_steady trivial trivial fun paths w frame => ?_
  refine (pollDeleted_safe _ paths stats (grounded.frame frame)).bind fun stats x grounded => ?_
  refine tame_safe ?_ grounded
  simp only [only_next]
  exact ⟨fun cache name etag pinned => pinned, fun cache => ⟨⟨trivial, trivial⟩, fun dirs =>
    (pollDirs_tame _ dirs).bind fun _ => trivial⟩⟩

theorem flushIfDue_safe (locking : manager.config.fileLock = true) (grounded : Grounded none s) :
    contract.Safe (fun _ t => Grounded none t) (manager.flushIfDue (F := F)) s := by
  simp only [SyncManager.flushIfDue, withQueue_bind, withSchedule_bind, instant_bind]
  refine safe_steady trivial trivial fun queue t frame => safe_steady trivial trivial fun schedule u later =>
    safe_steady trivial trivial fun now v last => ?_
  have grounded := grounded.frame ((frame.trans later).trans last)
  split
  · refine (flushOutbound_safe manager locking grounded).bind fun result w grounded => ?_
    rcases result with e | count <;> exact safe_return grounded _
  · exact safe_return grounded _

theorem pollIfDue_safe (grounded : Grounded none s) :
    contract.Safe (fun _ t => Grounded none t) (manager.pollIfDue (F := F)) s := by
  simp only [SyncManager.pollIfDue, withSchedule_bind, instant_bind]
  refine safe_steady trivial trivial fun schedule t frame => safe_steady trivial trivial fun now u later => ?_
  have grounded := grounded.frame (frame.trans later)
  split
  · refine (pollInbound_safe grounded).bind fun polled v grounded => ?_
    refine safe_steady trivial trivial fun now w frame => safe_steady trivial trivial fun _ x later => ?_
    rcases polled with e | stats <;> exact safe_return (grounded.frame (frame.trans later)) _
  · exact safe_return grounded _

theorem maybeSync_safe (locking : manager.config.fileLock = true) (grounded : Grounded none s) :
    contract.Safe (fun _ t => Grounded none t) (manager.maybeSync (F := F)) s := by
  simp only [SyncManager.maybeSync, withSchedule_bind, locking, if_true]
  refine safe_steady trivial trivial fun schedule t frame => ?_
  have grounded := grounded.frame frame
  split
  · exact safe_return grounded _
  · refine (tame_safe (renewLeases_tame manager) grounded).bind fun _ u grounded => ?_
    refine (flushIfDue_safe manager locking grounded).bind fun flushed v grounded => ?_
    exact (pollIfDue_safe manager grounded).bind fun polled w grounded => safe_return grounded _

end

/-! ### Initial load -/

/-- A cache under construction, all of whose entries are known. -/
def CacheKnown (cache : MetadataCache) (log : Log F) : Prop :=
  ∀ path etag, cache.etag path = some etag → Known path etag log

theorem CacheKnown.frame {cache : MetadataCache} {t : Node F} (known : CacheKnown cache s.log) (frame : Frame s t) :
    CacheKnown cache t.log := fun path etag found => frame.known (known path etag found)

/-- Nothing is pinned yet. -/
def Blank (s : Node F) : Prop := ∀ path etag, ¬ Basis s.state.manager path etag

theorem Blank.frame {t : Node F} (blank : Blank s) (frame : Frame s t) : Blank t :=
  fun path etag pinned => blank path etag (pinned.frame frame)

theorem Blank.grounded (blank : Blank s) {hole : Option String} : Grounded hole s :=
  fun path etag _ pinned => (blank path etag pinned).elim

theorem populateDirs_safe (dirs : List S3ObjectInfo) {cache : MetadataCache} (blank : Blank s)
    (known : CacheKnown cache s.log) :
    contract.Safe (fun cache t => Blank t ∧ CacheKnown cache t.log) (populateDirs (F := F) dirs cache) s := by
  induction dirs generalizing s cache with
  | nil => exact Contract.safe_done fun t moves => ⟨blank.frame (.of_rely moves), known.frame (.of_rely moves)⟩
  | cons info rest ih =>
    simp only [populateDirs, onFs_bind]
    exact safe_steady trivial trivial fun _ t frame => ih (blank.frame frame) (known.frame frame)

theorem Known.load {path : String} {data : Bytes} {t u : Node F} {reply : Except S3Error Unit}
    (effect : contract.effect (.fs (.loadFile path data)) t reply u) (loaded : reply = .ok ()) :
    Known path (etagFor data) u.log ∧
      ∀ {name etag}, name ≠ path → Known name etag t.log → Known name etag u.log := by
  obtain ⟨⟨turn, _, answer, later⟩, logged⟩ := node_effect effect
  have replaced : content u.state.fs = Function.update (content t.state.fs) path (some data) := by
    rw [later]; exact load_ok (answer.symm.trans loaded)
  refine ⟨⟨data, rfl, by rw [logged]; exact .inl ⟨rfl, rfl, loaded⟩⟩, fun different known => ?_⟩
  exact known.grow logged (.inl (by rw [replaced, Function.update_of_ne different]))

theorem populateFiles_safe (files : List S3ObjectInfo) {cache : MetadataCache} (blank : Blank s)
    (known : CacheKnown cache s.log) :
    contract.Safe (fun result t => Blank t ∧ ∀ cache, result = .ok cache → CacheKnown cache t.log)
      (populateFiles (F := F) files cache) s := by
  induction files generalizing s cache with
  | nil =>
    refine Contract.safe_done fun t moves => ⟨blank.frame (.of_rely moves), fun _ same => ?_⟩
    cases same
    exact known.frame (.of_rely moves)
  | cons info rest ih =>
    simp only [populateFiles, getFile_bind]
    refine safe_get fun reply t frame current => ?_
    have blank := blank.frame frame
    have known := known.frame frame
    rcases reply with e | _ | ⟨data, found⟩
    · exact ih blank known
    · exact ih blank known
    simp only [onFs_bind]
    -- The downloaded file is loaded, and cached with the tag of the download.
    refine Contract.safe_call fun u moves => ⟨trivial, fun loaded v effect => ⟨justified_calm trivial effect, ?_⟩⟩
    have frame := Frame.of_rely moves
    have blank : Blank v := by
      obtain ⟨⟨turn, _, _, later⟩, _⟩ := node_effect effect
      intro path etag pinned
      rw [later] at pinned
      exact blank.frame frame path etag pinned
    rcases loaded with e | _
    · exact Contract.safe_done fun w moves => ⟨blank.frame (.of_rely moves), fun _ same => by cases same⟩
    · refine ih blank fun path etag cached => ?_
      rw [MetadataCache.etag_updateAfterDownload] at cached
      obtain ⟨own, others⟩ := Known.load effect rfl
      split at cached
      · next same =>
        rw [same, ← Option.some.inj cached, current data found rfl]
        exact own
      · next different => exact others different (frame.known (known path etag cached))

theorem populateFromS3_safe (blank : Blank s) :
    contract.Safe (fun result t => Blank t ∧ ∀ cache, result = .ok cache → CacheKnown cache t.log)
      (populateFromS3 (F := F)) s := by
  simp only [populateFromS3, listFiles_bind]
  refine safe_steady trivial trivial fun reply t frame => ?_
  have blank := blank.frame frame
  rcases (reply : Except S3Error (List ObjectMeta)) with e | metas
  · exact Contract.safe_done fun u moves => ⟨blank.frame (.of_rely moves), fun _ same => by cases same⟩
  · refine (populateDirs_safe _ blank fun path etag found => ?_).bind fun cache u done =>
      populateFiles_safe _ done.1 done.2
    cases found

theorem loadOrEmpty_safe (fresh : F) (blank : Blank s) :
    contract.Safe (fun cache t => Blank t ∧ CacheKnown cache t.log) (loadOrEmpty (F := F) fresh) s := by
  refine (populateFromS3_safe blank).bind fun result t done => ?_
  rcases result with e | cache
  · simp only [app_bind]
    refine safe_app fun fs u manager grow => Contract.safe_done fun v moves => ⟨fun path etag pinned => ?_, ?_⟩
    · rw [moves.1, manager] at pinned
      exact done.1 path etag pinned
    · intro path etag found
      cases found
  · exact Contract.safe_done fun u moves => ⟨done.1.frame (.of_rely moves), (done.2 cache rfl).frame (.of_rely moves)⟩

theorem initServer_safe (fresh : F) (blank : Blank s) :
    contract.Safe (fun _ t => Grounded none t) (initServer (F := F) fresh) s := by
  refine (loadOrEmpty_safe fresh blank).bind fun cache t done => ?_
  simp only [withCache_bind, instant_bind, withSchedule_bind]
  refine safe_cache fun u cached leased _ grow => ?_
  have grounded : Grounded none u := fun path etag _ pinned => by
    rcases pinned with pinned | pinned
    · rw [cached] at pinned
      exact grow (done.2 path etag pinned)
    · rw [ManagerState.baseEtag, leased] at pinned
      exact (done.1 path etag (.inr pinned)).elim
  exact safe_steady trivial trivial fun now v frame => safe_steady trivial trivial fun _ w later =>
    safe_return (grounded.frame (frame.trans later)) _

/-- Every call of an instance keeps its pinned ETags tied to its history. -/
theorem call_safe {manager : SyncManager} (locking : manager.config.fileLock = true) (call : Call F)
    (grounded : Grounded none s) :
    contract.Safe (fun _ t => Grounded none t) (call.task manager) s := by
  have drop {A : Type} {task : Task F A} (safe : contract.Safe (fun _ t => Grounded none t) task s) :
      contract.Safe (fun _ t => Grounded none t) (task >>= fun _ => (pure () : Task F Unit)) s :=
    safe.bind fun _ _ grounded => safe_return grounded _
  have after {change : F → F} {task : Task F Unit}
      (safe : ∀ t, Grounded none t → contract.Safe (fun _ t => Grounded none t) task t) :
      contract.Safe (fun _ t => Grounded none t) (app change >>= fun _ => task) s := by
    simp only [app_bind]
    refine safe_app fun fs t manager grow => safe t (grounded.of_basis grow fun path etag _ pinned => ?_)
    rwa [manager] at pinned
  -- The calls that neither read nor send a version are tame.
  cases call with
  | openWrite rounds path => exact drop (onOpenWrite_safe manager rounds grounded)
  | close path => exact drop (onClose_safe manager grounded)
  | fsync path => exact drop (onFsync_safe manager locking grounded)
  | write path change => exact after fun t grounded => tame_safe (enqueueUpload_tame path) grounded
  | writeNow path change =>
    exact after fun t grounded => (syncFileNow_safe manager locking grounded).bind fun _ _ grounded => safe_return grounded _
  | unlink path change => exact after fun t grounded => tame_safe (enqueueDelete_tame path) grounded
  | read path => exact drop (refreshFileFromS3_safe grounded)
  | stat path => exact drop (checkAndRefreshFromS3_safe grounded)
  | mkdir path => exact drop (tame_safe (onMkdir_tame path) grounded)
  | rmdir path => exact drop (tame_safe (onRmdir_tame path) grounded)
  | flushOutbound => exact drop (flushOutbound_safe manager locking grounded)
  | forceFlush rounds => exact drop (forceFlush_safe manager locking rounds grounded)
  | pollInbound => exact drop (pollInbound_safe grounded)
  | maybeSync => exact drop (maybeSync_safe manager locking grounded)
  | renewLeases => exact tame_safe (renewLeases_tame manager) grounded
  | releaseAllLeases => exact drop (releaseAllLeases_safe manager grounded)

end
end MonakaFs.Sync.Provenance
