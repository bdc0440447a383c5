import MonakaFs.Sync.Provenance.Rules

/-! Provenance through the functions that move one file: queueing, uploads,
downloads and the conflicts between them.
-/

set_option autoImplicit false

namespace MonakaFs.Sync.Provenance

open Async LawfulBackend

section
variable [EtagScheme] {F : Type} [LawfulBackend F] {s : Node F}

/-! ### Uploads -/

section
variable (manager : SyncManager) {path : String}

/-- With true answers an acknowledged upload is the local copy itself. -/
theorem putUpload_safe {data : Bytes} {cond : Precondition} (based : Based path s.log cond)
    (current : content s.state.fs path = some data) :
    contract.Safe (fun result t => Frame s t ∧ ∀ etag, result = .ok etag → Known path etag t.log)
      (SyncManager.putUpload (F := F) path data cond) s := by
  have create (t : Node F) (frame : Frame s t) :
      contract.Safe (fun result t => Frame s t ∧ ∀ etag, result = .ok etag → Known path etag t.log)
        (putFile (F := F) path data .ifNoneMatchAny) t := by
    refine safe_put trivial (by rw [frame.content, current]) fun reply u kept stored _ => ?_
    refine Contract.safe_done fun v moves => ⟨(frame.trans kept).trans (.of_rely moves), fun etag same => ?_⟩
    exact (Frame.of_rely moves).known (stored etag same)
  have refused (t : Node F) (frame : Frame s t) (e : S3Error) :
      contract.Safe (fun result t => Frame s t ∧ ∀ etag, result = .ok etag → Known path etag t.log)
        (pure (.error e) : Task F (Except S3Error String)) t :=
    Contract.safe_done fun v moves => ⟨frame.trans (.of_rely moves), fun _ same => by cases same⟩
  simp only [SyncManager.putUpload, putFile_bind]
  refine safe_put based current fun reply u frame stored failed => ?_
  rcases reply with e | etag
  · dsimp only
    split
    · exact create u frame
    · split
      · refine safe_steady trivial trivial fun found v kept => ?_
        rcases (found : Except S3Error (Option ObjectMeta)) with other | _ | info
        · exact refused v (frame.trans kept) other
        · exact create v (frame.trans kept)
        · exact refused v (frame.trans kept) e
      · split
        · -- a true answer fails for its condition, so nothing is verified here
          rcases failed e rfl with rejected | ⟨missing, expected, rfl⟩
          · simp_all
          · simp_all [Precondition.isIfMatch]
        · exact refused u frame e
  · refine Contract.safe_done fun v moves => ⟨frame.trans (.of_rely moves), fun _ same => ?_⟩
    exact (Frame.of_rely moves).known (stored _ same)

/-- A path is grounded again once its cache entry and its lease name a known version. -/
theorem Grounded.pin {etag : String} {u : Node F} (grounded : Grounded (some path) s)
    (known : Known path etag u.log) (grow : ∀ {name etag}, Known name etag s.log → Known name etag u.log)
    (cached : ∀ name, u.state.manager.metadataCache.etag name =
      if name = path then some etag else s.state.manager.metadataCache.etag name)
    (others : ∀ name, name ≠ path → u.state.manager.baseEtag name = s.state.manager.baseEtag name)
    (own : ∀ other, u.state.manager.baseEtag path = some other → other = etag) : Grounded none u := by
  intro name other _ pinned
  by_cases same : name = path
  · subst same
    rw [Basis, cached, if_pos rfl] at pinned
    rcases pinned with pinned | pinned
    · rwa [← Option.some.inj pinned]
    · rwa [own other pinned]
  · rw [Basis, cached, if_neg same, others name same] at pinned
    exact grow (grounded name other (by simpa using same) pinned)

theorem Grounded.but (grounded : Grounded none s) : Grounded (some path) s :=
  fun name etag _ pinned => grounded name etag (by simp) pinned

theorem recordUpload_safe {etag : String} (size modified : Nat) (grounded : Grounded none s)
    (known : Known path etag s.log) :
    contract.Safe (fun _ t => Grounded none t ∧ Known path etag t.log)
      (SyncManager.recordUpload (F := F) path etag size modified) s := by
  simp only [SyncManager.recordUpload, instant_bind, withCache_bind, withLeases_bind]
  refine safe_steady trivial trivial fun now u frame => ?_
  refine safe_cache fun v cached leased _ grow => safe_leases fun w altered kept _ grow' => ?_
  have known := grow' (grow (frame.known known))
  refine Contract.safe_done fun x moves => ⟨Grounded.frame ?_ (.of_rely moves), (Frame.of_rely moves).known known⟩
  refine (grounded.frame frame).but.pin known (fun known => grow' (grow known)) (fun name => ?_)
    (fun name different => ?_) fun other pinned => ?_
  · rw [kept, cached, MetadataCache.etag_updateAfterUpload]
  · rw [ManagerState.baseEtag, altered, leased, LeaseTable.base_alter_ne _ different]
    rfl
  · rw [ManagerState.baseEtag, altered] at pinned
    exact (Option.some.inj (LeaseTable.base_alter_pin _ (fun _ => (rfl : _ = some etag)) pinned)).symm

/-- An upload under a known condition keeps the invariant and makes its ETag known. -/
theorem uploadWithCond_safe {cond : Precondition} (grounded : Grounded none s) (based : Based path s.log cond) :
    contract.Safe (fun result t => Grounded none t ∧ ∀ etag, result = .ok etag → Known path etag t.log)
      (manager.uploadWithCond (F := F) path cond) s := by
  have failed (t : Node F) (frame : Frame s t) (e : SyncError) :
      contract.Safe (fun result t => Grounded none t ∧ ∀ etag, result = .ok etag → Known path etag t.log)
        (pure (.error e) : Task F (Except SyncError String)) t :=
    Contract.safe_done fun v moves =>
      ⟨grounded.frame (frame.trans (.of_rely moves)), fun _ same => by cases same⟩
  simp only [SyncManager.uploadWithCond, onFs_bind]
  refine safe_read fun reply u frame current => ?_
  rcases reply with e | data
  · exact failed u frame _
  -- The local file stays what was read until it is sent.
  have current := current data rfl
  refine safe_steady trivial trivial fun modified v kept => ?_
  rw [← kept.content] at current
  have frame := frame.trans kept
  refine (silent_frame (passthroughChecks_silent manager path) v).bind fun checked w kept => ?_
  rw [← kept.content] at current
  have frame := frame.trans kept
  rcases checked with e | _
  · exact failed w frame _
  refine (putUpload_safe (based.frame frame) current).bind fun result x done => ?_
  obtain ⟨kept, stored⟩ := done
  have frame := frame.trans kept
  rcases result with e | etag
  · exact failed x frame _
  refine (recordUpload_safe _ _ (grounded.frame frame) (stored etag rfl)).bind fun _ y done => ?_
  refine Contract.safe_done fun z moves => ⟨done.1.frame (.of_rely moves), fun other same => ?_⟩
  cases same
  exact (Frame.of_rely moves).known done.2

/-! ### Downloads -/

/-- What a stored download leaves behind, before a lease on the path is looked at. -/
structure Stored (path etag : String) (s t : Node F) : Prop where
  leases : t.state.manager.leases = s.state.manager.leases
  known : Known path etag t.log
  grounded : Grounded (some path) t
  cached : t.state.manager.metadataCache.etag path = some etag

/-- The path is grounded if its lease, too, names the stored version. -/
theorem Stored.close {etag : String} {t u : Node F} (stored : Stored path etag s t)
    (grow : ∀ {name etag}, Known name etag t.log → Known name etag u.log)
    (cached : u.state.manager.metadataCache = t.state.manager.metadataCache)
    (others : ∀ name, name ≠ path → u.state.manager.baseEtag name = t.state.manager.baseEtag name)
    (own : ∀ other, u.state.manager.baseEtag path = some other → other = etag) : Grounded none u := by
  refine stored.grounded.pin (grow stored.known) grow (fun name => ?_) others own
  rw [cached]
  split
  · next same => rw [same, stored.cached]
  · rfl

theorem storeDownload_safe {data : Bytes} {info : ObjectMeta} (grounded : Grounded none s)
    (current : info.etag = etagFor data) :
    contract.Safe (fun result t => match result with
      | .error _ => Frame s t
      | .ok () => Stored path info.etag s t) (SyncManager.storeDownload (F := F) path data info) s := by
  simp only [SyncManager.storeDownload, onFs_bind]
  refine safe_write grounded (fun e t frame => ?_) fun u grounded known manager => ?_
  · exact Contract.safe_done fun v moves => frame.trans (.of_rely moves)
  simp only [withCache_bind]
  refine safe_cache fun v cached leased _ grow => Contract.safe_done fun w moves => ?_
  have frame := Frame.of_rely moves
  have cached (name : String) : w.state.manager.metadataCache.etag name =
      if name = path then some info.etag else u.state.manager.metadataCache.etag name := by
    rw [frame.cache, cached, MetadataCache.etag_updateAfterDownload]
  have leased : w.state.manager.leases = u.state.manager.leases := by rw [frame.leases, leased]
  rw [← current] at known
  refine ⟨by rw [leased, manager], frame.known (grow known), ?_, by rw [cached, if_pos rfl]⟩
  refine grounded.of_basis (fun known => frame.known (grow known)) fun name etag outside pinned => ?_
  have different : name ≠ path := fun same => outside (by rw [same])
  rw [Basis, cached, if_neg different, ManagerState.baseEtag, leased] at pinned
  exact pinned

theorem safe_return {A : Type} (grounded : Grounded none s) (value : A) :
    contract.Safe (fun _ t => Grounded none t) (pure value : Task F A) s :=
  Contract.safe_done fun _ moves => grounded.frame (.of_rely moves)

theorem refreshLocalFromRemote_safe (grounded : Grounded none s) :
    contract.Safe (fun _ t => Grounded none t) (SyncManager.refreshLocalFromRemote (F := F) path) s := by
  simp only [SyncManager.refreshLocalFromRemote, getFile_bind]
  refine safe_get fun reply u frame current => ?_
  have grounded := grounded.frame frame
  rcases reply with e | _ | ⟨data, info⟩
  · exact safe_return grounded _
  · -- the object is gone: the cache entry goes, and so does the lease base
    simp only [withCache_bind, withLeases_bind]
    refine safe_cache fun v cached leased _ grow => safe_leases fun w altered kept _ grow' => ?_
    refine safe_return (grounded.of_basis (fun known => grow' (grow known)) fun name etag _ pinned => ?_) _
    rcases pinned with pinned | pinned
    · rw [kept, cached, MetadataCache.etag_remove] at pinned
      split at pinned
      · cases pinned
      · exact .inl pinned
    · rw [ManagerState.baseEtag, altered, leased] at pinned
      by_cases same : name = path
      · subst same
        exact absurd (LeaseTable.base_alter_pin _ (fun _ => (rfl : _ = none)) pinned) (by simp)
      · rw [LeaseTable.base_alter_ne _ same] at pinned
        exact .inr pinned
  · refine (storeDownload_safe grounded (current data info rfl)).bind fun result v done => ?_
    rcases result with e | _
    · exact safe_return (grounded.frame done) _
    · simp only [withLeases_bind]
      refine safe_leases fun w altered kept _ grow => safe_return ?_ _
      refine Stored.close done grow kept (fun name different => ?_) fun other pinned => ?_
      · rw [ManagerState.baseEtag, altered, LeaseTable.base_alter_ne _ different]
        rfl
      · rw [ManagerState.baseEtag, altered] at pinned
        exact (Option.some.inj (LeaseTable.base_alter_pin _ (fun _ => (rfl : _ = some info.etag)) pinned)).symm

theorem conflict_safe (grounded : Grounded none s) :
    contract.Safe (fun _ t => Grounded none t) (SyncManager.conflict (F := F) path) s :=
  (refreshLocalFromRemote_safe grounded).bind fun _ _ grounded => safe_return grounded _

def Unleased (path : String) (s : Node F) : Prop := s.state.manager.leases.lookup path = none

theorem Unleased.frame {t : Node F} (unleased : Unleased path s) (frame : Frame s t) : Unleased path t := by
  unfold Unleased at *
  rwa [frame.leases]

theorem isLocked_safe :
    contract.Safe (fun locked t => Frame s t ∧ (locked = false → Unleased path t))
      (SyncManager.isLocked (F := F) path) s := by
  simp only [SyncManager.isLocked, withLeases_bind]
  refine safe_leases fun u leased cached kept grow => ?_
  refine Contract.safe_done fun v moves => ⟨Frame.trans ⟨cached, leased, kept, grow⟩ (.of_rely moves), ?_⟩
  intro free
  rw [Unleased, (Frame.of_rely moves).leases, leased]
  exact Option.isSome_eq_false_iff.mp free |> Option.isNone_iff_eq_none.mp

theorem Stored.unleased {etag : String} {t : Node F} (stored : Stored path etag s t) (unleased : Unleased path s) :
    Unleased path t ∧ Grounded none t := by
  have unleased : Unleased path t := by rw [Unleased, stored.leases]; exact unleased
  refine ⟨unleased, stored.close id rfl (fun _ _ => rfl) fun other pinned => ?_⟩
  rw [ManagerState.baseEtag, LeaseTable.base, show _ = none from unleased] at pinned
  cases pinned

theorem refreshFileFromS3_safe (grounded : Grounded none s) :
    contract.Safe (fun _ t => Grounded none t) (SyncManager.refreshFileFromS3 (F := F) path) s := by
  refine isLocked_safe.bind fun locked t done => ?_
  obtain ⟨frame, free⟩ := done
  have grounded := grounded.frame frame
  cases locked with
  | true => exact safe_return grounded _
  | false =>
    have unleased := free rfl
    simp only [getFile_bind, Bool.false_eq_true, if_false]
    refine safe_get fun reply u frame current => ?_
    have grounded := grounded.frame frame
    rcases reply with e | _ | ⟨data, info⟩
    · exact safe_return grounded _
    · exact safe_return grounded _
    · refine (storeDownload_safe grounded (current data info rfl)).bind fun result v done => ?_
      rcases result with e | _
      · exact safe_return (grounded.frame done) _
      · exact safe_return (Stored.unleased done (unleased.frame frame)).2 _

/-- The refresh before an open pins nothing or a known version. -/
theorem headAndRefresh_safe (grounded : Grounded none s) (unleased : Unleased path s) :
    contract.Safe (fun result t => Grounded none t ∧
      ∀ etag refreshed, result = .ok (some etag, refreshed) → Known path etag t.log)
      (SyncManager.headAndRefresh (F := F) path) s := by
  have idle (t : Node F) (grounded : Grounded none t) (result : Except SyncError (Option String × Bool))
      (known : ∀ etag refreshed, result = .ok (some etag, refreshed) → Known path etag t.log) :
      contract.Safe (fun result t => Grounded none t ∧
        ∀ etag refreshed, result = .ok (some etag, refreshed) → Known path etag t.log)
        (pure result : Task F _) t :=
    Contract.safe_done fun v moves => ⟨grounded.frame (.of_rely moves), fun etag refreshed same =>
      (Frame.of_rely moves).known (known etag refreshed same)⟩
  simp only [SyncManager.headAndRefresh, headFile_bind]
  refine safe_steady trivial trivial fun reply t frame => ?_
  have grounded := grounded.frame frame
  have unleased := unleased.frame frame
  rcases (reply : Except S3Error (Option ObjectMeta)) with e | _ | found
  · exact idle t grounded _ (by simp)
  · exact idle t grounded _ (by simp)
  simp only [withCache_bind]
  refine safe_cache fun u cached leased kept grow => ?_
  have frame : Frame t u := ⟨cached, leased, kept, grow⟩
  have grounded' := grounded.frame frame
  have unleased := unleased.frame frame
  split
  -- The cached tag is that of the HEAD.
  · next same =>
    refine idle u grounded' _ fun etag refreshed equal => ?_
    obtain ⟨⟩ := equal
    exact frame.known (grounded path _ (by simp) (.inl same))
  -- Another version is loaded, unless the GET finds the file gone.
  · simp only [getFile_bind]
    refine safe_get fun reply v frame current => ?_
    have grounded := grounded'.frame frame
    rcases reply with e | _ | ⟨data, info⟩
    · exact idle v grounded _ (by simp)
    · exact idle v grounded _ (by simp)
    · refine (storeDownload_safe grounded (current data info rfl)).bind fun result w done => ?_
      rcases result with e | _
      · exact idle w (grounded.frame done) _ (by simp)
      · refine idle w (Stored.unleased done (unleased.frame frame)).2 _ fun etag refreshed equal => ?_
        obtain ⟨⟩ := equal
        exact Stored.known done

theorem checkAndRefreshFromS3_safe (grounded : Grounded none s) :
    contract.Safe (fun _ t => Grounded none t) (SyncManager.checkAndRefreshFromS3 (F := F) path) s := by
  refine isLocked_safe.bind fun locked t done => ?_
  obtain ⟨frame, free⟩ := done
  have grounded := grounded.frame frame
  cases locked with
  | true => exact safe_return grounded _
  | false => exact (headAndRefresh_safe grounded (free rfl)).bind fun _ _ done => safe_return done.1 _

theorem condForUpload_safe (grounded : Grounded none s) :
    contract.Safe (fun cond t => Grounded none t ∧ Based path t.log cond)
      (SyncManager.condForUpload (F := F) path) s := by
  have pinned (t : Node F) (grounded : Grounded none t) (base : Option String)
      (basis : ∀ etag, base = some etag → Basis t.state.manager path etag) :
      contract.Safe (fun cond t => Grounded none t ∧ Based path t.log cond)
        (pure (baseCond base) : Task F Precondition) t := by
    refine Contract.safe_done fun u moves => ⟨grounded.frame (.of_rely moves), ?_⟩
    cases base with
    | none => trivial
    | some etag => exact (Frame.of_rely moves).known (grounded path etag (by simp) (basis etag rfl))
  simp only [SyncManager.condForUpload, withLeases_bind]
  refine safe_leases fun t leased cached kept grow => ?_
  have grounded := grounded.frame ⟨cached, leased, kept, grow⟩
  split
  · next lease found =>
    refine pinned t grounded lease.baseEtag fun etag same => .inr ?_
    rw [ManagerState.baseEtag, LeaseTable.base, leased]
    simpa [found] using same
  · simp only [withCache_bind]
    refine safe_cache fun u cached leased kept grow => ?_
    refine pinned u (grounded.frame ⟨cached, leased, kept, grow⟩) _ fun etag same => .inl ?_
    rw [cached]
    exact same

theorem handleUploadConflict_safe (locking : manager.config.fileLock = true) (grounded : Grounded none s) :
    contract.Safe (fun _ t => Grounded none t) (manager.handleUploadConflict (F := F) path) s := by
  simp only [SyncManager.handleUploadConflict, locking, Bool.true_eq_false, if_false]
  exact (conflict_safe grounded).bind fun _ _ grounded => safe_return grounded _

theorem syncFileNow_safe (locking : manager.config.fileLock = true) (grounded : Grounded none s) :
    contract.Safe (fun _ t => Grounded none t) (manager.syncFileNow (F := F) path) s := by
  refine (condForUpload_safe grounded).bind fun cond t done => ?_
  refine (uploadWithCond_safe manager done.1 done.2).bind fun result u done => ?_
  rcases result with e | etag
  · dsimp only
    split
    · exact handleUploadConflict_safe manager locking done.1
    · exact safe_return done.1 _
  · exact safe_return done.1 _

end

end
end MonakaFs.Sync.Provenance
