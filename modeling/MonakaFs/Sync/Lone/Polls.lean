import MonakaFs.Sync.Lone.Calls

/-! The poll, seen from one file.

A file with a lease or a queued change is left alone, and so is one whose cached ETag
is the listed one. What the poll does to other files does not matter.
-/

set_option autoImplicit false

namespace MonakaFs.Sync.Lone

open Async SyncManager LawfulBackend

section
variable {F : Type} {path other : String}

theorem storeDownload_resting (different : other ≠ path) (content : Bytes) (info : ObjectMeta) :
    Resting (F := F) path (storeDownload other content info) := by
  simp only [storeDownload, onFs_bind, withCache_bind, only_next]
  refine ⟨different, fun stored => ?_⟩
  rcases (stored : Except S3Error Unit) with e | _
  · trivial
  · exact ⟨fun cache => (MetadataCache.etag_updateAfterDownload ..).trans (if_neg (Ne.symm different)), fun _ => trivial⟩

theorem downloadFile_resting {info : S3ObjectInfo} (different : info.path ≠ path) :
    Resting (F := F) path (downloadFile info) := by
  simp only [downloadFile, getFile_bind, only_next]
  refine ⟨nofun, fun found => ?_⟩
  split
  · trivial
  · trivial
  · exact storeDownload_resting different _ _

theorem deleteLocalFile_resting (different : other ≠ path) : Resting (F := F) path (deleteLocalFile other) := by
  simp only [deleteLocalFile, onFs_bind, withCache_bind, only_next]
  refine ⟨different, fun removed => ?_⟩
  rcases (removed : Except S3Error Unit) with e | _
  · trivial
  · exact ⟨fun cache => (MetadataCache.etag_remove ..).trans (if_neg (Ne.symm different)), fun _ => trivial⟩

theorem isLocked_resting : Resting (F := F) path (isLocked other) := ⟨fun _ => rfl, fun _ => trivial⟩

theorem hasPendingOp_resting : Resting (F := F) path (hasPendingOp other) := ⟨fun _ => ⟨rfl, id⟩, fun _ => trivial⟩

theorem pollFile_resting {info : S3ObjectInfo} (different : info.path ≠ path) : Resting (F := F) path (pollFile info) := by
  simp only [pollFile, withCache_bind, only_next]
  refine ⟨fun _ => rfl, fun cache => ?_⟩
  split
  · trivial
  refine isLocked_resting.bind fun locked => ?_
  split
  · trivial
  refine hasPendingOp_resting.bind fun pending => ?_
  split
  · trivial
  · exact (downloadFile_resting different).bind fun result => by cases result <;> trivial

theorem pollMarker_resting (info : S3ObjectInfo) : Resting (F := F) path (pollMarker info) := by
  simp only [pollMarker, withCache_bind, only_next]
  refine ⟨fun _ => rfl, fun cache => ?_⟩
  split
  · trivial
  · exact ⟨trivial, fun _ => ⟨fun _ => rfl, fun _ => trivial⟩⟩

theorem pollGone_resting (listed : List String) (different : other ≠ path) : Resting (F := F) path (pollGone listed other) := by
  unfold pollGone
  split
  · trivial
  refine isLocked_resting.bind fun locked => ?_
  split
  · trivial
  refine hasPendingOp_resting.bind fun pending => ?_
  split
  · trivial
  · exact (deleteLocalFile_resting different).bind fun result => by cases result <;> trivial

theorem pollDirs_resting (listed dirs : List String) : Resting (F := F) path (pollDirs listed dirs) := by
  induction dirs with
  | nil => trivial
  | cons dir rest ih =>
    unfold pollDirs
    split
    · exact ih
    · exact ⟨trivial, fun _ => ⟨fun _ => rfl, fun _ => ih⟩⟩

end

/-- The poll stays away from the file. -/
def View.Guarded [EtagScheme] (v : View) : Prop := v.lease ≠ none ∨ v.queued ≠ []

section
variable [EtagScheme] {F A : Type} [LawfulBackend F] {path : String} {v : View} {s : Node F} {post : A → Node F → Prop}

/-- The checks before a poll touches a file. -/
theorem checks_spec {allowed : Task F Bool} (seen : Seen path v s.state) (guarded : v.Guarded) :
    (alone path).Safe (fun _ t => Seen path v t.state) (do
      if ← isLocked path then return false
      if ← hasPendingOp path then return false
      allowed) s := by
  simp only [isLocked_bind]
  refine leases_next (fun _ => id) seen fun table u known seen => ?_
  rw [known]
  split
  · exact return_seen seen fun _ => id
  · next free =>
    have pending : v.queued ≠ [] := guarded.resolve_left fun held => free (Option.isSome_iff_ne_none.mpr held)
    simp only [hasPendingOp_bind]
    refine queue_look seen fun queue w known seen => ?_
    obtain ⟨op, rest, some⟩ := List.exists_cons_of_ne_nil pending
    have member : op ∈ queue.filter (·.path = path) := by
      rw [show queue.filter (·.path = path) = op :: rest from known.trans some]
      exact List.mem_cons_self ..
    have here : queue.any (fun op => decide (op.path = path)) = true :=
      List.any_eq_true.mpr ⟨op, (List.mem_filter.mp member).1, (List.mem_filter.mp member).2⟩
    rw [if_pos here]
    exact return_seen seen fun _ => id

theorem pollFile_spec {info : S3ObjectInfo} (calm : v.Guarded ∨ (info.path = path → v.cached = some info.etag))
    (seen : Seen path v s.state) : (alone path).Safe (fun _ t => Seen path v t.state) (pollFile info) s := by
  by_cases own : info.path = path
  · subst own
    simp only [pollFile, withCache_bind]
    refine cache_next (fun _ => id) seen fun cache u known seen => ?_
    split
    · exact return_seen seen fun _ => id
    · next stale => exact checks_spec seen (calm.resolve_right fun current => stale (known.trans (current rfl)))
  · exact resting_safe (pollFile_resting own) seen

theorem pollObjects_spec {infos : List S3ObjectInfo} {stats : SyncStats}
    (calm : v.Guarded ∨ ∀ info ∈ infos, info.isDir = false → info.path = path → v.cached = some info.etag)
    (seen : Seen path v s.state) : (alone path).Safe (fun _ t => Seen path v t.state) (pollObjects infos stats) s := by
  induction infos generalizing s stats with
  | nil => exact return_seen seen fun _ => id
  | cons info rest ih =>
    have rest_calm := calm.imp_right fun each other member => each other (List.mem_cons_of_mem _ member)
    unfold pollObjects
    split
    · exact (resting_safe (pollMarker_resting info) seen).bind fun _ t seen => ih rest_calm seen
    · next file =>
      have own_calm := calm.imp_right fun each => each info (List.mem_cons_self ..) (by simpa using file)
      exact (pollFile_spec own_calm seen).bind fun _ t seen => ih rest_calm seen

theorem pollGone_spec {listed : List String} {other : String} (calm : v.Guarded ∨ (other = path → path ∈ listed))
    (seen : Seen path v s.state) : (alone path).Safe (fun _ t => Seen path v t.state) (pollGone listed other) s := by
  by_cases own : other = path
  · subst own
    unfold pollGone
    split
    · exact return_seen seen fun _ => id
    · next gone => exact checks_spec seen (calm.resolve_right fun present => gone (present rfl))
  · exact resting_safe (pollGone_resting listed own) seen

theorem pollDeleted_spec {listed paths : List String} {stats : SyncStats} (calm : v.Guarded ∨ (path ∈ paths → path ∈ listed))
    (seen : Seen path v s.state) : (alone path).Safe (fun _ t => Seen path v t.state) (pollDeleted listed paths stats) s := by
  induction paths generalizing s stats with
  | nil => exact return_seen seen fun _ => id
  | cons other rest ih =>
    have own_calm := calm.imp_right fun each (same : other = path) => each (same ▸ List.mem_cons_self ..)
    have rest_calm := calm.imp_right fun each member => each (List.mem_cons_of_mem _ member)
    exact (pollGone_spec own_calm seen).bind fun _ t seen => ih rest_calm seen

/-- A poll leaves a guarded file alone. -/
theorem pollInbound_guarded (guarded : v.Guarded) (seen : Seen path v s.state) :
    (alone path).Safe (fun _ t => Seen path v t.state) pollInbound s := by
  simp only [pollInbound, listFiles_bind]
  refine look_next rfl seen fun listed u seen => ?_
  refine (pollObjects_spec (.inl guarded) seen).bind fun stats w seen => ?_
  refine rests_next (.cache id) (fun _ => rfl) seen fun _ _ w _ _ seen => ?_
  refine rests_next (.arrange _) trivial seen fun _ _ w _ _ seen => ?_
  refine (pollDeleted_spec (.inl guarded) seen).bind fun stats x seen => ?_
  refine rests_next (.cache id) (fun _ => rfl) seen fun _ _ w _ _ seen => ?_
  refine rests_next (.arrange _) trivial seen fun _ _ w _ _ seen => ?_
  exact (resting_safe (pollDirs_resting _ _) seen).bind fun _ y seen => return_seen seen fun _ => id

/-! ### A file as the listing has it -/

/-- The path is spelled the way a listing spells it. -/
def Spelled (path : String) : Prop := pathFromFileKey (fileKey path) = some (path, false)

instance (path : String) : Decidable (Spelled path) := inferInstanceAs (Decidable (_ = _))

omit [EtagScheme] in
theorem Spelled.apart {path other : String} (spelled : Spelled path) (spelled' : Spelled other) (different : other ≠ path) :
    Apart path other := by
  refine ⟨different, fun same => different ?_⟩
  have both := spelled'
  rw [Spelled, same, spelled] at both
  exact (congrArg Prod.fst (Option.some.inj both)).symm

/-- The listing shows the file with its ETag. -/
theorem listed_etag (spelled : Spelled path) {t : Snapshot F} (seen : Seen path v t) {info : S3ObjectInfo}
    (listed : info ∈ (t.store.list filesPrefix none).filterMap fileInfo) (file : info.isDir = false) (own : info.path = path) :
    v.object.map (·.etag) = some info.etag := by
  obtain ⟨item, member, shown⟩ := List.mem_filterMap.mp listed
  obtain ⟨entry, present, rfl⟩ := List.mem_map.mp member
  obtain ⟨⟨name, dir⟩, named, rfl⟩ := Option.map_eq_some_iff.mp shown
  obtain rfl : name = path := own
  obtain rfl : dir = false := file
  have key : entry.1 = fileKey name := pathFromFileKey_inj named spelled
  have found : t.store.objects.lookup (fileKey name) = some entry.2 := by
    rw [← key]
    exact AList.mem_lookup_iff.mpr (List.mem_of_mem_filter present)
  have there : v.object = some entry.2 := by rw [← seen.view]; exact found
  rw [there]
  rfl

/-- What is in the store is listed. -/
theorem stored_listed (spelled : Spelled path) {t : Snapshot F} (seen : Seen path v t) (stored : v.object ≠ none) :
    path ∈ (((t.store.list filesPrefix none).filterMap fileInfo).filter fun info => !info.isDir).map (·.path) := by
  obtain ⟨version, there⟩ := Option.ne_none_iff_exists'.mp stored
  have found : t.store.objects.lookup (fileKey path) = some version := by rw [← there, ← seen.view]; rfl
  have here : filesPrefix.toList.isPrefixOf (fileKey path).toList = true := by
    rw [pathFromFileKey_file spelled]
    exact List.isPrefixOf_iff_prefix.mpr ⟨_, rfl⟩
  have entry : (⟨fileKey path, version⟩ : Sigma fun _ => MemObject) ∈ t.store.objects.entries := AList.mem_lookup_iff.mp found
  have named : fileInfo (version.meta (fileKey path)) = some ⟨path, version.etag, version.lastModified, version.data.length, false⟩ := by
    simp only [fileInfo, MemObject.meta, show pathFromFileKey (fileKey path) = _ from spelled, Option.map_some]
  refine List.mem_map.mpr ⟨_, List.mem_filter.mpr ⟨List.mem_filterMap.mpr ⟨_, ?_, named⟩, rfl⟩, rfl⟩
  exact List.mem_map.mpr ⟨_, List.mem_filter.mpr ⟨entry, here⟩, rfl⟩

/-- A poll leaves a file alone whose cached ETag is the object's. -/
theorem pollInbound_current (spelled : Spelled path) (current : v.cached = v.object.map (·.etag)) (seen : Seen path v s.state) :
    (alone path).Safe (fun _ t => Seen path v t.state) pollInbound s := by
  simp only [pollInbound, listFiles_bind]
  refine rests_next (.request (.list filesPrefix none)) (fun same => by cases same) seen fun t turn u truthful before seen => ?_
  rw [act_request truthful]
  show (alone path).Safe _ (do
    let stats ← pollObjects ((t.store.list filesPrefix none).filterMap fileInfo) {}
    _) u
  refine (pollObjects_spec (.inr fun info member file own => ?_) seen).bind fun stats w seen => ?_
  · exact current.trans (listed_etag spelled before member file own)
  refine rests_next (.cache id) (fun _ => rfl) seen fun x _ w _ known seen => ?_
  refine rests_next (.arrange _) trivial seen fun y turn w _ _ seen => ?_
  refine (pollDeleted_spec (.inr fun member => ?_) seen).bind fun stats x seen => ?_
  · refine stored_listed spelled before fun empty => ?_
    have cached : path ∈ x.manager.metadataCache.files := (turn.walk _).mem_iff.mp member
    obtain ⟨entry, found⟩ := Option.isSome_iff_exists.mp (AList.lookup_isSome.mpr cached)
    have unknown : x.manager.metadataCache.etag path = none := by
      rw [show x.manager.metadataCache.etag path = v.cached by rw [← known.view]; rfl, current, empty]
      rfl
    rw [MetadataCache.etag, MetadataCache.get, found] at unknown
    cases unknown
  refine rests_next (.cache id) (fun _ => rfl) seen fun _ _ w _ _ seen => ?_
  refine rests_next (.arrange _) trivial seen fun _ _ w _ _ seen => ?_
  exact (resting_safe (pollDirs_resting _ _) seen).bind fun _ y seen => return_seen seen fun _ => id

end
end MonakaFs.Sync.Lone
