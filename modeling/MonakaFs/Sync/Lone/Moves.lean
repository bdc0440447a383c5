import MonakaFs.Sync.Lone.View

/-! Uploads, downloads and deletes of a file that nobody else touches.

With every request answered, what each of them does is a function of what belongs to
the file. Only a call into the local filesystem may still fail.
-/

set_option autoImplicit false

namespace MonakaFs.Sync.Lone

open Async SyncManager LawfulBackend

/-- The condition of a write holds of an object, or of there being none. -/
def Accepts [EtagScheme] (object : Option MemObject) : Precondition → Prop
  | .none => True
  | .ifNoneMatchAny => object = none
  | .ifMatch expected => ∃ version, object = some version ∧ version.etag = expected

section
variable [EtagScheme] {F A : Type} [LawfulBackend F] {path : String} {v : View} {s : Node F} {post : A → Node F → Prop}

theorem get_next {k : Except S3Error (Option (Bytes × ObjectMeta)) → Task F A} (seen : Seen path v s.state)
    (missing : ∀ u : Node F, v.object = none → Seen path v u.state → (alone path).Safe post (k (.ok none)) u)
    (found : ∀ version (u : Node F), v.object = some version → Seen path v u.state →
      (alone path).Safe post (k (.ok (some (version.data, version.meta (fileKey path))))) u) :
    (alone path).Safe post (next (.request (.get (fileKey path))) k) s := by
  refine rests_next (.request (.get (fileKey path))) nofun seen fun t turn u truthful before seen => ?_
  rw [act_request truthful]
  have there : t.store.objects.lookup (fileKey path) = v.object := by rw [← before.view]; rfl
  show (alone path).Safe post (k (.ok (t.store.get (fileKey path)))) u
  rw [ObjectStore.get, there]
  cases stored : v.object with
  | none => exact missing u stored seen
  | some version => exact found version u stored seen

theorem passes_iff {t : Snapshot F} {cond : Precondition} (seen : Seen path v t) :
    t.store.Passes (fileKey path) cond ↔ Accepts v.object cond := by
  have there : t.store.objects.lookup (fileKey path) = v.object := by rw [← seen.view]; rfl
  cases cond with
  | none => exact Iff.rfl
  | ifNoneMatchAny | ifMatch => simp only [ObjectStore.Passes, Accepts, there]

/-- A PUT stores the body if its condition holds, and is rejected for what is there otherwise. -/
theorem put_next {body : Bytes} {cond : Precondition} {k : Except S3Error String → Task F A} (seen : Seen path v s.state)
    (stored : Accepts v.object cond → ∀ version (u : Node F), version.data = body →
      Seen path { v with object := some version } u.state → (alone path).Safe post (k (.ok version.etag)) u)
    (rejected : ¬ Accepts v.object cond → ∀ e (u : Node F),
      (e.isPreconditionFailed = true ∧ v.object.isSome = true) ∨ (e.isNotFound = true ∧ v.object = none ∧ cond.isIfMatch = true) →
      Seen path v u.state → (alone path).Safe post (k (.error e)) u) :
    (alone path).Safe post (next (.request (.put (fileKey path) body cond)) k) s := by
  refine safe_next ?_
  rintro t reply u moves ⟨turn, truthful, answer, later⟩
  have seen := seen.moves moves
  rw [act_request truthful] at answer later
  have there : t.store.objects.lookup (fileKey path) = v.object := by rw [← seen.view]; rfl
  rcases t.store.put_cases (fileKey path) body cond with ⟨passes, outcome⟩ | ⟨fails, e, outcome⟩
  · rw [show t.store.serve (.put (fileKey path) body cond) = _ from outcome] at answer later
    subst answer later
    refine stored ((passes_iff seen).mp passes) ⟨body, t.store.clock + 1⟩ ⟨_, _⟩ rfl ⟨?_, seen.conditional, seen.tidy⟩
    rw [← seen.view]
    exact congrArg (fun object => { view path t with object := object }) ((Map.lookup_insert_eq ..).trans (if_pos rfl))
  · rw [show t.store.serve (.put (fileKey path) body cond) = _ from outcome] at answer later
    subst answer later
    have failed : (t.store.put (fileKey path) body cond).1 = .error e := congrArg Prod.fst outcome
    refine rejected (fun accepts => fails ((passes_iff seen).mpr accepts)) e ⟨_, _⟩ ?_ seen
    rcases ObjectStore.put_error failed with refused | ⟨missing, absent, expected, rfl⟩
    · exact .inl ⟨refused, there ▸ ObjectStore.refused_there failed refused⟩
    · exact .inr ⟨missing, there.symm.trans absent, rfl⟩

/-- A DELETE removes the object if its condition holds. Another version rejects it, and no object is as good as deleted. -/
theorem delete_next {cond : Precondition} {k : Except S3Error Unit → Task F A} (guarded : cond ≠ .ifNoneMatchAny)
    (seen : Seen path v s.state)
    (gone : (∀ version, v.object = some version → Accepts v.object cond) → ∀ u : Node F,
      Seen path { v with object := none } u.state → (alone path).Safe post (k (.ok ())) u)
    (rejected : ∀ version, v.object = some version → ¬ Accepts v.object cond → ∀ e (u : Node F),
      e.isPreconditionFailed = true → Seen path v u.state → (alone path).Safe post (k (.error e)) u) :
    (alone path).Safe post (next (.request (.delete (fileKey path) cond)) k) s := by
  refine safe_next ?_
  rintro t reply u moves ⟨turn, truthful, answer, later⟩
  have seen := seen.moves moves
  rw [act_request truthful] at answer later
  have there : t.store.objects.lookup (fileKey path) = v.object := by rw [← seen.view]; rfl
  by_cases passes : t.store.Passes (fileKey path) cond
  · rw [show t.store.serve (.delete (fileKey path) cond) = _ from ObjectStore.delete_passes seen.conditional passes] at answer later
    subst answer later
    refine gone (fun _ _ => (passes_iff seen).mp passes) ⟨_, _⟩ ⟨?_, seen.conditional, seen.tidy⟩
    rw [← seen.view]
    exact congrArg (fun object => { view path t with object := object }) ((Map.lookup_erase_eq ..).trans (if_pos rfl))
  · have outcome := passes
    -- Only a version with another tag makes the store reject a delete. An absent one does not.
    cases cond with
    | none => exact (passes trivial).elim
    | ifNoneMatchAny => exact (guarded rfl).elim
    | ifMatch expected =>
      cases found : v.object with
      | none =>
        have done : t.store.serve (.delete (fileKey path) (.ifMatch expected)) = (.ok (), t.store) := by
          simp [ObjectStore.serve, ObjectStore.delete, seen.conditional, there, found]
        rw [done] at answer later
        subst answer later
        refine gone (fun version stored => ?_) ⟨_, _⟩ ?_
        · cases found.symm.trans stored
        · rw [← found]
          exact seen
      | some version =>
        have other : version.etag ≠ expected := fun same => passes ⟨version, there.trans found, same⟩
        have done : t.store.serve (.delete (fileKey path) (.ifMatch expected)) =
            (.error (.preconditionFailed (fileKey path) 412 "PreconditionFailed"), t.store) := by
          simp [ObjectStore.serve, ObjectStore.delete, ObjectStore.checkCond, seen.conditional, there, found, other]
        rw [done] at answer later
        subst answer later
        exact rejected version found (fun accepts => passes ((passes_iff seen).mpr accepts)) _ ⟨_, _⟩ rfl seen

/-! ### Uploads -/

/-- An upload under this condition replaces what is there, or finds nothing in its way. -/
def Lands (object : Option MemObject) (cond : Precondition) : Prop := ∀ version, object = some version → Accepts object cond

theorem create_spec {body : Bytes} (empty : v.object = none) (seen : Seen path v s.state) :
    (alone path).Safe (fun result t => ∃ version, result = .ok version.etag ∧ version.data = body ∧
      Seen path { v with object := some version } t.state) (putFile path body .ifNoneMatchAny) s := by
  rw [show putFile (F := F) path body .ifNoneMatchAny = next (.request (.put (fileKey path) body .ifNoneMatchAny)) .done from rfl]
  refine put_next seen (fun _ version u same seen => ?_) fun fails => (fails empty).elim
  exact return_seen seen fun t seen => ⟨version, rfl, same, seen⟩

/-- The body is stored, or rejected by what is there. -/
def Stored (path : String) (v : View) (cond : Precondition) (body : Bytes) : Except S3Error String → Node F → Prop
  | .ok etag, t => Lands v.object cond ∧ ∃ version, etag = version.etag ∧ version.data = body ∧
      Seen path { v with object := some version } t.state
  | .error e, t => e.isPreconditionFailed = true ∧ ¬ Lands v.object cond ∧ Seen path v t.state

theorem putUpload_spec {body : Bytes} {cond : Precondition} (seen : Seen path v s.state) :
    (alone path).Safe (Stored path v cond body) (putUpload path body cond) s := by
  simp only [putUpload, putFile_bind]
  refine put_next seen (fun accepts version u same seen => ?_) fun fails e u why seen => ?_
  · exact return_seen seen fun t seen => ⟨fun _ _ => accepts, version, rfl, same, seen⟩
  rcases why with ⟨refused, there⟩ | ⟨missing, empty, matching⟩
  · obtain ⟨version, found⟩ := Option.isSome_iff_exists.mp there
    have blocked : ¬ Lands v.object cond := fun lands => fails (lands version found)
    have plain : e.isNotFound = false := by
      cases e <;> first | rfl | cases refused
    have done {t : Node F} (seen : Seen path v t.state) : (alone path).Safe (Stored path v cond body) (.done (.error e)) t :=
      return_seen seen fun u seen => ⟨refused, blocked, seen⟩
    simp only [plain, Bool.false_and, Bool.false_eq_true, if_false, refused, Bool.true_and, Bool.not_true]
    split
    · simp only [headFile_bind]
      refine head_next seen (fun w empty _ => ?_) fun _ w _ seen => done seen
      cases found.symm.trans empty
    · exact done seen
  · simp only [missing, matching, Bool.and_self, if_true]
    refine (create_spec empty seen).weaken ?_
    rintro result t ⟨version, ok, same, seen⟩
    subst ok
    refine ⟨fun version found => ?_, version, rfl, same, seen⟩
    rw [empty] at found
    cases found

theorem passthrough_spec (manager : SyncManager) (seen : Seen path v s.state) :
    (alone path).Safe (fun passed t => passed = .ok () ∧ Seen path v t.state) (manager.passthroughChecks path) s := by
  unfold passthroughChecks
  split
  · simp only [headFile_bind]
    refine look_next rfl seen fun file u seen => look_next rfl seen fun dir w seen => ?_
    exact look_next rfl seen fun children x seen => return_seen seen fun t seen => ⟨rfl, seen⟩
  · exact return_seen seen fun t seen => ⟨rfl, seen⟩

/-- What belongs to the file after an upload. -/
def View.pushed (v : View) (version : MemObject) : View where
  object := some version
  cached := some version.etag
  lease := v.lease.map fun lease => { lease with baseEtag := some version.etag, dirty := false }
  bytes := v.bytes
  queued := v.queued

theorem recordUpload_spec {version : MemObject} {size modified : Nat} (seen : Seen path { v with object := some version } s.state) :
    (alone path).Safe (fun _ t => Seen path (v.pushed version) t.state) (recordUpload path version.etag size modified) s := by
  simp only [recordUpload, instant_bind, withCache_bind, withLeases_bind]
  refine rests_next .now trivial seen fun t turn u _ _ seen => ?_
  refine cache_next (fun cache _ => (MetadataCache.etag_updateAfterUpload ..).trans (if_pos rfl)) seen fun _ w _ seen => ?_
  exact alter_next seen fun _ x _ seen => return_seen seen fun _ => id

/-- An upload goes through if its condition lets it, and otherwise leaves the file alone. -/
def Uploaded (path : String) (v : View) (cond : Precondition) : Except SyncError String → Node F → Prop
  | .ok etag, t => Lands v.object cond ∧ ∃ version, etag = version.etag ∧ v.bytes = some version.data ∧
      Seen path (v.pushed version) t.state
  | .error e, t => Seen path v t.state ∧ e.isConflict = false ∧
      if isRejection e then ¬ Lands v.object cond else Unreadable F path v.bytes

theorem uploadWithCond_spec (manager : SyncManager) {cond : Precondition} (seen : Seen path v s.state) :
    (alone path).Safe (Uploaded path v cond) (manager.uploadWithCond path cond) s := by
  simp only [uploadWithCond, onFs_bind]
  refine read_next seen (fun e u unreadable seen => ?_) fun body u found seen => ?_
  · exact return_seen seen fun t seen => ⟨seen, rfl, unreadable⟩
  refine rests_next (.fs (.statModified path)) trivial seen fun _ _ u _ _ seen => ?_
  refine (passthrough_spec manager seen).bind ?_
  rintro passed u ⟨ok, seen⟩
  subst ok
  refine (putUpload_spec seen).bind fun result u stored => ?_
  rcases result with e | etag
  · obtain ⟨refused, blocked, seen⟩ := stored
    refine return_seen seen fun t seen => ⟨seen, rfl, ?_⟩
    rwa [if_pos (show isRejection (.s3 e) = true from refused)]
  · obtain ⟨lands, version, rfl, rfl, seen⟩ := stored
    refine (recordUpload_spec seen).bind fun _ w seen => ?_
    exact return_seen seen fun t seen => ⟨lands, version, rfl, found, seen⟩

/-! ### Downloads -/

/-- What belongs to the file after a download. -/
def View.pulled (v : View) (version : MemObject) : View :=
  { v with cached := some version.etag, bytes := some version.data }

theorem storeDownload_spec {version : MemObject} (seen : Seen path v s.state) :
    (alone path).Safe (fun result t => match result with
      | .ok () => Seen path (v.pulled version) t.state
      | .error _ => Seen path v t.state)
      (storeDownload path version.data (version.meta (fileKey path))) s := by
  simp only [storeDownload, onFs_bind, withCache_bind]
  refine write_next seen (fun e u seen => return_seen seen fun _ => id) fun u seen => ?_
  refine cache_next (fun cache _ => (MetadataCache.etag_updateAfterDownload ..).trans (if_pos rfl)) seen fun _ w _ seen => ?_
  exact return_seen seen fun _ => id

/-- What belongs to the file once it is as in the store. -/
def View.refreshed (v : View) : View :=
  match v.object with
  | none => v
  | some version => if v.cached = some version.etag then v else v.pulled version

omit [LawfulBackend F] in
theorem refreshed_none (empty : v.object = none) : v.refreshed = v := by rw [View.refreshed, empty]

omit [LawfulBackend F] in
theorem refreshed_known {version : MemObject} (found : v.object = some version) (known : v.cached = some version.etag) :
    v.refreshed = v := by simp [View.refreshed, found, known]

omit [LawfulBackend F] in
theorem refreshed_stale {version : MemObject} (found : v.object = some version) (stale : v.cached ≠ some version.etag) :
    v.refreshed = v.pulled version := by simp [View.refreshed, found, stale]

theorem headAndRefresh_spec (seen : Seen path v s.state) :
    (alone path).Safe (fun result t => match result with
      | .ok (base, _) => base = v.object.map (·.etag) ∧ Seen path v.refreshed t.state
      | .error _ => Seen path v t.state) (headAndRefresh path) s := by
  simp only [headAndRefresh, headFile_bind, withCache_bind]
  refine head_next seen (fun u empty seen => ?_) fun version u found seen => ?_
  · refine return_seen seen fun t seen => ⟨by rw [empty]; rfl, ?_⟩
    rwa [refreshed_none empty]
  refine cache_next (fun _ => id) seen fun cache w known seen => ?_
  split
  · next same =>
    refine return_seen seen fun t seen => ⟨by rw [found]; rfl, ?_⟩
    rwa [refreshed_known found (known.symm.trans same)]
  · next stale =>
    simp only [getFile_bind]
    refine get_next seen (fun x empty _ => ?_) fun other x present seen => ?_
    · cases found.symm.trans empty
    obtain rfl : version = other := Option.some.inj (found.symm.trans present)
    refine (storeDownload_spec seen).bind fun stored y seen => ?_
    rcases stored with e | _
    · exact return_seen seen fun _ => id
    · refine return_seen seen fun t seen => ⟨by rw [found]; rfl, ?_⟩
      rwa [refreshed_stale found fun same => stale (known.trans same)]

/-- The lease of a file after its object was pulled, or was not there. -/
def View.rebased (v : View) : View :=
  match v.object with
  | none => { v with cached := none, lease := v.lease.map fun lease => { lease with baseEtag := none } }
  | some version =>
      { v.pulled version with lease := v.lease.map fun lease => { lease with baseEtag := some version.etag, dirty := false } }

omit [LawfulBackend F] in
theorem rebased_none (empty : v.object = none) :
    v.rebased = { v with cached := none, lease := v.lease.map fun lease => { lease with baseEtag := none } } := by
  cases v
  cases empty
  rfl

omit [LawfulBackend F] in
theorem rebased_some {version : MemObject} (found : v.object = some version) :
    v.rebased = { v.pulled version with
      lease := v.lease.map fun lease => { lease with baseEtag := some version.etag, dirty := false } } := by
  cases v
  cases found
  rfl

omit [LawfulBackend F] in
/-- A pull changes the local side only. -/
theorem rebased_remote (v : View) : v.rebased.object = v.object ∧ v.rebased.queued = v.queued := by
  unfold View.rebased
  split <;> exact ⟨rfl, rfl⟩

theorem refreshLocalFromRemote_spec (seen : Seen path v s.state) :
    (alone path).Safe (fun _ t => Seen path v t.state ∨ Seen path v.rebased t.state) (refreshLocalFromRemote path) s := by
  simp only [refreshLocalFromRemote, getFile_bind, withCache_bind, withLeases_bind]
  refine get_next seen (fun u empty seen => ?_) fun version u found seen => ?_
  · refine cache_next (fun cache _ => (MetadataCache.etag_remove ..).trans (if_pos rfl)) seen fun _ w _ seen => ?_
    refine alter_next seen fun _ x _ seen => return_seen seen fun t seen => .inr ?_
    rwa [rebased_none empty]
  · refine (storeDownload_spec seen).bind fun stored w seen => ?_
    rcases stored with e | _
    · exact return_seen seen fun _ => .inl
    · refine alter_next seen fun _ x _ seen => return_seen seen fun t seen => .inr ?_
      rwa [rebased_some found]

theorem conflict_spec (seen : Seen path v s.state) :
    (alone path).Safe (fun _ t => Seen path v t.state ∨ Seen path v.rebased t.state) (conflict path) s := by
  refine (refreshLocalFromRemote_spec seen).bind fun refreshed t outcome => ?_
  rcases outcome with seen | seen
  · exact return_seen seen fun _ => .inl
  · exact return_seen seen fun _ => .inr

end
end MonakaFs.Sync.Lone
