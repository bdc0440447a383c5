import MonakaFs.Sync.Lone.Moves

/-! The calls on a file that nobody else touches.

A call returns with one of a few outcomes, each a function of what belonged to the
file before. An open that fails and a push that cannot read the local file change
nothing; a push that is rejected pulls the version that rejected it.
-/

set_option autoImplicit false

namespace MonakaFs.Sync.Lone

open Async SyncManager LawfulBackend

section
variable [EtagScheme] {F A : Type} [LawfulBackend F] {path : String} {v : View} {s : Node F} {post : A → Node F → Prop}

theorem quiet_safe {task : Task F A} (silent : Silent task) (seen : Seen path v s.state) :
    (alone path).Safe (fun _ t => Seen path v t.state) task s := resting_safe (silent.mono quiet_rests) seen

/-! ### Opening -/

theorem takePending_spec (unqueued : .upload path ∉ v.queued) (seen : Seen path v s.state) :
    (alone path).Safe (fun queued t => queued = false ∧ Seen path v t.state) (takePending path) s := by
  simp only [takePending, withQueue_bind]
  refine queue_next (fun _ tidy => tidy.filter _) seen fun queue u known seen => ?_
  have absent : SyncOperation.upload path ∉ queue := fun member =>
    unqueued (known ▸ List.mem_filter.mpr ⟨member, by simp [SyncOperation.path]⟩)
  have kept : queue.filter (· ≠ .upload path) = queue :=
    List.filter_eq_self.mpr fun op member => decide_eq_true fun same : op = .upload path => absent (same ▸ member)
  rw [kept, known] at seen
  exact return_seen seen fun t seen => ⟨by simpa using absent, seen⟩

theorem leaseBase_spec (manager : SyncManager) (unqueued : .upload path ∉ v.queued) (seen : Seen path v s.state) :
    (alone path).Safe (fun result t => match result with
      | .ok base => base = v.object.map (·.etag) ∧ Seen path v.refreshed t.state
      | .error _ => Seen path v t.state) (manager.leaseBase path) s := by
  refine (takePending_spec unqueued seen).bind ?_
  rintro queued t ⟨absent, seen⟩
  subst absent
  refine (headAndRefresh_spec seen).bind fun result t outcome => ?_
  rcases result with e | ⟨base, flag⟩
  · exact return_seen outcome fun _ => id
  · exact return_seen outcome.2 fun t seen => ⟨outcome.1, seen⟩

theorem joinHeld_spec (rounds : Nat) (seen : Seen path v s.state) :
    (alone path).Safe (fun joined t => match v.lease with
      | none => joined = false ∧ Seen path v t.state
      | some lease => joined = true ∧ lease.releasing = false ∧
          Seen path { v with lease := some { lease with refcount := lease.refcount + 1 } } t.state)
      (joinHeld path rounds) s := by
  induction rounds generalizing s with
  | zero => exact fun _ _ => trivial
  | succ rounds ih =>
    simp only [joinHeld, withLeases_bind]
    refine alter_next seen fun table u known seen => ?_
    rw [known]
    cases held : v.lease with
    | none =>
      rw [held] at seen
      have same : { v with lease := none } = v := by rw [← held]
      exact return_seen (same ▸ seen) fun t seen => ⟨rfl, seen⟩
    | some lease =>
      rw [held] at seen
      dsimp only
      split
      -- The entry is being released: wait, and look again.
      · next releasing =>
        have same : { v with lease := some lease } = v := by rw [← held]
        rw [Option.map_some, if_pos releasing, same] at seen
        simp only [sleep, instant_bind]
        refine rests_next .now trivial seen fun _ _ w _ _ seen => ?_
        refine rests_next (.wake _) trivial seen fun _ _ x _ _ seen => ?_
        have joined := ih seen
        simp only [held] at joined
        exact joined
      · next free =>
        rw [Option.map_some, if_neg free] at seen
        exact return_seen seen fun t seen => ⟨rfl, by simpa using free, seen⟩

/-- An open joins the entry, or enters a lease on the object as it is. A failed one changes nothing. -/
def Opened (path : String) (v : View) : Except SyncError Unit → Node F → Prop
  | .ok _, t => match v.lease with
      | some lease => lease.releasing = false ∧
          Seen path { v with lease := some { lease with refcount := lease.refcount + 1 } } t.state
      | none => ∃ acquired, Seen path { v.refreshed with lease := some (newLease (v.object.map (·.etag)) acquired) } t.state
  | .error _, t => v.lease = none ∧ Seen path v t.state

theorem onOpenWrite_spec (manager : SyncManager) (locks : manager.config.fileLock = true) (rounds : Nat)
    (unqueued : .upload path ∉ v.queued) (seen : Seen path v s.state) :
    (alone path).Safe (Opened path v) (manager.onOpenWrite rounds path) s := by
  simp only [onOpenWrite, locks, Bool.true_eq_false, if_false]
  refine (joinHeld_spec rounds seen).bind fun joined t outcome => ?_
  cases held : v.lease with
  | some lease =>
    simp only [held] at outcome
    obtain ⟨rfl, free, seen⟩ := outcome
    refine return_seen seen fun t seen => ?_
    simp only [Opened, held]
    exact ⟨free, seen⟩
  -- The file is not leased: acquire the lease, and take what the store has as its base.
  | none =>
    simp only [held] at outcome
    obtain ⟨rfl, seen⟩ := outcome
    have failed (e : SyncError) {u : Node F} (seen : Seen path v u.state) : (alone path).Safe (Opened path v) (.done (.error e)) u :=
      return_seen seen fun _ seen => ⟨held, seen⟩
    refine (quiet_safe (acquire_silent ..) seen).bind fun result u seen => ?_
    rcases result with e | acquired
    · exact failed e seen
    simp only [pinLease, withLeases_bind]
    refine alter_next seen fun table w known seen => ?_
    have same : { v with lease := v.lease.map fun lease => { lease with refcount := lease.refcount + 1 } } = v := by
      cases v
      cases held
      rfl
    rw [same] at seen
    rw [known, held]
    refine (leaseBase_spec manager unqueued seen).bind fun result x outcome => ?_
    rcases result with e | base
    · exact (quiet_safe (release_silent ..) outcome).bind fun _ y seen => failed e seen
    · obtain ⟨rfl, seen⟩ := outcome
      refine leases_next (fun table _ => (Map.lookup_insert_eq ..).trans (if_pos rfl)) seen fun _ y _ seen => ?_
      refine return_seen seen fun z seen => ?_
      simp only [Opened, held]
      exact ⟨acquired, seen⟩

/-! ### Pushing -/

/-- What a push of a lease does to a file. -/
inductive Flush (F : Type) [LawfulBackend F] (path : String) (lease : WriteLease) (v : View) : Except SyncError Unit → View → Prop where
  | clean : lease.pendingDelete = false → lease.dirty = false → Flush F path lease v (.ok ()) v
  | forgotten : lease.pendingDelete = true → lease.baseEtag = none → Flush F path lease v (.ok ()) { v with cached := none }
  | removed {base : String} : lease.pendingDelete = true → lease.baseEtag = some base → Lands v.object (.ifMatch base) →
      Flush F path lease v (.ok ()) { v with object := none, cached := none }
  | pushed {version : MemObject} : lease.pendingDelete = false → lease.dirty = true → Lands v.object (baseCond lease.baseEtag) →
      v.bytes = some version.data → Flush F path lease v (.ok ()) (v.pushed version)
  | lost {e : SyncError} {w : View} : ¬ Lands v.object (baseCond lease.baseEtag) → (w = v ∨ w = v.rebased) →
      Flush F path lease v (.error e) w
  | unread {e : SyncError} : lease.pendingDelete = false → lease.dirty = true → Unreadable F path v.bytes →
      Flush F path lease v (.error e) v

theorem flushLease_spec (manager : SyncManager) (lease : WriteLease) (seen : Seen path v s.state) :
    (alone path).Safe (fun result t => ∃ w, Flush F path lease v result w ∧ Seen path w t.state)
      (manager.flushLease path lease) s := by
  have clash {u : Node F} (blocked : ¬ Lands v.object (baseCond lease.baseEtag)) (seen : Seen path v u.state) :
      (alone path).Safe (fun result t => ∃ w, Flush F path lease v result w ∧ Seen path w t.state)
        (conflict path >>= fun e => .done (.error e)) u := by
    refine (conflict_spec seen).bind fun e t outcome => ?_
    rcases outcome with seen | seen
    · exact return_seen seen fun x seen => ⟨v, .lost blocked (.inl rfl), seen⟩
    · exact return_seen seen fun x seen => ⟨v.rebased, .lost blocked (.inr rfl), seen⟩
  unfold flushLease
  split
  -- The file was unlinked while it was leased.
  · next deleting =>
    cases based : lease.baseEtag with
    | none =>
      simp only [withCache_bind]
      refine cache_next (fun cache _ => (MetadataCache.etag_remove ..).trans (if_pos rfl)) seen fun _ u _ seen => ?_
      exact return_seen seen fun t seen => ⟨_, .forgotten deleting based, seen⟩
    | some base =>
      simp only [deleteFile_bind]
      refine delete_next nofun seen (fun lands u seen => ?_) fun version found blocked e u refused seen => ?_
      · refine cache_next (fun cache _ => (MetadataCache.etag_remove ..).trans (if_pos rfl)) seen fun _ w _ seen => ?_
        -- The store has another version than the lease is based on.
        exact return_seen seen fun t seen => ⟨_, .removed deleting based lands, seen⟩
      · simp only [refused, if_true]
        refine clash ?_ seen
        rw [based]
        exact fun lands => blocked (lands version found)
  · next keeping =>
    have keeping : lease.pendingDelete = false := by simpa using keeping
    split
    · next clean => exact return_seen seen fun t seen => ⟨v, .clean keeping clean, seen⟩
    · next dirty =>
      have dirty : lease.dirty = true := by simpa using dirty
      refine (uploadWithCond_spec manager seen).bind fun result u outcome => ?_
      rcases result with e | etag
      · obtain ⟨seen, -, why⟩ := outcome
        dsimp only
        split
        · next refused => exact clash (by rwa [if_pos refused] at why) seen
        · next other =>
          rw [if_neg other] at why
          exact return_seen seen fun t seen => ⟨v, .unread keeping dirty why, seen⟩
      · obtain ⟨lands, version, -, found, seen⟩ := outcome
        exact return_seen seen fun t seen => ⟨_, .pushed keeping dirty lands found, seen⟩

/-! ### Closing -/

/-- What a close does to a file. -/
inductive Close (F : Type) [LawfulBackend F] (path : String) (v : View) : Except SyncError Unit → View → Prop where
  | unleased : v.lease = none → Close F path v (.ok ()) v
  | shared {lease : WriteLease} : v.lease = some lease → lease.refcount > 1 →
      Close F path v (.ok ()) { v with lease := some { lease with refcount := lease.refcount - 1 } }
  | last {lease : WriteLease} {result : Except SyncError Unit} {w : View} : v.lease = some lease → lease.refcount ≤ 1 →
      Flush F path lease { v with lease := some { lease with releasing := true } } result w →
      Close F path v result { w with lease := none }

theorem Flush.same {lease other : WriteLease} {result : Except SyncError Unit} {w : View} (base : other.baseEtag = lease.baseEtag)
    (dirty : other.dirty = lease.dirty) (deleting : other.pendingDelete = lease.pendingDelete)
    (flush : Flush F path lease v result w) : Flush F path other v result w := by
  cases flush with
  | clean keeping clean => exact .clean (deleting.trans keeping) (dirty.trans clean)
  | forgotten gone based => exact .forgotten (deleting.trans gone) (base.trans based)
  | removed gone based lands => exact .removed (deleting.trans gone) (base.trans based) lands
  | pushed keeping changed lands found => exact .pushed (deleting.trans keeping) (dirty.trans changed) (base ▸ lands) found
  | lost blocked which => exact .lost (base ▸ blocked) which
  | unread keeping changed unreadable => exact .unread (deleting.trans keeping) (dirty.trans changed) unreadable

theorem onClose_spec (manager : SyncManager) (seen : Seen path v s.state) :
    (alone path).Safe (fun result t => ∃ w, Close F path v result w ∧ Seen path w t.state) (manager.onClose path) s := by
  simp only [onClose, withLeases_bind]
  refine alter_next seen fun table u known seen => ?_
  rw [known]
  cases held : v.lease with
  | none =>
    have same : { v with lease := v.lease.map closeEntry } = v := by
      cases v
      cases held
      rfl
    rw [same] at seen
    exact return_seen seen fun t seen => ⟨v, .unleased held, seen⟩
  | some lease =>
    rw [held, Option.map_some] at seen
    dsimp only
    split
    · next shared =>
      rw [closeEntry, if_pos shared] at seen
      exact return_seen seen fun t seen => ⟨_, .shared held shared, seen⟩
    · next last =>
      rw [closeEntry, if_neg last] at seen
      refine (flushLease_spec manager _ seen).bind ?_
      rintro result w ⟨after, flush, seen⟩
      refine (quiet_safe (release_silent ..) seen).bind fun _ x seen => ?_
      refine leases_next (fun table _ => (Map.lookup_erase_eq ..).trans (if_pos rfl)) seen fun _ y _ seen => ?_
      exact return_seen seen fun t seen => ⟨_, .last held (Nat.le_of_not_gt last) (flush.same (by rfl) (by rfl) (by rfl)), seen⟩

/-! ### Queueing -/

/-- What a local change leaves to be done: a mark on the lease, or an operation in the queue. -/
def View.changed (v : View) (mark : WriteLease → WriteLease) (cached : Option String) (op : SyncOperation) : View :=
  match v.lease with
  | some lease => { v with lease := some (mark lease) }
  | none => { v with cached := cached, queued := [op] }

def markDirty (lease : WriteLease) : WriteLease := { lease with dirty := true, pendingDelete := false }
def markDeleted (lease : WriteLease) : WriteLease := { lease with pendingDelete := true, dirty := false }

theorem enqueueUpload_spec (seen : Seen path v s.state) :
    (alone path).Safe (fun _ t => Seen path (v.changed markDirty v.cached (.upload path)) t.state) (enqueueUpload path) s := by
  obtain ⟨object, cached, lease, bytes, queued⟩ := v
  simp only [enqueueUpload, withLeases_bind]
  refine alter_next seen fun table u known seen => ?_
  rw [known]
  cases lease with
  | some lease => exact return_seen seen fun _ => id
  | none =>
    refine queue_next (fun _ tidy => (tidy.filter _).append fun other => (other rfl).elim) seen fun queue w _ seen => return_seen seen fun t seen => ?_
    have own : ops path (queue.filter (·.path ≠ path) ++ [.upload path]) = [.upload path] := ops_own _ queue rfl
    rw [own] at seen
    exact seen

theorem enqueueDelete_spec (seen : Seen path v s.state) :
    (alone path).Safe (fun _ t => Seen path (v.changed markDeleted none (.delete path v.cached)) t.state) (enqueueDelete path) s := by
  obtain ⟨object, cached, lease, bytes, queued⟩ := v
  simp only [enqueueDelete, withLeases_bind]
  refine alter_next seen fun table u known seen => ?_
  rw [known]
  cases lease with
  | some lease => exact return_seen seen fun _ => id
  | none =>
    refine cache_next (fun cache _ => (MetadataCache.etag_remove ..).trans (if_pos rfl)) seen fun cache w known seen => ?_
    refine queue_next (fun _ tidy => (tidy.filter _).append fun other => (other rfl).elim) seen fun queue x _ seen => return_seen seen fun t seen => ?_
    have own : ops path (queue.filter (·.path ≠ path) ++ [.delete path (cache.etag path)]) = [.delete path (cache.etag path)] :=
      ops_own _ queue rfl
    rw [own, known] at seen
    exact seen

end
end MonakaFs.Sync.Lone
