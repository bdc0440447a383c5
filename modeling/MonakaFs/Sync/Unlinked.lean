import MonakaFs.Sync.Lone.Polls
import MonakaFs.Sync.Lone.Flushes

/-! A file that was unlinked, with its delete still queued.

The unlink forgets the cached ETag, and an open for write asks the store only: what it
finds there it downloads. Nothing tells a later push of the queued delete either. Both
go well where the object is not what was unlinked, and where the delete names a version
other than the pushed one.
-/

set_option autoImplicit false

namespace MonakaFs.Sync.Unlinked

open Async SyncManager LawfulBackend Lone

/-- The calls that serve the file. -/
inductive Serves {F : Type} (path : String) : Call F → Prop where
  | openWrite (rounds : Nat) : Serves path (.openWrite rounds path)
  | close : Serves path (.close path)
  | poll : Serves path .pollInbound

section
variable [EtagScheme] {F : Type} [LawfulBackend F] (manager : SyncManager) (path : String) (old : Bytes)

/-- An open that takes the lease does not find what was unlinked, and a close that
pushes does not push what a queued delete is meant for. -/
def Careful (s : Snapshot F) : Call F → Prop
  | .openWrite .. => s.manager.leases.lookup path = none → (object path s).map (·.data) ≠ some old
  | .close _ => ∀ lease body etag, s.manager.leases.lookup path = some lease → lease.refcount ≤ 1 → lease.dirty = true →
      content s.fs path = some body → .delete path etag ∈ s.manager.outboundQueue → etag ≠ none ∧ etag ≠ some (etagFor body)
  | _ => True

/-- Calls on a file since it was unlinked without a lease. The first proposition is that
they were careful, the second that the object was replaced. -/
inductive Reached : Prop → Prop → Snapshot F → Prop where
  | unlink {first : Snapshot F} {change : F → F} {last : Node F} : first.store.rejectConditionalDelete = false →
      Tidy path first.manager.outboundQueue → first.manager.leases.lookup path = none → content first.fs path = some old →
      (∀ fs, content (change fs) path = none) → Ran Truthful (around path) ((Call.unlink path change).task manager) first () last →
      Reached True False last.state
  | serve {careful pushed : Prop} {s : Snapshot F} {call : Call F} {last : Node F} : Reached careful pushed s → Serves path call →
      Ran Truthful (around path) (call.task manager) s () last →
      Reached (careful ∧ Careful path old s call) (pushed ∨ object path last.state ≠ object path s) last.state
  | write {careful pushed : Prop} {s : Snapshot F} {change : F → F} {last : Node F} : Reached careful pushed s →
      (s.manager.leases.lookup path).isSome = true →
      Ran Truthful (around path) ((Call.write path change).task manager) s () last → Reached careful pushed last.state

/-- The delete is queued, an entry is based on the object, and a pushed version is none that the delete names. -/
structure Pending (pushed : Prop) (v : View) : Prop where
  queued : ∃ etag, v.queued = [.delete path etag] ∧
    (pushed → ∀ version, v.object = some version → etag ≠ none ∧ etag ≠ some version.etag)
  based : ∀ lease, v.lease = some lease → lease.baseEtag = v.object.map (·.etag) ∧ lease.pendingDelete = false

variable {manager path old} {v w : View} {s : Node F} {pushed careful : Prop}

omit [LawfulBackend F] in
theorem Pending.mono {more : Prop} (pending : Pending path pushed v) (implies : more → pushed) : Pending path more v := by
  obtain ⟨etag, same, fenced⟩ := pending.queued
  exact ⟨⟨etag, same, fun more => fenced (implies more)⟩, pending.based⟩

omit [LawfulBackend F] in
theorem Pending.lands (pending : Pending path pushed v) {lease : WriteLease} (held : v.lease = some lease) :
    Lands v.object (baseCond lease.baseEtag) := by
  rw [(pending.based lease held).1]
  intro version found
  rw [found]
  exact ⟨version, rfl, rfl⟩

/-- What a careful call of the service leaves: the delete is still not meant for what is
there, and the old bytes are back only if they were before. -/
def Serving (path : String) (old : Bytes) (pushed : Prop) (v : View) : Unit → Node F → Prop :=
  fun _ t => ∃ w, Seen path w t.state ∧ Pending path (pushed ∨ w.object ≠ v.object) w ∧ (w.bytes = some old → v.bytes = some old)

theorem unlinked_unqueued (pending : Pending path pushed v) : .upload path ∉ v.queued := by
  obtain ⟨etag, same, -⟩ := pending.queued
  simp [same]

omit [LawfulBackend F] in
theorem refreshed_object (v : View) : v.refreshed.object = v.object ∧ v.refreshed.queued = v.queued ∧ v.refreshed.lease = v.lease := by
  unfold View.refreshed
  split
  · exact ⟨rfl, rfl, rfl⟩
  · split <;> exact ⟨rfl, rfl, rfl⟩

/-- A refresh brings the object's bytes or none. -/
theorem refreshed_bytes (other : v.object.map (·.data) ≠ some old) (back : v.refreshed.bytes = some old) : v.bytes = some old := by
  unfold View.refreshed at back
  split at back
  · exact back
  · next version found =>
    split at back
    · exact back
    · rw [found] at other
      exact (other back).elim

theorem open_serving (locks : manager.config.fileLock = true) (rounds : Nat) (pending : Pending path pushed v)
    (careful : v.lease = none → v.object.map (·.data) ≠ some old) (seen : Seen path v s.state) :
    (alone path).Safe (Serving path old pushed v) ((Call.openWrite rounds path).task manager) s := by
  refine (onOpenWrite_spec manager locks rounds (unlinked_unqueued pending) seen).bind fun result t opened => ?_
  have kept : Pending path (pushed ∨ v.object ≠ v.object) v := pending.mono fun either => either.resolve_right fun differ => differ rfl
  rcases result with e | _
  · exact return_seen opened.2 fun u seen => ⟨v, seen, kept, id⟩
  cases held : v.lease with
  | some lease =>
    simp only [Opened, held] at opened
    refine return_seen opened.2 fun u seen => ⟨_, seen, ⟨kept.queued, fun after same => ?_⟩, id⟩
    cases same
    exact pending.based lease held
  | none =>
    simp only [Opened, held] at opened
    obtain ⟨acquired, seen⟩ := opened
    obtain ⟨object, queued, -⟩ := refreshed_object v
    refine return_seen seen fun u seen => ⟨_, seen, ⟨?_, fun after same => ?_⟩, refreshed_bytes (careful held)⟩
    · simp only [queued, object]
      exact kept.queued
    · cases same
      exact ⟨by rw [object]; rfl, rfl⟩

theorem close_serving (pending : Pending path pushed v)
    (careful : ∀ lease body etag, v.lease = some lease → lease.refcount ≤ 1 → lease.dirty = true → v.bytes = some body →
      .delete path etag ∈ v.queued → etag ≠ none ∧ etag ≠ some (etagFor body)) (seen : Seen path v s.state) :
    (alone path).Safe (Serving path old pushed v) ((Call.close path).task manager) s := by
  refine (onClose_spec manager seen).bind fun result t ⟨w, closed, seen⟩ => return_seen seen fun u seen => ⟨w, seen, ?_⟩
  have kept : Pending path (pushed ∨ v.object ≠ v.object) v := pending.mono fun either => either.resolve_right fun differ => differ rfl
  cases closed with
  | unleased => exact ⟨kept, id⟩
  | @shared lease held more =>
    refine ⟨⟨kept.queued, fun after same => ?_⟩, id⟩
    cases same
    exact pending.based lease held
  | @last lease result w held only flush =>
    have whole := (pending.based lease held).2
    have free (w : View) : ∀ lease : WriteLease, none = some lease →
        lease.baseEtag = w.object.map (·.etag) ∧ lease.pendingDelete = false := nofun
    cases flush with
    | clean | unread => exact ⟨⟨kept.queued, free _⟩, id⟩
    | forgotten deleting | removed deleting => rw [whole] at deleting; cases deleting
    | lost blocked => exact (blocked (pending.lands held)).elim
    | @pushed version _ dirty _ found =>
      obtain ⟨etag, queued, fenced⟩ := pending.queued
      refine ⟨⟨⟨etag, queued, fun _ other same => ?_⟩, free _⟩, id⟩
      cases same
      exact careful lease version.data etag held only dirty found (by rw [queued]; exact List.mem_singleton_self _)

theorem poll_serving (pending : Pending path pushed v) (seen : Seen path v s.state) :
    (alone path).Safe (Serving path old pushed v) (Call.pollInbound.task manager) s := by
  have guarded : v.Guarded := .inr fun empty => by
    obtain ⟨etag, queued, -⟩ := pending.queued
    rw [queued] at empty
    cases empty
  refine (pollInbound_guarded guarded seen).bind fun _ t seen => return_seen seen fun u seen => ?_
  exact ⟨v, seen, pending.mono fun either => either.resolve_right fun differ => differ rfl, id⟩

theorem serve_serving (locks : manager.config.fileLock = true) {t : Snapshot F} {call : Call F} (serves : Serves path call)
    (pending : Pending path pushed (view path t)) (careful : Careful path old t call) (seen : Seen path (view path t) s.state) :
    (alone path).Safe (Serving path old pushed (view path t)) (call.task manager) s := by
  cases serves with
  | openWrite rounds => exact open_serving locks rounds pending careful seen
  | close =>
    refine close_serving pending (fun lease body etag held only dirty found queued => ?_) seen
    exact careful lease body etag held only dirty found (List.mem_filter.mp queued).1
  | poll => exact poll_serving pending seen

theorem unlink_pending {first : Snapshot F} {change : F → F} {last : Node F} (seen : Seen path (view path first) first)
    (free : first.manager.leases.lookup path = none)
    (unlinked : Ran Truthful (around path) ((Call.unlink path change).task manager) first () last) :
    ∃ w, Seen path w last.state ∧ Pending path False w := by
  have safe : (alone path).Safe (fun _ t => ∃ w, Seen path w t.state ∧ Pending path False w)
      ((Call.unlink path change).task manager) ⟨first, []⟩ := by
    refine app_next (k := fun _ => enqueueDelete path) seen fun fs u _ seen => ?_
    refine (enqueueDelete_spec seen).weaken fun _ t seen => ⟨_, seen, ?_⟩
    rw [View.changed, show (view path first).lease = none from free]
    exact ⟨⟨_, rfl, False.elim⟩, nofun⟩
  exact safe.exec unlinked

theorem write_pending {t : Snapshot F} {change : F → F} {last : Node F} (seen : Seen path (view path t) t)
    (pending : Pending path pushed (view path t)) (leased : (t.manager.leases.lookup path).isSome = true)
    (wrote : Ran Truthful (around path) ((Call.write path change).task manager) t () last) :
    ∃ w, Seen path w last.state ∧ Pending path pushed w := by
  obtain ⟨lease, held⟩ := Option.isSome_iff_exists.mp leased
  have safe : (alone path).Safe (fun _ t => ∃ w, Seen path w t.state ∧ Pending path pushed w)
      ((Call.write path change).task manager) ⟨t, []⟩ := by
    refine app_next (k := fun _ => enqueueUpload path) seen fun fs u _ seen => ?_
    refine (enqueueUpload_spec seen).weaken fun _ t seen => ⟨_, seen, ?_⟩
    rw [View.changed, show (view path _).lease = some lease from held]
    refine ⟨pending.queued, fun after same => ?_⟩
    cases same
    exact ⟨(pending.based lease held).1, rfl⟩
  exact safe.exec wrote

theorem Reached.pending (locks : manager.config.fileLock = true) {t : Snapshot F} (reached : Reached manager path old careful pushed t)
    (holds : careful) : Seen path (view path t) t ∧ Pending path pushed (view path t) := by
  have whole {pushed : Prop} {t : Snapshot F} (so : ∃ w, Seen path w t ∧ Pending path pushed w) :
      Seen path (view path t) t ∧ Pending path pushed (view path t) := by
    obtain ⟨w, seen, pending⟩ := so
    rw [seen.view]
    exact ⟨seen, pending⟩
  induction reached with
  | unlink supported tidy free _ _ unlinked => exact whole (unlink_pending ⟨rfl, supported, tidy⟩ free unlinked)
  | @serve _ _ s call last _ serves ran ih =>
    obtain ⟨seen, pending⟩ := ih holds.1
    obtain ⟨w, after, pending, -⟩ := (serve_serving locks serves pending holds.2 (s := ⟨s, []⟩) seen).exec ran
    refine whole ⟨w, after, pending.mono fun either => either.imp_right fun differ same => differ ?_⟩
    rw [← after.view] at same
    exact same
  | write _ leased wrote ih =>
    obtain ⟨seen, pending⟩ := ih holds
    exact whole (write_pending seen pending leased wrote)

/-- The flush of a delete that is not meant for what is there leaves it there. -/
theorem flush_spares (locks : manager.config.fileLock = true) (pending : Pending path pushed v) (replaced : pushed) (seen : Seen path v s.state) :
    (alone path).Safe (fun _ t => object path t.state = v.object) manager.flushOutbound s := by
  obtain ⟨etag, queued, fenced⟩ := pending.queued
  -- The delete cannot land on a version that has replaced the one it is for.
  have missed (lands : Lands v.object (deleteCond etag)) : v.object = none := by
    cases found : v.object with
    | none => rfl
    | some version =>
      obtain ⟨named, other⟩ := fenced replaced version found
      obtain ⟨base, rfl⟩ := Option.ne_none_iff_exists'.mp named
      obtain ⟨stored, there, matching⟩ := lands version found
      obtain rfl : version = stored := Option.some.inj (found.symm.trans there)
      exact (other (congrArg some matching.symm)).elim
  have handled : Handled F manager path fun w => w.object = v.object ∧ (w.queued = v.queued ∨ w.queued = []) := by
    refine ⟨fun w rest s ⟨_, same⟩ front _ => ?_, fun w name rest s ⟨there, same⟩ front seen => ?_⟩
    -- In the queue there is the delete alone, so that an upload is never its front.
    · rcases same with same | same <;> rw [front] at same
      · rw [queued] at same
        cases same
      · cases same
    · rcases same with same | same <;> rw [front] at same
      · rw [queued] at same
        obtain ⟨rfl, rfl⟩ : name = etag ∧ rest = [] := by simpa using same
        refine (flushDelete_spec manager name seen).weaken fun _ t ⟨x, deleted, seen⟩ => ⟨x, ?_, seen⟩
        cases deleted with
        | gone lands => exact ⟨(missed (there ▸ lands)).symm, .inr rfl⟩
        | kept _ _ which =>
          rcases which with rfl | rfl
          · exact ⟨there, .inr rfl⟩
          · exact ⟨(rebased_remote _).1.trans there, .inr (rebased_remote _).2⟩
        | forced _ unlocked => rw [locks] at unlocked; cases unlocked
      · cases same
  refine (flushOutbound_keeps handled ⟨rfl, .inl rfl⟩ seen).weaken ?_
  rintro _ t ⟨w, ⟨there, _⟩, seen⟩
  rw [← there, ← seen.view]
  rfl

end

/-! ### Concrete runs -/

section
open scoped ContentEtags

def sampleManager : SyncManager := Sample.manager .batch Sample.first

/-- The file was written here, after it was loaded if the store has it. -/
def edited (bodies : List (String × Bytes)) : Snapshot MemFs :=
  ((Sample.after (fun _ : Unit => sampleManager) bodies
    [((), .flushOutbound), ((), .write "/a" (MemFs.writeLocal "/a" [1]))]).shared.view ()).state

def plain : List ((Snapshot MemFs → Snapshot MemFs) × Turn) := List.replicate 24 plainly

theorem plain_around : ∀ turn ∈ plain, (∀ s, (around "/a").moves s (turn.1 s)) ∧ Truthful turn.2 := quiet_turns rfl

def unlinking : Call MemFs := .unlink "/a" (MemFs.removeLocal "/a")
def opening : Call MemFs := .openWrite 1 "/a"
def writing : Call MemFs := .write "/a" (MemFs.writeLocal "/a" [2])
def closing : Call MemFs := .close "/a"

def upon (call : Call MemFs) (s : Snapshot MemFs) : Snapshot MemFs := arrive Truthful plain (call.task sampleManager) s

theorem upon_ran (call : Call MemFs) (s : Snapshot MemFs)
    (returns : (solo Truthful plain (call.task sampleManager) s).isSome = true) :
    ∃ last, Ran Truthful (around "/a") (call.task sampleManager) s () last ∧ last.state = upon call s := by
  obtain ⟨value, last, ran, same, -⟩ := arrive_ran (call.task sampleManager) s (fun _ _ => true) plain_around
    (by rwa [Option.any_true])
  exact ⟨last, ran, same⟩

def unlinked (bodies : List (String × Bytes)) : Snapshot MemFs := upon unlinking (edited bodies)
def opened (bodies : List (String × Bytes)) : Snapshot MemFs := upon opening (unlinked bodies)
def written (bodies : List (String × Bytes)) : Snapshot MemFs := upon writing (opened bodies)
def closed (bodies : List (String × Bytes)) : Snapshot MemFs := upon closing (written bodies)

theorem unlinked_reached (bodies : List (String × Bytes)) (supported : (edited bodies).store.rejectConditionalDelete = false)
    (queued : (edited bodies).manager.outboundQueue = [.upload "/a"]) (free : (edited bodies).manager.leases.lookup "/a" = none)
    (there : (edited bodies).fs.files.lookup "/a" = some [1])
    (returns : (solo Truthful plain (unlinking.task sampleManager) (edited bodies)).isSome = true) :
    Reached sampleManager "/a" [1] True False (unlinked bodies) := by
  obtain ⟨last, ran, same⟩ := upon_ran _ _ returns
  have tidy : Tidy "/a" (edited bodies).manager.outboundQueue := by
    rw [queued]
    intro op member other
    rw [List.mem_singleton.mp member] at other
    exact (other rfl).elim
  rw [unlinked, ← same]
  refine .unlink supported tidy free there (fun fs => ?_) ran
  exact (Map.lookup_erase_eq ..).trans (if_pos rfl)

/-- Every step of these calls but the unlink. -/
theorem closed_reached (bodies : List (String × Bytes)) {careful pushed : Prop}
    (reached : Reached sampleManager "/a" [1] careful pushed (unlinked bodies))
    (leased : ((opened bodies).manager.leases.lookup "/a").isSome = true)
    (opens : (solo Truthful plain (opening.task sampleManager) (unlinked bodies)).isSome = true)
    (writes : (solo Truthful plain (writing.task sampleManager) (opened bodies)).isSome = true)
    (closes : (solo Truthful plain (closing.task sampleManager) (written bodies)).isSome = true) :
    Reached sampleManager "/a" [1]
      ((careful ∧ Careful "/a" [1] (unlinked bodies) opening) ∧ Careful "/a" [1] (written bodies) closing)
      ((pushed ∨ object "/a" (opened bodies) ≠ object "/a" (unlinked bodies)) ∨
        object "/a" (closed bodies) ≠ object "/a" (written bodies)) (closed bodies) := by
  obtain ⟨first, ran, same⟩ := upon_ran _ _ opens
  have same : first.state = opened bodies := same
  have reached := Reached.serve reached (.openWrite 1) ran
  rw [same] at reached
  obtain ⟨second, ran, same⟩ := upon_ran _ _ writes
  have same : second.state = written bodies := same
  have reached := Reached.write reached leased ran
  rw [same] at reached
  obtain ⟨third, ran, same⟩ := upon_ran _ _ closes
  have same : third.state = closed bodies := same
  have reached := Reached.serve reached .close ran
  rw [same] at reached
  exact reached

end
end MonakaFs.Sync.Unlinked
