import MonakaFs.Sync.Lone.Polls
import MonakaFs.Sync.Lone.Flushes

/-! A lone instance without leases converges.

Between an unlink and its flush the cache knows nothing of the file, and between a
write and its flush it may know too much. Neither matters to an instance that may
overwrite: what is queued for a file says how to make the object what the file is.
-/

set_option autoImplicit false

namespace MonakaFs.Sync.Lone.Convergence

open Async SyncManager LawfulBackend

section
variable [EtagScheme] {F A : Type} [LawfulBackend F] {path : String} {v w : View} {s : Node F} {manager : SyncManager}

/-- Local file, cache and store agree, or the queue says what is left to do. -/
inductive Sound (path : String) (v : View) : Prop where
  | settled : v.lease = none → v.queued = [] → v.object.map (·.data) = v.bytes → v.cached = v.object.map (·.etag) → Sound path v
  | uploading : v.lease = none → v.queued = [.upload path] → v.bytes ≠ none → Sound path v
  | deleting {etag : Option String} : v.lease = none → v.queued = [.delete path etag] → v.bytes = none → v.cached = none → Sound path v

/-- The file is sound with these bytes. -/
def Has (path : String) (bytes : Option Bytes) (v : View) : Prop := Sound path v ∧ v.bytes = bytes

omit [LawfulBackend F] in
theorem Sound.free (sound : Sound path v) : v.lease = none := by cases sound <;> assumption

theorem condForUpload_spec (free : v.lease = none) (seen : Seen path v s.state) :
    (alone path).Safe (fun _ t => Seen path v t.state) (condForUpload path) s := by
  simp only [condForUpload, withLeases_bind]
  refine leases_next (fun _ => id) seen fun table u known seen => ?_
  rw [show table.lookup path = none from known.trans free]
  exact cache_next (fun _ => id) seen fun cache w _ seen => return_seen seen fun _ => id

/-- Without leases a conflict is overwritten. -/
theorem handleUploadConflict_spec (lockless : manager.config.fileLock = false) (seen : Seen path v s.state) :
    (alone path).Safe (fun result t => match result with
      | .ok _ => ∃ version, v.bytes = some version.data ∧ Seen path (v.pushed version) t.state
      | .error e => e.isConflict = false ∧ Seen path v t.state) (manager.handleUploadConflict path) s := by
  simp only [handleUploadConflict, lockless, if_true]
  refine (uploadWithCond_spec manager seen).bind fun result y outcome => ?_
  rcases result with e | etag
  · exact return_seen outcome.1 fun z seen => ⟨outcome.2.1, seen⟩
  · obtain ⟨-, version, -, same, seen⟩ := outcome
    exact return_seen seen fun z seen => ⟨version, same, seen⟩

/-- A queued upload makes the object what the file is, or stays queued. -/
theorem flushUpload_sound (batch : manager.config.mode = .batch) (lockless : manager.config.fileLock = false)
    (free : v.lease = none) (queued : v.queued = []) (there : v.bytes ≠ none) (seen : Seen path v s.state) :
    (alone path).Safe (Holding path (Has path v.bytes)) (manager.flushUpload path) s := by
  -- After a push the store, the cache and the file agree.
  have pushed {A : Type} {value : A} {version : MemObject} {t : Node F} (same : v.bytes = some version.data)
      (seen : Seen path (v.pushed version) t.state) : (alone path).Safe (Holding path (Has path v.bytes)) (.done value : Task F A) t := by
    have settled : Sound path (v.pushed version) := .settled (by simp [View.pushed, free]) queued same.symm rfl
    exact return_holding ⟨settled, rfl⟩ seen
  -- After a failure the upload waits in the queue.
  have again {A : Type} {value : A} {t : Node F} (seen : Seen path v t.state) :
      (alone path).Safe (Holding path (Has path v.bytes)) (requeue path >>= fun _ => .done value : Task F A) t := by
    refine queue_next (k := fun _ => .done value) (fun _ tidy => tidy.append fun other => (other rfl).elim) seen
      fun queue u known seen => ?_
    have waiting : ops path (queue ++ [.upload path]) = [.upload path] := by
      rw [ops, List.filter_append, show queue.filter (·.path = path) = [] from known.trans queued]
      simp [SyncOperation.path]
    have uploading : Sound path { v with queued := ops path (queue ++ [.upload path]) } := .uploading free waiting there
    exact return_holding ⟨uploading, rfl⟩ seen
  simp only [flushUpload, batch, reduceCtorEq, if_false, isLocked_bind]
  refine leases_next (fun _ => id) seen fun table u known seen => ?_
  rw [show table.lookup path = none from known.trans free]
  refine (condForUpload_spec free seen).bind fun cond w seen => ?_
  refine (uploadWithCond_spec manager seen).bind fun result x outcome => ?_
  rcases result with e | etag
  · obtain ⟨seen, plain, why⟩ := outcome
    dsimp only
    split
    · refine (handleUploadConflict_spec lockless seen).bind fun result y outcome => ?_
      rcases result with e | _
      · obtain ⟨other, seen⟩ := outcome
        simp only [other, Bool.false_eq_true, if_false]
        exact again seen
      · obtain ⟨version, same, seen⟩ := outcome
        exact pushed same seen
    · exact again seen
  · obtain ⟨-, version, -, same, seen⟩ := outcome
    exact pushed same seen

/-- A queued delete leaves no object, whatever ETag it was queued with. -/
theorem flushDelete_sound (lockless : manager.config.fileLock = false) {etag : Option String} (free : v.lease = none)
    (queued : v.queued = []) (absent : v.bytes = none) (unknown : v.cached = none) (seen : Seen path v s.state) :
    (alone path).Safe (Holding path (Has path v.bytes)) (manager.flushDelete path etag) s := by
  have settled : Sound path { v with object := none } := .settled free queued absent.symm unknown
  refine (flushDelete_spec manager etag seen).weaken fun _ t ⟨w, deleted, seen⟩ => ⟨w, ?_, seen⟩
  cases deleted with
  | gone | forced => exact ⟨settled, rfl⟩
  | kept _ locks => rw [lockless] at locks; cases locks

theorem has_handled (batch : manager.config.mode = .batch) (lockless : manager.config.fileLock = false) (bytes : Option Bytes) :
    Handled F manager path (Has path bytes) where
  upload v rest s has front seen := by
    obtain ⟨sound, rfl⟩ := has
    cases sound with
    | settled _ empty => rw [empty] at front; cases front
    | uploading free queued there =>
      obtain ⟨-, rfl⟩ := List.cons.inj (front.symm.trans queued)
      exact flushUpload_sound (v := { v with queued := [] }) batch lockless free rfl there seen
    | deleting _ queued => cases front.symm.trans queued
  delete v etag rest s has front seen := by
    obtain ⟨sound, rfl⟩ := has
    cases sound with
    | settled _ empty => rw [empty] at front; cases front
    | uploading _ queued => cases front.symm.trans queued
    | deleting free queued absent unknown =>
      obtain ⟨-, rfl⟩ := List.cons.inj (front.symm.trans queued)
      exact flushDelete_sound (v := { v with queued := [] }) lockless free rfl absent unknown seen

theorem pollInbound_sound (spelled : Spelled path) (sound : Sound path v) (seen : Seen path v s.state) :
    (alone path).Safe (fun _ t => Seen path v t.state) pollInbound s := by
  cases sound with
  | settled _ _ _ current => exact pollInbound_current spelled current seen
  | uploading _ queued => exact pollInbound_guarded (.inr (by simp [queued])) seen
  | deleting _ queued => exact pollInbound_guarded (.inr (by simp [queued])) seen

/-! ### Local changes -/

/-- A change of one local file. -/
structure Sets (F : Type) [LawfulBackend F] (name : String) (bytes : Option Bytes) (change : F → F) : Prop where
  content : ∀ fs, content (change fs) = Function.update (content fs) name bytes

/-- A local change, and the operation queued for it. -/
inductive Change (F : Type) [LawfulBackend F] : String → Call F → Prop where
  | write {name : String} {body : Bytes} {change : F → F} : Sets F name (some body) change → Change F name (.write name change)
  | unlink {name : String} {change : F → F} : Sets F name none change → Change F name (.unlink name change)

theorem write_sound {body : Bytes} {change : F → F} (sets : Sets F path (some body) change) (sound : Sound path v)
    (seen : Seen path v s.state) :
    (alone path).Safe (Holding path (Sound path)) ((Call.write path change).task manager) s := by
  refine app_next (k := fun _ => enqueueUpload path) seen fun fs u _ seen => ?_
  refine (enqueueUpload_spec seen).weaken fun _ t seen => ⟨_, ?_, seen⟩
  rw [View.changed, sound.free]
  exact .uploading rfl rfl (by rw [sets.content, Function.update_self]; exact nofun)

theorem unlink_sound {change : F → F} (sets : Sets F path none change) (sound : Sound path v) (seen : Seen path v s.state) :
    (alone path).Safe (Holding path (Sound path)) ((Call.unlink path change).task manager) s := by
  refine app_next (k := fun _ => enqueueDelete path) seen fun fs u _ seen => ?_
  refine (enqueueDelete_spec seen).weaken fun _ t seen => ⟨_, ?_, seen⟩
  rw [View.changed, sound.free]
  exact .deleting rfl rfl (by rw [sets.content, Function.update_self]) rfl

omit [EtagScheme] [LawfulBackend F] in
theorem enqueue_rests {name : String} (op : SyncOperation) (named : op.path = name) (apart : Apart path name) :
    Op.Rests (F := F) path (.queue fun queue => queue.filter (·.path ≠ name) ++ [op]) := by
  subst named
  refine fun queue => ⟨?_, fun tidy => (tidy.filter _).append fun _ => apart.key⟩
  rw [ops_other op _ apart.name, ops_filter apart.name]

omit [EtagScheme] [LawfulBackend F] in
theorem enqueueUpload_resting {name : String} (apart : Apart path name) : Resting (F := F) path (enqueueUpload name) := by
  simp only [enqueueUpload, withLeases_bind, only_next]
  refine ⟨alter_rests apart.name _, fun table => ?_⟩
  split
  · trivial
  · exact ⟨enqueue_rests (.upload name) rfl apart, fun _ => trivial⟩

omit [EtagScheme] [LawfulBackend F] in
theorem enqueueDelete_resting {name : String} (apart : Apart path name) : Resting (F := F) path (enqueueDelete name) := by
  simp only [enqueueDelete, withLeases_bind, only_next]
  refine ⟨alter_rests apart.name _, fun table => ?_⟩
  split
  · trivial
  · exact ⟨fun cache => (MetadataCache.etag_remove ..).trans (if_neg (Ne.symm apart.name)), fun cache =>
      ⟨enqueue_rests (.delete name _) rfl apart, fun _ => trivial⟩⟩

/-- A local change of another file. -/
theorem change_other {name : String} {call : Call F} (change : Change F name call) (apart : Apart path name)
    (seen : Seen path v s.state) : (alone path).Safe (fun _ t => Seen path v t.state) (call.task manager) s := by
  have same {bytes : Option Bytes} {change : F → F} (sets : Sets F name bytes change) (fs : F) (known : content fs path = v.bytes) :
      { v with bytes := content (change fs) path } = v := by
    rw [sets.content, Function.update_of_ne (Ne.symm apart.name), known]
  cases change with
  | write sets =>
    refine app_next (k := fun _ => enqueueUpload name) seen fun fs u known seen => ?_
    rw [same sets fs known] at seen
    exact resting_safe (enqueueUpload_resting apart) seen
  | unlink sets =>
    refine app_next (k := fun _ => enqueueDelete name) seen fun fs u known seen => ?_
    rw [same sets fs known] at seen
    exact resting_safe (enqueueDelete_resting apart) seen

/-! ### Runs -/

/-- Time passes. Nobody else touches the store, and the instance waits. -/
structure Idle (s t : Snapshot F) : Prop where
  store : t.store = s.store
  manager : t.manager = s.manager
  fs : t.fs = s.fs

def idle (F : Type) : Surroundings F where
  moves := Idle
  refl _ := ⟨rfl, rfl, rfl⟩
  trans first second := ⟨second.store.trans first.store, second.manager.trans first.manager, second.fs.trans first.fs⟩

theorem idle_around (s t : Snapshot F) (idle : Idle s t) : Around path s t where
  view := by simp only [view, object, idle.store, idle.manager, idle.fs]
  conditional := by rw [idle.store]
  tidy := by rw [idle.manager]; exact id

/-- The ticks that run to completion. -/
inductive Ticks : Call F → Prop where
  | flushOutbound : Ticks .flushOutbound
  | forceFlush (rounds : Nat) : Ticks (.forceFlush rounds)
  | pollInbound : Ticks .pollInbound

/-- Local changes of some files and ticks, one after the other. -/
inductive Reached (manager : SyncManager) (named : String → Prop) (first : Snapshot F) : Snapshot F → Prop where
  | start : Reached manager named first first
  | change {s : Snapshot F} {name : String} {call : Call F} {last : Node F} : Reached manager named first s → named name →
      Change F name call → Ran Truthful (idle F) (call.task manager) s () last → Reached manager named first last.state
  | tick {s : Snapshot F} {call : Call F} {last : Node F} : Reached manager named first s → Ticks call →
      Ran Truthful (idle F) (call.task manager) s () last → Reached manager named first last.state

/-- Local files, cache and store agree on every file, and nothing is queued or leased. -/
structure Agreed (s : Snapshot F) : Prop where
  conditional : s.store.rejectConditionalDelete = false
  queue : s.manager.outboundQueue = []
  leases : s.manager.leases = ∅
  bytes : ∀ path, Spelled path → Agree path s
  cached : ∀ path, Spelled path → s.manager.metadataCache.etag path = (object path s).map (·.etag)

theorem Agreed.sound {first : Snapshot F} (agreed : Agreed first) (spelled : Spelled path) :
    ∃ v, Sound path v ∧ Seen path v first := by
  refine ⟨view path first, .settled ?_ ?_ (agreed.bytes path spelled) (agreed.cached path spelled), rfl, agreed.conditional, ?_⟩
  · rw [view, agreed.leases]
    rfl
  · rw [view, agreed.queue]
    rfl
  · rw [agreed.queue]
    exact nofun

theorem change_sound {name : String} {call : Call F} (change : Change F name call) (spelled : Spelled path)
    (spelled' : Spelled name) (sound : Sound path v) (seen : Seen path v s.state) :
    (alone path).Safe (Holding path (Sound path)) (call.task manager) s := by
  by_cases own : name = path
  · subst own
    cases change with
    | write sets => exact write_sound sets sound seen
    | unlink sets => exact unlink_sound sets sound seen
  · exact (change_other change (spelled.apart spelled' own) seen).weaken fun _ t seen => ⟨v, sound, seen⟩

theorem tick_sound (batch : manager.config.mode = .batch) (lockless : manager.config.fileLock = false) {call : Call F}
    (ticks : Ticks call) (spelled : Spelled path) (sound : Sound path v) (seen : Seen path v s.state) :
    (alone path).Safe (Holding path (Has path v.bytes)) (call.task manager) s := by
  have handled : Handled F manager path (Has path v.bytes) := has_handled batch lockless v.bytes
  cases ticks with
  | flushOutbound =>
    exact (flushOutbound_keeps handled ⟨sound, rfl⟩ seen).bind fun _ t ⟨w, has, seen⟩ => return_holding has seen
  | forceFlush rounds =>
    exact (forceFlush_keeps handled rounds ⟨sound, rfl⟩ seen).bind fun _ t ⟨w, has, seen, _⟩ => return_holding has seen
  | pollInbound =>
    exact (pollInbound_sound spelled sound seen).bind fun _ t seen => return_holding ⟨sound, rfl⟩ seen

theorem Reached.sound (batch : manager.config.mode = .batch) (lockless : manager.config.fileLock = false) {first t : Snapshot F}
    (agreed : Agreed first) (reached : Reached manager Spelled first t) (spelled : Spelled path) :
    ∃ v, Sound path v ∧ Seen path v t := by
  induction reached with
  | start => exact agreed.sound spelled
  | @change s _ _ _ _ spelled' change ran ih =>
    obtain ⟨v, sound, seen⟩ := ih
    exact (change_sound (s := ⟨s, []⟩) change spelled spelled' sound seen).exec (exec_mono idle_around ran)
  | @tick s _ _ _ ticks ran ih =>
    obtain ⟨v, sound, seen⟩ := ih
    obtain ⟨w, has, seen⟩ := (tick_sound (s := ⟨s, []⟩) batch lockless ticks spelled sound seen).exec (exec_mono idle_around ran)
    exact ⟨w, has.1, seen⟩

/-- A flush or a poll changes no local file, and when a forced flush succeeds the store has exactly the local files. -/
theorem instance_converges (batch : manager.config.mode = .batch) (lockless : manager.config.fileLock = false) {first t : Snapshot F}
    (agreed : Agreed first) (reached : Reached manager Spelled first t) (spelled : Spelled path) :
    (∀ call last, Ticks call → Ran Truthful (idle F) (call.task manager) t () last →
      content last.state.fs path = content t.fs path) ∧
    (∀ rounds count last, Ran Truthful (idle F) (manager.forceFlush rounds) t (.ok count) last → Agree path last.state) := by
  obtain ⟨v, sound, seen⟩ := reached.sound batch lockless agreed spelled
  refine ⟨fun call last ticks ran => ?_, fun rounds count last ran => ?_⟩
  · obtain ⟨w, has, after⟩ := (tick_sound (s := ⟨t, []⟩) batch lockless ticks spelled sound seen).exec (exec_mono idle_around ran)
    exact (congrArg View.bytes after.view).trans (has.2.trans (congrArg View.bytes seen.view).symm)
  · have handled : Handled F manager path (Has path v.bytes) := has_handled batch lockless v.bytes
    obtain ⟨w, has, after, flushed⟩ := (forceFlush_keeps (s := ⟨t, []⟩) handled rounds ⟨sound, rfl⟩ seen).exec (exec_mono idle_around ran)
    have empty : w.queued = [] := flushed count rfl
    have agree : w.object.map (·.data) = w.bytes := by
      cases has.1 with
      | settled _ _ same => exact same
      | uploading _ queued | deleting _ queued => rw [empty] at queued; cases queued
    rw [← after.view] at agree
    exact agree

end

/-! ### Concrete runs -/

section
open scoped ContentEtags

/-- One operation is flushed at a time. -/
def sampleManager : SyncManager := ⟨Sample.first, ⟨.batch, .polling, .local, 0, 0, 1, false, 0, 1000⟩⟩

/-- Nothing is stored anywhere. -/
def blank : Snapshot MemFs := ⟨Sample.store [], 0, .new .empty 0, .empty⟩

theorem blank_agreed : Agreed blank := ⟨rfl, rfl, rfl, fun _ _ => rfl, fun _ _ => rfl⟩

theorem writeLocal_sets (name : String) (body : Bytes) : Sets MemFs name (some body) (MemFs.writeLocal name body) where
  content fs := funext fun other => by
    show (fs.files.insert name body).lookup other = _
    rw [Map.lookup_insert_eq, Function.update_apply]
    rfl

theorem removeLocal_sets (name : String) : Sets MemFs name none (MemFs.removeLocal name) where
  content fs := funext fun other => by
    show (fs.files.erase name).lookup other = _
    rw [Map.lookup_erase_eq, Function.update_apply]
    rfl

def writing (name : String) (body : Bytes) : Call MemFs := .write name (MemFs.writeLocal name body)
def unlinking (name : String) : Call MemFs := .unlink name (MemFs.removeLocal name)

def plain : List ((Snapshot MemFs → Snapshot MemFs) × Turn) := List.replicate 32 plainly

theorem plain_idle : ∀ turn ∈ plain, (∀ s, (idle MemFs).moves s (turn.1 s)) ∧ Truthful turn.2 := quiet_turns rfl

/-- The state after some calls. -/
def after (calls : List (Call MemFs)) : Snapshot MemFs :=
  calls.foldl (fun s call => arrive Truthful plain (call.task sampleManager) s) blank

theorem after_ran {calls : List (Call MemFs)} {call : Call MemFs}
    (returns : (solo Truthful plain (call.task sampleManager) (after calls)).isSome = true) :
    ∃ last, Ran Truthful (idle MemFs) (call.task sampleManager) (after calls) () last ∧ last.state = after (calls ++ [call]) := by
  obtain ⟨value, last, ran, same, -⟩ := arrive_ran (call.task sampleManager) (after calls) (fun _ _ => true) plain_idle
    (by rwa [Option.any_true])
  exact ⟨last, ran, by rw [same, after, after, List.foldl_append]; rfl⟩

variable {named : String → Prop} {calls : List (Call MemFs)}

theorem after_change {name : String} {call : Call MemFs} (reached : Reached sampleManager named blank (after calls)) (fine : named name)
    (change : Change MemFs name call) (returns : (solo Truthful plain (call.task sampleManager) (after calls)).isSome = true) :
    Reached sampleManager named blank (after (calls ++ [call])) := by
  obtain ⟨last, ran, same⟩ := after_ran returns
  rw [← same]
  exact .change reached fine change ran

theorem after_tick {call : Call MemFs} (reached : Reached sampleManager named blank (after calls)) (ticks : Ticks call)
    (returns : (solo Truthful plain (call.task sampleManager) (after calls)).isSome = true) :
    Reached sampleManager named blank (after (calls ++ [call])) := by
  obtain ⟨last, ran, same⟩ := after_ran returns
  rw [← same]
  exact .tick reached ticks ran

/-- A file is stored, deleted and written again before the delete is flushed. -/
def rewritten : List (Call MemFs) := [writing "/a" [1], .flushOutbound, unlinking "/a", writing "/a" [2], .pollInbound]

theorem rewritten_reached : Reached sampleManager Spelled blank (after rewritten) := by
  have first : Reached sampleManager Spelled blank (after []) := .start
  have second := after_change first (by decide : Spelled "/a") (.write (writeLocal_sets "/a" [1])) (by decide +kernel)
  have third := after_tick second .flushOutbound (by decide +kernel)
  have fourth := after_change third (by decide : Spelled "/a") (.unlink (removeLocal_sets "/a")) (by decide +kernel)
  have fifth := after_change fourth (by decide : Spelled "/a") (.write (writeLocal_sets "/a" [2])) (by decide +kernel)
  have sixth := after_tick fifth .pollInbound (by decide +kernel)
  have listed : rewritten = (((([] ++ [writing "/a" [1]]) ++ [.flushOutbound]) ++ [unlinking "/a"]) ++ [writing "/a" [2]]) ++
    [.pollInbound] := rfl
  rw [listed]
  exact sixth

theorem instance_converges_sample : ∃ last,
    Ran Truthful (idle MemFs) (sampleManager.forceFlush 3) (after rewritten) (.ok 1) last ∧ Agree "/a" last.state := by
  obtain ⟨result, last, ran, checked⟩ := solo_returned (sampleManager.forceFlush 3) (after rewritten)
    (fun result _ => decide (result = .ok 1)) plain_idle (by decide +kernel)
  cases of_decide_eq_true checked
  exact ⟨last, ran, (instance_converges rfl rfl blank_agreed rewritten_reached (by decide)).2 _ _ _ ran⟩

/-- A path with two slashes in front is flushed to the object of the path with one, and
the next poll takes the file for deleted. -/
theorem poll_removes_created : Reached sampleManager (· = "//a") blank (after [writing "//a" [1], .flushOutbound]) ∧
    ∃ last, Ran Truthful (idle MemFs) (Call.pollInbound.task sampleManager) (after [writing "//a" [1], .flushOutbound]) () last ∧
      (after [writing "//a" [1], .flushOutbound]).fs.files.lookup "//a" = some [1] ∧ last.state.fs.files.lookup "//a" = none := by
  refine ⟨?_, ?_⟩
  · have first : Reached sampleManager (· = "//a") blank (after []) := .start
    have second := after_change first rfl (.write (writeLocal_sets "//a" [1])) (by decide +kernel)
    exact after_tick second .flushOutbound (by decide +kernel)
  · obtain ⟨_, last, ran, checked⟩ := solo_returned (Call.pollInbound.task sampleManager) (after [writing "//a" [1], .flushOutbound])
      (fun _ last => decide (last.state.fs.files.lookup "//a" = none)) plain_idle (by decide +kernel)
    exact ⟨last, ran, by decide +kernel, of_decide_eq_true checked⟩

end
end MonakaFs.Sync.Lone.Convergence
