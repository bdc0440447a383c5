import MonakaFs.Sync.Outbound.Evidence
import MonakaFs.Sync.Runs

/-! A flush accounts for what it takes from the queue.

Each operation is settled before the next one is taken: it was applied, or it lost a
conflict, or its path was leased when it was taken. What was left to a lease stays
marked there, because the flush pushes no path that is leased.
-/

set_option autoImplicit false

namespace MonakaFs.Sync.Outbound

open Async SyncManager

section
variable [EtagScheme] {F : Type} {path : String} {manager : SyncManager} {op other : SyncOperation} {log extra : Log F}
  {take : Entry F}

/-- Nothing is taken from the queue here. -/
def Quiet (moment : Entry F) : Prop := ∀ op, ¬ Takes op moment

/-- How an operation ends whose flush goes on. -/
def Settled (manager : SyncManager) (op : SyncOperation) (take : Entry F) (newer : Log F) : Prop :=
  Applied op newer ∨ Conflicted manager op newer ∨
    ∃ path, op = .upload path ∧ (take.before.manager.leases.lookup path).isSome = true

/-- Every operation that was taken is settled. -/
def Handled (manager : SyncManager) (log : Log F) : Prop :=
  ∀ newer take older op, log = newer ++ take :: older → Takes op take → Settled manager op take newer

/-- What was left to a lease is marked there. -/
def Guarded (s : Node F) : Prop := ∀ path, Skipped path s.log → Marked path s.state

/-- Every operation that was taken is accounted for. -/
def Accounts (manager : SyncManager) (s : Node F) : Prop :=
  ∀ newer take older op, s.log = newer ++ take :: older → Takes op take → Accounted manager op newer s.state

theorem Takes.same (first : Takes op take) (second : Takes other take) : op = other := by
  have heads := first.2.symm.trans second.2
  exact (List.cons.inj heads).1

theorem quiet_of_no_section {moment : Entry F} (no : ∀ change, moment.op ≠ .queue change) : Quiet moment := by
  rintro op ⟨⟨change, section'⟩, -⟩
  exact no change section'

/-- A section that shortens no queue takes nothing. -/
theorem quiet_of_longer {moment : Entry F}
    (longer : moment.before.manager.outboundQueue.length ≤ moment.after.manager.outboundQueue.length) : Quiet moment := by
  rintro op ⟨-, popped⟩
  rw [popped, List.length_cons] at longer
  omega

/-- More moments take no evidence away. -/
theorem Applied.mono (applied : Applied op log) (within : log ⊆ extra) : Applied op extra := by
  cases op with
  | upload path =>
    obtain ⟨body, ⟨read, member, same⟩, put, member', pushes⟩ := applied
    exact ⟨body, ⟨read, within member, same⟩, put, within member', pushes⟩
  | delete path etag =>
    obtain ⟨moment, member, deletes⟩ := applied
    exact ⟨moment, within member, deletes⟩

theorem Conflicted.mono (conflicted : Conflicted manager op log) (within : log ⊆ extra) : Conflicted manager op extra := by
  obtain ⟨locks, moment, member, rejects⟩ := conflicted
  exact ⟨locks, moment, within member, rejects⟩

theorem Settled.older (newer : Log F) (settled : Settled manager op take log) : Settled manager op take (newer ++ log) := by
  obtain applied | conflicted | leased := settled
  · exact .inl (applied.mono (List.subset_append_right newer log))
  · exact .inr (.inl (conflicted.mono (List.subset_append_right newer log)))
  · exact .inr (.inr leased)

/-- What was taken before quiet moments was taken in the rest of the log. -/
theorem taken_earlier {newer older : Log F} (quiet : ∀ moment ∈ extra, Quiet moment) (taken : Takes op take)
    (same : extra ++ log = newer ++ take :: older) : ∃ middle, newer = extra ++ middle ∧ log = middle ++ take :: older := by
  rcases List.append_eq_append_iff.mp same with ⟨middle, rfl, rest⟩ | ⟨middle, rfl, rest⟩
  · exact ⟨middle, rfl, rest⟩
  · cases middle with
    | nil => exact ⟨[], by simp, rest.symm⟩
    | cons moment others =>
      obtain ⟨rfl, -⟩ := List.cons.inj rest
      exact absurd taken (quiet take (by simp) op)

theorem Handled.extend (handled : Handled manager log) (quiet : ∀ moment ∈ extra, Quiet moment) :
    Handled manager (extra ++ log) := by
  intro newer take older op same taken
  obtain ⟨middle, rfl, found⟩ := taken_earlier quiet taken same
  exact (handled middle take older op found taken).older extra

theorem Handled.close (handled : Handled manager log) (taken : Takes op take) (quiet : ∀ moment ∈ extra, Quiet moment)
    (settled : Settled manager op take extra) : Handled manager (extra ++ take :: log) := by
  intro newer take' older other same taken'
  obtain ⟨middle, rfl, found⟩ := taken_earlier quiet taken' same
  cases middle with
  | nil =>
    obtain ⟨rfl, -⟩ := List.cons.inj found
    rw [taken'.same taken, List.append_nil]
    exact settled
  | cons moment others =>
    obtain ⟨rfl, rest⟩ := List.cons.inj found
    exact ((handled others take' older other rest taken').older [take]).older extra

theorem Settled.accounted {s : Node F} {newer : Log F} (settled : Settled manager op take newer) (guarded : Guarded s)
    (member : take ∈ s.log) (taken : Takes op take) : Accounted manager op newer s.state := by
  obtain applied | conflicted | ⟨path, rfl, leased⟩ := settled
  · exact .inl applied
  · exact .inr (.inl conflicted)
  · exact .inr (.inr (.inl (guarded path ⟨take, member, taken, leased⟩)))

theorem Handled.accounts {s : Node F} (handled : Handled manager s.log) (guarded : Guarded s) : Accounts manager s := by
  intro newer take older op same taken
  exact (handled newer take older op same taken).accounted guarded (by simp [same]) taken

/-- The last operation may be back in the queue. -/
theorem Handled.requeued {s : Node F} (handled : Handled manager log) (guarded : Guarded s) (taken : Takes op take)
    (quiet : ∀ moment ∈ extra, Quiet moment) (logged : s.log = extra ++ take :: log)
    (queued : op ∈ s.state.manager.outboundQueue) : Accounts manager s := by
  intro newer take' older other same taken'
  obtain ⟨middle, rfl, found⟩ := taken_earlier quiet taken' (logged.symm.trans same)
  cases middle with
  | nil =>
    obtain ⟨rfl, -⟩ := List.cons.inj found
    exact .inr (.inr (.inr ⟨op, queued, by rw [taken'.same taken]⟩))
  | cons moment others =>
    obtain ⟨rfl, rest⟩ := List.cons.inj found
    have settled := ((handled others take' older other rest taken').older [take]).older extra
    exact settled.accounted guarded (by simp [same]) taken'

end

/-! ### What one operation leaves alone -/

section
variable [EtagScheme] {F A : Type} [FsBackend F] {path other : String} {manager : SyncManager} {log : Log F} {s : Node F}

/-- Nothing was taken since then, and what was left to a lease is marked there. -/
def Clean (log : Log F) (s : Node F) : Prop := Since log (fun extra => ∀ moment ∈ extra, Quiet moment) s ∧ Guarded s

theorem marked_other {t : Snapshot F} {turn : Turn} {op : Op F} (transfers : op.Transfers True path) (apart : other ≠ path)
    (marked : Marked other t) : Marked other (t.act turn op).2 := by
  cases transfers with
  | pin | unpin =>
    obtain ⟨lease, held, mark⟩ := marked
    refine ⟨lease, ?_, mark⟩
    simp only [Snapshot.act]
    rw [Map.lookup_alter, if_neg apart]
    exact held
  | look | put | delete | readCache | forget | uploaded | downloaded | readLeases | now | read | stat | write => exact marked

omit [EtagScheme] [FsBackend F] in
theorem transfers_no_section {op : Op F} (transfers : op.Transfers True path) (change : List SyncOperation → List SyncOperation) :
    op ≠ .queue change := by
  rintro rfl
  cases transfers

omit [FsBackend F] in
/-- One moment that takes nothing keeps the rest clean. -/
theorem Clean.next {op : Op F} {reply : op.Reply} {t u : Snapshot F} (clean : Clean log s) (moves : marking.moves s.state t)
    (quiet : Quiet ⟨op, reply, t, u⟩) (keeps : ∀ path, Skipped path s.log → Marked path t → Marked path u) :
    Clean log ⟨u, ⟨op, reply, t, u⟩ :: s.log⟩ := by
  obtain ⟨⟨extra, logged, nothing⟩, guarded⟩ := clean
  refine ⟨⟨_ :: extra, congrArg (List.cons _) logged, List.forall_mem_cons.mpr ⟨quiet, nothing⟩⟩, fun path skipped => ?_⟩
  obtain ⟨moment, member, taken, leased⟩ := skipped
  rcases List.mem_cons.mp member with rfl | member
  · exact absurd taken (quiet _)
  · have skipped : Skipped path s.log := ⟨moment, member, taken, leased⟩
    exact keeps path skipped (moves path (guarded path skipped))

omit [FsBackend F] in
theorem Clean.here (guarded : Guarded s) : Clean s.log s := ⟨⟨[], rfl, fun _ member => (by cases member)⟩, guarded⟩

/-- Requests leave leases and queue alone. -/
theorem Clean.request {r : Request} (reply : r.Answer) {t u : Snapshot F} {turn : Turn} (clean : Clean log s)
    (moves : marking.moves s.state t) (served : u = (t.act turn (.request r)).2) :
    Clean log ⟨u, ⟨.request r, reply, t, u⟩ :: s.log⟩ := by
  refine clean.next moves (quiet_of_no_section fun _ same => (by cases same)) fun _ _ marked => ?_
  rw [served]
  exact marked

omit [FsBackend F] in
theorem Clean.skipped (clean : Clean log s) : Skipped path s.log ↔ Skipped path log := by
  obtain ⟨⟨extra, logged, nothing⟩, -⟩ := clean
  constructor
  · rintro ⟨moment, member, taken, leased⟩
    rw [logged] at member
    rcases List.mem_append.mp member with member | member
    · exact absurd taken (nothing moment member _)
    · exact ⟨moment, member, taken, leased⟩
  · rintro ⟨moment, member, taken, leased⟩
    exact ⟨moment, by rw [logged]; exact List.mem_append_right _ member, taken, leased⟩

/-- A program that moves a file whose upload was not left to a lease. -/
theorem moving_clean {task : Task F A} (moving : Moving True path task) (unskipped : ¬ Skipped path log) (clean : Clean log s) :
    flushes.Safe (fun _ t => Clean log t) task s := by
  refine Contract.Keeps.safe ?_ moving clean
  refine ⟨fun clean same => same ▸ clean, fun _ => trivial, ?_⟩
  rintro op ⟨t, older⟩ reply u transfers clean ⟨v, moves, -, effect, -⟩
  refine ⟨trivial, ?_⟩
  obtain ⟨⟨turn, -, -, served⟩, logged⟩ := node_effect effect
  have same : u = ⟨u.state, ⟨op, reply, v, u.state⟩ :: older⟩ := by rw [← logged]
  rw [same]
  refine clean.next moves (quiet_of_no_section (transfers_no_section transfers)) fun name skipped marked => ?_
  rw [served]
  refine marked_other transfers ?_ marked
  rintro rfl
  exact unskipped (clean.skipped.mp skipped)

omit [FsBackend F] in
theorem Since.and {first second : Log F → Prop} (since : Since log first s) (also : Since log second s) :
    Since log (fun extra => first extra ∧ second extra) s := by
  obtain ⟨extra, logged, evidence⟩ := since
  obtain ⟨extra', logged', evidence'⟩ := also
  obtain rfl : extra = extra' := List.append_cancel_right (logged.symm.trans logged')
  exact ⟨extra, logged, evidence, evidence'⟩

/-! ### Uploads -/

omit [FsBackend F] in
theorem UploadEvidence.newer {result : Except SyncError String} (older : Log F) (evidence : UploadEvidence path result log) :
    UploadEvidence path result (log ++ older) := by
  refine ⟨fun etag ok => (evidence.1 etag ok).mono (List.subset_append_left log older), fun e failed => ?_⟩
  refine ⟨(evidence.2 e failed).1, fun rejection => ?_⟩
  obtain ⟨moment, member, rejects⟩ := (evidence.2 e failed).2 rejection
  exact ⟨moment, List.mem_append_left older member, rejects⟩

variable {op : SyncOperation} {take : Entry F}

/-- The operation was settled, and nothing was taken after it. -/
def Settles (manager : SyncManager) (op : SyncOperation) (take : Entry F) (log : Log F) (s : Node F) : Prop :=
  Clean log s ∧ Since log (Settled manager op take) s

/-- An upload that could not be settled is in the queue again. -/
def Uploaded (manager : SyncManager) (path : String) (take : Entry F) (log : Log F) : Except SyncError Bool → Node F → Prop
  | .ok _, t => Settles manager (.upload path) take log t
  | .error _, t => Clean log t ∧ .upload path ∈ t.state.manager.outboundQueue

theorem requeue_safe {result : Except SyncError Bool} {e : SyncError} (failed : result = .error e) (clean : Clean log s) :
    flushes.Safe (Uploaded manager path take log) (do requeue path; return result) s := by
  subst failed
  refine way_next ?_
  rintro t reply u moves still ⟨turn, -, -, rfl⟩ -
  refine way_return ⟨clean.next moves (quiet_of_longer ?_) fun _ _ marked => marked, ?_⟩
  · simp [Snapshot.act]
  · simp [Snapshot.act]

/-- A second attempt without a condition, when leases are disabled. -/
theorem handleUploadConflict_safe (take : Entry F) (unskipped : ¬ Skipped path log) (clean : Clean log s)
    (rejected : Since log (fun extra => ∃ moment ∈ extra, Rejects path moment) s) :
    flushes.Safe (fun result t => Clean log t ∧ match result with
        | .ok _ => Since log (Settled manager (.upload path) take) t
        | .error e => e.isConflict = true → Since log (Settled manager (.upload path) take) t)
      (manager.handleUploadConflict path) s := by
  unfold handleUploadConflict
  split
  · refine ((moving_clean (uploadWithCond_moving manager path .none) unskipped clean).and
      (uploadWithCond_safe manager)).bind ?_
    rintro result t ⟨clean, uploaded⟩
    rcases result with e | etag
    · refine way_return ⟨clean, fun conflicted => ?_⟩
      obtain ⟨extra, -, -, failed⟩ := uploaded
      rw [(failed e rfl).1] at conflicted
      cases conflicted
    · exact way_return ⟨clean, rejected.trans uploaded fun old new _ evidence =>
        .inl ((evidence.1 etag rfl).mono (List.subset_append_left new old))⟩
  · next locks =>
    refine ((moving_clean (conflict_moving path) unskipped clean).and (anyhow_safe _ s)).bind ?_
    rintro e t ⟨clean, later⟩
    refine way_return ⟨clean, fun _ => rejected.trans later fun old new found _ => ?_⟩
    obtain ⟨moment, member, rejects⟩ := found
    exact .inr (.inl ⟨by simpa using locks, moment, List.mem_append_right _ member, rejects⟩)

theorem flushUpload_safe (take : Entry F) (batch : manager.config.mode ≠ .realTime) (guarded : Guarded s)
    (leases : take.before.manager.leases = s.state.manager.leases) :
    flushes.Safe (Uploaded manager path take s.log) (manager.flushUpload path) s := by
  simp only [flushUpload, batch, if_false, isLocked, withLeases_bind, Prog.call_bind]
  refine way_next ?_
  rintro t reply u moves still ⟨turn, -, answer, served⟩ -
  obtain rfl : t = s.state := still fun remote => by cases remote
  have clean : Clean s.log ⟨u, ⟨.leases id, reply, s.state, u⟩ :: s.log⟩ := by
    refine (Clean.here guarded).next moves (quiet_of_no_section fun _ same => (by cases same)) fun _ _ marked => ?_
    rw [served]
    exact marked
  obtain rfl : reply = s.state.manager.leases := answer
  simp only [Prog.pure_eq, Prog.done_bind]
  split
  · next held =>
    exact way_return ⟨clean, [_], rfl, .inr (.inr ⟨path, rfl, by rw [leases]; exact held⟩)⟩
  -- The path is not leased, so that no upload of it has been passed over.
  next free =>
  have unskipped : ¬ Skipped path s.log := by
    intro skipped
    obtain ⟨lease, held, -⟩ := guarded path skipped
    simp [held] at free
  refine (moving_clean (condForUpload_moving path) unskipped clean).bind fun cond v looked => ?_
  refine ((moving_clean (uploadWithCond_moving manager path cond) unskipped looked).and (uploadWithCond_safe manager)).bind ?_
  rintro result w ⟨clean, uploaded⟩
  have since : Since s.log (UploadEvidence path result) w :=
    looked.1.trans uploaded fun old new _ evidence => evidence.newer old
  rcases result with e | etag
  · dsimp only
    split
    -- The condition was rejected, which is a conflict.
    · next rejection =>
      refine (handleUploadConflict_safe take unskipped clean
        (since.mono fun extra evidence => (evidence.2 e rfl).2 rejection)).bind ?_
      rintro outcome x ⟨clean, settled⟩
      rcases outcome with e | _
      · dsimp only
        split
        · next conflicted => exact way_return ⟨clean, settled conflicted⟩
        · exact requeue_safe rfl clean
      · exact way_return ⟨clean, settled⟩
    · exact requeue_safe rfl clean
  · exact way_return ⟨clean, since.mono fun extra evidence => .inl (evidence.1 etag rfl)⟩

/-! ### Deletes -/

/-- A delete that was not refused took effect, or it is one that gets lost. -/
theorem delete_effective {cond : Precondition} {reply : Except S3Error Unit} {t u : Snapshot F} {turn : Turn}
    (faulty : Faulty turn) (answer : reply = (t.act turn (.request (.delete (fileKey path) cond))).1)
    (served : u = (t.act turn (.request (.delete (fileKey path) cond))).2)
    (fair : ¬ LosesDelete ⟨.request (.delete (fileKey path) cond), reply, t, u⟩)
    (unrefused : ∀ e, reply = .error e → cond ≠ .none → e.isPreconditionFailed = false ∧ e.isNotImplemented = false) :
    Deletes path ⟨.request (.delete (fileKey path) cond), reply, t, u⟩ := by
  refine ⟨⟨cond, rfl⟩, ?_⟩
  rcases reply with e | _
  · by_contra ineffective
    refine fair ⟨⟨e, rfl, ?_⟩, ineffective⟩
    obtain transport | ⟨conditional, refused⟩ := delete_failed faulty answer.symm
    · exact transport
    · obtain ⟨accepted, supported⟩ := unrefused e rfl conditional
      simp [accepted, supported] at refused
  · exact effective_of_ok answer served rfl

theorem plainDelete_safe {etag : Option String} (clean : Clean log s) :
    flushes.Safe (fun _ t => Settles manager (.delete path etag) take log t) (do let _ ← deleteFile path .none) s := by
  refine way_next ?_
  rintro t reply u moves - ⟨turn, faulty, answer, served⟩ fair
  have applied := delete_effective faulty answer served fair.delete fun _ _ conditional => absurd rfl conditional
  obtain ⟨extra, logged, -⟩ := clean.1
  exact way_return ⟨clean.request reply moves served, _ :: extra, congrArg (List.cons _) logged, .inl ⟨_, List.mem_cons_self .., applied⟩⟩

theorem flushDelete_safe {etag : Option String} (take : Entry F) (guarded : Guarded s) :
    flushes.Safe (fun _ t => Settles manager (.delete path etag) take s.log t) (manager.flushDelete path etag) s := by
  simp only [flushDelete, deleteFile_bind]
  refine way_next ?_
  rintro t reply u moves - ⟨turn, faulty, answer, served⟩ fair
  have clean := (Clean.here guarded).request reply moves served
  have effective := delete_effective faulty answer served fair.delete
  rcases (reply : Except S3Error Unit) with e | _
  · dsimp only
    split
    · next rejected =>
      split
      · next locks =>
        have unskipped : ¬ Skipped path s.log := fun skipped => fair.lease ⟨path, ⟨_, rfl⟩, ⟨rfl, e, rfl, rejected⟩, skipped⟩
        refine ((moving_clean (refreshLocalFromRemote_moving path) unskipped clean).and (anyhow_safe _ _)).bind ?_
        rintro flag v ⟨clean, extra, logged, -⟩
        refine way_return ⟨clean, extra ++ [_], by rw [logged, List.append_assoc]; rfl, ?_⟩
        exact .inr (.inl ⟨locks, _, List.mem_append_right _ (List.mem_singleton_self _), rfl, e, rfl, rejected⟩)
      · exact plainDelete_safe clean
    · next accepted =>
      split
      · exact plainDelete_safe clean
      · next supported =>
        refine way_return ⟨clean, [_], rfl, .inl ⟨_, List.mem_cons_self .., effective fun e' same _ => ?_⟩⟩
        cases same
        exact ⟨by simpa using accepted, by simpa using supported⟩
  · exact way_return ⟨clean, [_], rfl, .inl ⟨_, List.mem_cons_self .., effective fun e' same => (by cases same)⟩⟩

/-! ### The flush -/

/-- An operation that leaves leases and queue alone. -/
theorem aside_next {op : Op F} {k : op.Reply → Task F A} {post : A → Node F → Prop} (section' : ∀ change, op ≠ .queue change)
    (leases : ∀ turn t, (Snapshot.act turn op t).2.manager.leases = t.manager.leases) (clean : Clean log s)
    (rest : ∀ reply u, Clean log u → flushes.Safe post (k reply) u) : flushes.Safe post (next op k) s := by
  refine way_next fun t reply u moves _ served _ => rest reply _ (clean.next moves (quiet_of_no_section section') ?_)
  obtain ⟨turn, -, -, rfl⟩ := served
  rintro name - ⟨lease, held, mark⟩
  exact ⟨lease, by rw [leases]; exact held, mark⟩

omit [FsBackend F] in
theorem Handled.clean {middle : Node F} (handled : Handled manager middle.log) (clean : Clean middle.log s) :
    Handled manager s.log := by
  obtain ⟨⟨extra, logged, quiet⟩, -⟩ := clean
  rw [logged]
  exact handled.extend quiet

omit [FsBackend F] in
theorem Handled.settles (handled : Handled manager log) (taken : Takes op take) (settles : Settles manager op take (take :: log) s) :
    Handled manager s.log := by
  obtain ⟨extra, logged, quiet, settled⟩ := settles.1.1.and settles.2
  rw [logged]
  exact handled.close taken quiet settled

omit [FsBackend F] in
/-- A fair pop leaves an upload to a lease only if that knows of the change. -/
theorem guarded_pop {u : Snapshot F} (guarded : Guarded s) (fair : ¬ DropsUpload take)
    (keeps : ∀ path, Marked path take.before → Marked path u) (same : take.before = s.state) : Guarded ⟨u, take :: s.log⟩ := by
  rintro path ⟨moment, member, taken, leased⟩
  refine keeps path ?_
  rcases List.mem_cons.mp member with rfl | member
  · obtain ⟨lease, held⟩ := Option.isSome_iff_exists.mp leased
    refine ⟨lease, held, ?_⟩
    by_contra unmarked
    simp only [not_or, Bool.not_eq_true] at unmarked
    exact fair ⟨path, lease, taken, held, unmarked⟩
  · rw [same]
    exact guarded path ⟨moment, member, taken, leased⟩

theorem flushLoop_safe (batch : manager.config.mode ≠ .realTime) (rounds processed : Nat) (handled : Handled manager s.log)
    (guarded : Guarded s) : flushes.Safe (fun _ t => Accounts manager t) (manager.flushLoop rounds processed) s := by
  -- However the loop ends, it notes the time and returns.
  have finish {s : Node F} (processed : Nat) (handled : Handled manager s.log) (clean : Clean s.log s) :
      flushes.Safe (fun (_ : Except SyncError Nat) t => Accounts manager t) (do
        let now ← instant
        let _ ← withSchedule fun schedule => { schedule with lastFlush := now }
        return .ok processed) s := by
    refine aside_next (fun _ same => (by cases same)) (fun _ _ => rfl) clean fun now t clean => ?_
    refine aside_next (fun _ same => (by cases same)) (fun _ _ => rfl) clean fun _ u clean => ?_
    exact way_return ((handled.clean clean).accounts clean.2)
  -- The induction is on the rounds. Each takes one operation, and settles it or puts it back.
  induction rounds generalizing s processed with
  | zero => exact finish processed handled (.here guarded)
  | succ rounds ih =>
    simp only [flushLoop, withQueue_bind]
    refine way_next ?_
    rintro t queue u moves still ⟨turn, -, answer, served⟩ fair
    obtain rfl : t = s.state := still fun remote => by cases remote
    obtain rfl : queue = s.state.manager.outboundQueue := answer
    have leases : s.state.manager.leases = u.manager.leases := by rw [served]; rfl
    have tail : u.manager.outboundQueue = s.state.manager.outboundQueue.tail := by rw [served]; rfl
    have keeps (path : String) (marked : Marked path s.state) : Marked path u := by rw [served]; exact marked
    have popped : Guarded ⟨u, ⟨.queue List.tail, s.state.manager.outboundQueue, s.state, u⟩ :: s.log⟩ :=
      guarded_pop guarded fair.upload keeps rfl
    cases front : s.state.manager.outboundQueue with
    | nil =>
      rw [front] at popped tail
      have quiet : Quiet ⟨.queue List.tail, s.state.manager.outboundQueue, s.state, u⟩ := quiet_of_longer (by simp [front])
      have clean := (Clean.here guarded).next moves quiet fun path _ => keeps path
      rw [front] at clean
      exact finish processed (handled.clean clean) (.here popped)
    | cons op rest =>
      rw [front] at popped tail
      have taken : Takes op ⟨.queue List.tail, op :: rest, s.state, u⟩ := ⟨⟨_, rfl⟩, by rw [front, tail]; rfl⟩
      simp only [List.head?_cons]
      cases op with
      | upload path =>
        refine (flushUpload_safe ⟨.queue List.tail, .upload path :: rest, s.state, u⟩ batch popped leases).bind fun result t outcome => ?_
        rcases result with e | counted
        -- The upload failed, and is in the queue again.
        · obtain ⟨⟨⟨extra, logged, quiet⟩, guarded⟩, queued⟩ := outcome
          exact way_return (handled.requeued guarded taken quiet logged queued)
        · exact ih _ (handled.settles taken outcome) outcome.1.2
      | delete path etag =>
        refine (flushDelete_safe ⟨.queue List.tail, .delete path etag :: rest, s.state, u⟩ popped).bind fun _ t settled => ?_
        exact ih _ (handled.settles taken settled) settled.1.2

/-- In batch mode a flush that meets nothing unfair accounts for every operation it took. -/
theorem flush_loses_nothing {start : Snapshot F} {result : Except SyncError Nat} {last : Node F}
    (batch : manager.config.mode = .batch) (ran : flushes.Exec manager.flushOutbound ⟨start, []⟩ result last) :
    ∀ newer take older op, last.log = newer ++ take :: older → Takes op take → Accounted manager op newer last.state := by
  have batch : manager.config.mode ≠ .realTime := by simp [batch]
  refine (flushLoop_safe batch _ 0 ?_ ?_).exec ran
  · intro newer take older op same
    simp at same
  · rintro path ⟨moment, member, -⟩
    cases member

end

/-! ### Who keeps the marks -/

section
variable [EtagScheme] {F : Type} [FsBackend F]

/-- Operations that take no mark from a lease. -/
def Op.Marks (op : Op F) : Prop := ∀ turn s, marking.moves s (Snapshot.act turn op s).2

theorem alter_marks {path : String} {change : WriteLease → WriteLease}
    (keeps : ∀ lease, lease.dirty = true ∨ lease.pendingDelete = true → (change lease).dirty = true ∨ (change lease).pendingDelete = true) :
    Op.Marks (F := F) (.leases (·.alter path change)) := by
  rintro turn s name ⟨lease, held, mark⟩
  by_cases same : name = path
  · refine ⟨change lease, ?_, keeps lease mark⟩
    simp only [Snapshot.act]
    rw [Map.lookup_alter, if_pos same, ← same, held]
    rfl
  · refine ⟨lease, ?_, mark⟩
    simp only [Snapshot.act]
    rw [Map.lookup_alter, if_neg same]
    exact held

theorem enqueueUpload_marks (path : String) : (enqueueUpload (F := F) path).Only (I := syncSignature F) Op.Marks := by
  simp only [enqueueUpload, withLeases_bind, only_next]
  refine ⟨alter_marks fun _ _ => .inl rfl, fun leases => ?_⟩
  split
  · trivial
  · exact ⟨fun _ _ _ marked => marked, fun _ => trivial⟩

theorem enqueueDelete_marks (path : String) : (enqueueDelete (F := F) path).Only (I := syncSignature F) Op.Marks := by
  simp only [enqueueDelete, withLeases_bind, only_next]
  refine ⟨alter_marks fun _ _ => .inr rfl, fun leases => ?_⟩
  split
  · trivial
  · exact ⟨fun _ _ _ marked => marked, fun _ => ⟨fun _ _ _ marked => marked, fun _ => trivial⟩⟩

end

/-! ### Concrete runs -/

section
open scoped ContentEtags

def sampleManager : SyncManager := Sample.manager .batch Sample.first

/-- An object, another file that is local only, and what the instance has queued. -/
def sampleStart (queue : List SyncOperation) : Snapshot MemFs :=
  ⟨Sample.store [("files/a", [1])], 0, { ManagerState.new .empty 0 with outboundQueue := queue },
    (writeFileContent "/b" [2] MemFs.empty).2⟩

/-- Nothing happens but what the flush performs. -/
def undisturbed : Surroundings MemFs := ⟨Eq, fun _ => rfl, Eq.trans⟩

def under (fault : Fault) : List ((Snapshot MemFs → Snapshot MemFs) × Turn) := List.replicate 30 (id, { fault := fault })

theorem under_faulty {fault : Fault} (transport : fault.isTransport = true) :
    ∀ turn ∈ under fault, (∀ s, undisturbed.moves s (turn.1 s)) ∧ Faulty turn.2 := quiet_turns transport

/-- Nothing fails, and nothing is leased. -/
def calm : Entry MemFs → Bool
  | ⟨.request r, reply, _, _⟩ => (reply : r.Answer).isOk
  | ⟨.queue _, _, before, _⟩ => before.manager.leases.entries.isEmpty
  | _ => true

theorem calm_answer {r : Request} {reply : r.Answer} {e : S3Error} {t u : Snapshot MemFs}
    (quiet : calm ⟨.request r, reply, t, u⟩ = true) : reply ≠ .error e := by
  rintro rfl
  cases quiet

theorem fair_of_calm {older : Log MemFs} {moment : Entry MemFs} (quiet : calm moment = true)
    (before : ∀ moment ∈ older, calm moment = true) : Fair older moment := by
  have accepts (path : String) : ¬ Rejects path moment := by
    obtain ⟨op, reply, t, u⟩ := moment
    cases op with
    | request r =>
      cases r with
      | put | delete =>
        rintro ⟨-, e, failed, -⟩
        exact calm_answer quiet failed
      | list | head | get => exact id
    | queue | cache | leases | schedule | now | wake | jitter | fs | arrange | app => exact id
  constructor
  · obtain ⟨op, reply, t, u⟩ := moment
    cases op with
    | request r =>
      cases r with
      | delete =>
        rintro ⟨⟨e, failed, -⟩, -⟩
        exact calm_answer quiet failed
      | put | list | head | get => exact id
    | queue | cache | leases | schedule | now | wake | jitter | fs | arrange | app => exact id
  · obtain ⟨op, reply, t, u⟩ := moment
    rintro ⟨path, lease, ⟨⟨change, rfl⟩, -⟩, held, -⟩
    -- A calm section sees no leases.
    have empty : t.manager.leases.entries = [] := List.isEmpty_iff.mp quiet
    rw [AList.lookup, empty] at held
    cases held
  · rintro ⟨path, -, rejects, -⟩
    exact accepts path rejects
  · intro misleads
    cases older with
    | nil => exact misleads
    | cons first rest =>
      have quiet := before first (List.mem_cons_self ..)
      obtain ⟨op, reply, t, u⟩ := first
      unfold Misleads at misleads
      split at misleads
      · next same => 
        cases same
        obtain ⟨-, ⟨e, failed, -⟩, -⟩ := misleads
        exact calm_answer quiet failed
      · exact misleads

theorem throughout_fair {log : Log MemFs} (quiet : log.all calm = true) : Throughout Fair log := by
  induction log with
  | nil => trivial
  | cons moment older ih =>
    rw [List.all_cons, Bool.and_eq_true] at quiet
    exact ⟨fair_of_calm quiet.1 (List.all_eq_true.mp quiet.2), ih quiet.2⟩

theorem flush_loses_nothing_sample : ∃ last,
    flushes.Exec sampleManager.flushOutbound ⟨sampleStart [.delete "/a" none, .upload "/b"], []⟩ (.ok 2) last ∧
    ∀ newer take older op, last.log = newer ++ take :: older → Takes op take → Accounted sampleManager op newer last.state := by
  obtain ⟨value, last, ran, checked⟩ := solo_returned sampleManager.flushOutbound (sampleStart [.delete "/a" none, .upload "/b"])
    (fun value last => decide (value = .ok 2) && last.log.all calm) (under_faulty (show Fault.answered.isTransport = true from rfl))
    (by decide +kernel)
  rw [Bool.and_eq_true, decide_eq_true_eq] at checked
  obtain ⟨rfl, quiet⟩ := checked
  have fair := way_of_ran marking (fun _ _ same => Eq.symm same) ran (throughout_fair quiet)
  exact ⟨last, fair, flush_loses_nothing rfl fair⟩

/-- What shows that a delete was neither performed nor rejected. -/
def unsettled : Entry MemFs → Bool
  | ⟨.request (.delete key .none), reply, _, after⟩ => (after.store.objects.lookup key).isSome &&
      match (reply : Except S3Error Unit) with
      | .ok _ => true
      | .error e => !e.isPreconditionFailed
  | ⟨.request r, _, _, _⟩ => r.writes.isNone
  | _ => true

theorem unsettled_spec (path : String) {moment : Entry MemFs} (left : unsettled moment = true) :
    ¬ Deletes path moment ∧ ¬ Rejects path moment := by
  obtain ⟨op, reply, before, after⟩ := moment
  constructor
  · rintro ⟨⟨cond, same⟩, effective⟩
    cases same
    cases cond with
    | none =>
      obtain ⟨-, gone⟩ := effective
      have removed : after.store.objects.lookup (fileKey path) = none := by
        replace gone : after.store = (before.store.delete (fileKey path) .none).2 := gone
        rw [gone]
        simp [ObjectStore.delete, ObjectStore.checkCond]
      simp [unsettled, removed] at left
    | ifNoneMatchAny | ifMatch => cases left
  · cases op with
    | request r =>
      cases r with
      | put => cases left
      | delete key cond =>
        rintro ⟨-, e, rfl, rejected⟩
        cases cond with
        | none => simp [unsettled, rejected] at left
        | ifNoneMatchAny | ifMatch => cases left
      | list | head | get => exact id
    | queue | cache | leases | schedule | now | wake | jitter | fs | arrange | app => exact id

/-- The first operation of a run takes this delete from the queue. -/
def takesDelete (path : String) : Entry MemFs → Bool
  | ⟨.queue _, _, before, after⟩ =>
      decide (before.manager.outboundQueue = .delete path none :: after.manager.outboundQueue)
  | _ => false

theorem takesDelete_spec {path : String} {moment : Entry MemFs} (takes : takesDelete path moment = true) :
    Takes (.delete path none) moment := by
  obtain ⟨op, reply, before, after⟩ := moment
  cases op with
  | queue change => exact ⟨⟨change, rfl⟩, of_decide_eq_true takes⟩
  | request | cache | leases | schedule | now | wake | jitter | fs | arrange | app => cases takes

/-- The DELETE of a flush times out, and nothing knows of it any more. -/
theorem delete_forgotten : ∃ last,
    (givingWay (fun _ _ => True) Faulty marking).Exec sampleManager.flushOutbound ⟨sampleStart [.delete "/a" none], []⟩ (.ok 1) last ∧
    ¬ ∀ newer take older op, last.log = newer ++ take :: older → Takes op take → Accounted sampleManager op newer last.state := by
  obtain ⟨value, last, ran, checked⟩ := solo_returned sampleManager.flushOutbound (sampleStart [.delete "/a" none])
    (fun value last => decide (value = .ok 1) && last.log.getLast?.any (takesDelete "/a") && last.log.all unsettled &&
      (last.state.manager.leases.lookup "/a").isNone && last.state.manager.outboundQueue.isEmpty)
    (under_faulty (show (Fault.unsent (.write "files/a" "timeout")).isTransport = true from rfl)) (by decide +kernel)
  simp only [Bool.and_eq_true, decide_eq_true_eq, Option.isNone_iff_eq_none, List.isEmpty_iff] at checked
  obtain ⟨⟨⟨⟨rfl, takes⟩, left⟩, unleased⟩, unqueued⟩ := checked
  refine ⟨last, way_of_ran marking (fun _ _ same => Eq.symm same) ran (throughout_of_forall fun _ _ => trivial), fun all => ?_⟩
  obtain ⟨take, first, takes⟩ := (Option.any_eq_true _ _).mp takes
  obtain ⟨newer, logged⟩ := List.getLast?_eq_some_iff.mp first
  have settled (moment : Entry MemFs) (member : moment ∈ newer) := unsettled_spec "/a"
    (List.all_eq_true.mp left moment (by rw [logged]; exact List.mem_append_left _ member))
  obtain ⟨moment, member, deletes⟩ | ⟨-, moment, member, rejects⟩ | ⟨lease, held, -⟩ | ⟨op, queued, -⟩ :=
    all newer take [] _ logged (takesDelete_spec takes)
  · exact (settled moment member).1 deletes
  · exact (settled moment member).2 rejects
  · rw [show SyncOperation.path (.delete "/a" none) = "/a" from rfl, unleased] at held
    cases held
  · rw [unqueued] at queued
    cases queued

end

end MonakaFs.Sync.Outbound
