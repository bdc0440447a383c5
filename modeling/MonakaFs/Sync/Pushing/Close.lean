import MonakaFs.Sync.Pushing.Writes
import MonakaFs.Sync.Upload.Recreate

/-! The close after the writes.

When all threads are done the last close pushes what is marked. Without a rejection
the object has the local content then.
-/

set_option autoImplicit false

namespace MonakaFs.Sync.Pushing

open Async SyncManager LawfulBackend

section
variable [EtagScheme] {F : Type} [LawfulBackend F] {path : String} {s : Node F} {data : Bytes}

/-- Everybody else leaves the file, its object and its lease alone. -/
def undisturbed (path : String) : Surroundings F := ⟨Still path, .refl, .trans⟩

abbrev closing (path : String) : Contract (syncSignature F) (Node F) := runs Truthful (undisturbed path)

/-- An operation that changes neither the file nor its object. -/
def Spares (op : Op F) : Prop := op.Aside ∨ ∃ change, op = .leases change

theorem spares_step (path : String) {op : Op F} (spares : Spares op) (turn : Turn) (t : Snapshot F) :
    object path (t.act turn op).2 = object path t ∧ content (t.act turn op).2.fs path = content t.fs path := by
  rcases spares with aside | ⟨change, rfl⟩
  · exact ⟨(aside_still aside turn t).object, (aside_still aside turn t).bytes⟩
  · exact ⟨rfl, rfl⟩

theorem keeps_agree (so : Prop) : (closing (F := F) path).Keeps (fun t => so → Agree path t.state) Spares where
  stable agree moves holds := moves.2.agree.mpr (agree holds)
  waits _ := trivial
  step spares agree effect := by
    obtain ⟨⟨turn, -, -, later⟩, -⟩ := node_effect effect
    obtain ⟨stored, bytes⟩ := spares_step path spares turn _
    refine ⟨trivial, fun holds => ?_⟩
    unfold Agree
    rw [later, stored, bytes]
    exact agree holds

/-- The bytes of the file and of its object, in a run that changes neither. -/
def Has (path : String) (here there : Option Bytes) (t : Node F) : Prop :=
  content t.state.fs path = here ∧ (object path t.state).map (·.data) = there

variable {here there : Option Bytes}

theorem keeps_has : (closing (F := F) path).Keeps (Has path here there) Spares where
  stable has moves := ⟨moves.2.bytes.trans has.1, by rw [moves.2.object]; exact has.2⟩
  waits _ := trivial
  step spares has effect := by
    obtain ⟨⟨turn, -, -, later⟩, -⟩ := node_effect effect
    obtain ⟨stored, bytes⟩ := spares_step path spares turn _
    refine ⟨trivial, ?_, ?_⟩
    · rw [later]
      exact bytes.trans has.1
    · rw [later, stored]
      exact has.2

theorem has_next {A : Type} {post : A → Node F → Prop} {op : Op F} {k : op.Reply → Task F A} (spares : Spares op)
    (has : Has path here there s)
    (rest : ∀ t reply u, (∃ turn, Truthful turn ∧ reply = (Snapshot.act turn op t).1) → Still path s.state t →
      Has path here there u → (closing path).Safe post (k reply) u) :
    (closing path).Safe post (next op k) s := by
  refine Contract.safe_call fun t moves => ⟨trivial, fun reply u effect => ⟨trivial, ?_⟩⟩
  obtain ⟨⟨turn, truthful, answer, -⟩, -⟩ := node_effect effect
  exact rest t.state reply u ⟨turn, truthful, answer⟩ moves.2 (keeps_has.step spares (keeps_has.stable has moves) effect).2

/-- What a PUT that was accepted leaves. -/
def Pushed {E B : Type} (path : String) (data : Bytes) (result : Except E B) (t : Node F) : Prop :=
  ∀ value, result = .ok value → Has path (some data) (some data) t

theorem putFile_pushed (cond : Precondition) (has : Has path (some data) there s) :
    (closing path).Safe (fun result t => Pushed path data result t ∧ ∀ e, result = .error e →
      Has path (some data) there t ∧ (e.isPreconditionFailed = true ∨ (e.isNotFound = true ∧ cond.isIfMatch = true)))
      (putFile (F := F) path data cond) s := by
  refine safe_next fun t reply u moves ⟨turn, truthful, answer, served⟩ => safe_return fun v moves' => ?_
  have bytes : content v.fs path = some data := by
    rw [moves'.bytes, served, act_request truthful]
    exact moves.bytes.trans has.1
  rcases Upload.put_truthful truthful answer served with ⟨rfl, -, stored⟩ | ⟨e, rfl, kept, why⟩
  · refine ⟨fun _ _ => ⟨bytes, ?_⟩, nofun⟩
    show (object path v).map _ = _
    rw [moves'.object, stored]
    rfl
  · refine ⟨nofun, fun e' same => ?_⟩
    cases same
    refine ⟨⟨bytes, ?_⟩, ?_⟩
    · show (object path v).map _ = _
      rw [moves'.object, object, kept]
      exact (congrArg _ moves.object).trans has.2
    · rcases why with refused | ⟨missing, -, expected, rfl⟩
      · exact .inl refused
      · exact .inr ⟨missing, rfl⟩

theorem putUpload_pushed (cond : Precondition) (has : Has path (some data) there s) :
    (closing path).Safe (Pushed path data) (putUpload (F := F) path data cond) s := by
  refine (putFile_pushed cond has).bind ?_
  rintro result t ⟨pushed, failed⟩
  rcases result with e | etag
  · obtain ⟨has, why⟩ := failed e rfl
    have retry (v : Node F) (has : Has path (some data) there v) :
        (closing path).Safe (Pushed path data) (putFile (F := F) path data .ifNoneMatchAny) v :=
      (putFile_pushed _ has).weaken fun _ _ ended => ended.1
    dsimp only
    split
    · exact retry t has
    next based =>
    split
    · simp only [headFile_bind]
      refine has_next (.inl trivial) has fun v found w _ _ has => ?_
      rcases (found : Except S3Error (Option ObjectMeta)) with failed | _ | info
      · exact safe_return fun _ _ _ same => by cases same
      · exact retry _ has
      · exact safe_return fun _ _ _ same => by cases same
    next created =>
    split
    · next refused =>
      rcases why with rejected | ⟨missing, based'⟩
      · simp [rejected] at refused
      · simp [missing, based'] at based
    · exact safe_return fun _ _ _ same => by cases same
  · exact fun u moves value same => keeps_has.stable (pushed etag rfl) moves

omit [EtagScheme] [LawfulBackend F] in
theorem recordUpload_spares (path etag : String) (size modified : Nat) :
    (recordUpload (F := F) path etag size modified).Only (I := syncSignature F) Spares :=
  ⟨.inl trivial, fun _ => ⟨.inl trivial, fun _ => ⟨.inr ⟨_, rfl⟩, fun _ => trivial⟩⟩⟩

variable (manager : SyncManager)

theorem uploadWithCond_pushed (cond : Precondition) :
    (closing path).Safe (fun result t => ∀ etag, result = .ok etag → Agree path t.state)
      (manager.uploadWithCond (F := F) path cond) s := by
  simp only [uploadWithCond, onFs_bind]
  refine safe_next ?_
  rintro t reply u _ ⟨turn, truthful, answer, served⟩
  rcases (reply : Except S3Error Bytes) with e | data
  · exact safe_return fun _ _ _ same => by cases same
  have has : Has path (some data) ((object path u).map (·.data))
      (⟨u, ⟨.fs (.readFileContent path), .ok data, t, u⟩ :: s.log⟩ : Node F) := by
    refine ⟨?_, rfl⟩
    rw [served]
    exact (congrFun (read_keeps path t.fs) path).trans (read_ok answer.symm)
  refine has_next (.inl trivial) has fun _ modified v _ _ has => ?_
  refine (keeps_has.safe ((passthroughChecks_looks manager path).mono fun op looks => .inl (looks_aside op looks)) has).bind
    fun passed w has => ?_
  rcases passed with e | _
  · exact fun _ _ _ same => by cases same
  refine (putUpload_pushed cond has).bind fun result x pushed => ?_
  rcases result with e | etag
  · exact fun _ _ _ same => by cases same
  refine (keeps_has.safe (recordUpload_spares ..) (pushed etag rfl)).bind fun _ y has => ?_
  intro z moves etag' _
  have has := keeps_has.stable has moves
  exact has.2.trans has.1.symm

omit [EtagScheme] [LawfulBackend F] in
theorem release_spares (path lockEtag : String) : (release (F := F) path lockEtag).Only (I := syncSignature F) Spares :=
  (release_silent path lockEtag).mono fun op quiet => .inl (quiet_aside op quiet)

theorem flushLease_pushed {lease : WriteLease} (kept : lease.pendingDelete = false)
    (clean : lease.dirty = false → Agree path s.state) :
    (closing path).Safe (fun result t => result = .ok () → Agree path t.state)
      (manager.flushLease (F := F) path lease) s := by
  unfold flushLease
  rw [if_neg (by simp [kept])]
  split
  · next unmarked => exact fun t moves _ => moves.2.agree.mpr (clean unmarked)
  · refine (uploadWithCond_pushed manager _).bind fun result t pushed => ?_
    rcases result with e | etag
    · dsimp only
      split
      · exact (runs_anyhow _ t).bind fun _ _ _ => fun _ _ => nofun
      · exact fun _ _ => nofun
    · exact fun u moves _ => moves.2.agree.mpr (pushed etag rfl)

theorem onClose_pushed {lease : WriteLease} (found : s.state.manager.leases.lookup path = some lease)
    (only : lease.refcount ≤ 1) (kept : lease.pendingDelete = false) (clean : lease.dirty = false → Agree path s.state) :
    (closing path).Safe (fun result t => result = .ok () → Agree path t.state) (manager.onClose (F := F) path) s := by
  simp only [onClose, withLeases_bind]
  refine safe_next ?_
  rintro t leases u moves ⟨turn, truthful, answer, served⟩
  have same : leases.lookup path = some lease := by rw [answer]; exact moves.lease.trans found
  have agree : Agree path u ↔ Agree path s.state := by
    rw [← moves.agree, served]
    rfl
  rw [same]
  simp only [gt_iff_lt, Nat.not_lt.mpr only, if_false]
  refine (flushLease_pushed (s := ⟨u, _⟩) manager kept fun unmarked => agree.mpr (clean unmarked)).bind fun result v pushed => ?_
  refine ((keeps_agree _).safe (release_spares path lease.lockEtag) pushed).bind fun _ w pushed => ?_
  simp only [withLeases_bind]
  refine Contract.safe_call fun x moves => ⟨trivial, fun _ y effect => ⟨trivial, fun z moves' => ?_⟩⟩
  have pushed := ((keeps_agree _).step (.inr ⟨_, rfl⟩) ((keeps_agree _).stable pushed moves) effect).2
  exact (keeps_agree _).stable pushed moves'

end

/-- Writes around pushes, and the last close: while no write lands between the read of a
push and its taking back the mark, and no PUT is rejected, a close that succeeds leaves
the object with the local content. -/
theorem push_loses_no_write [EtagScheme] {T F : Type} [DecidableEq T] [LawfulBackend F] {path : String} {manager : SyncManager}
    {first last : DeskConfig T F} (opened : Opened path first)
    (reached : tasks.Reachable ((deskRules path manager).restrict (Unhindered path)) first last)
    (quiet : ∀ member, last.prog member = .done ()) {lease : WriteLease}
    (found : last.shared.state.manager.leases.lookup path = some lease) (only : lease.refcount ≤ 1) {final : Node F}
    (closed : Ran Truthful (undisturbed path) (manager.onClose path) last.shared.state (.ok ()) final) :
    Agree path final.state := by
  obtain ⟨kept, clean⟩ := settled manager opened reached quiet found
  exact (onClose_pushed manager (s := ⟨last.shared.state, []⟩) found only kept clean).exec closed rfl

/-! ### Concrete runs -/

section
open scoped ContentEtags

def sampleManager : SyncManager := Sample.manager .batch Sample.first

/-- The file is open for write, and as it is in the store. -/
def openedFile : Snapshot MemFs :=
  ((Sample.after (fun _ : Unit => sampleManager) [("files/a", [1])]
    [((), .flushOutbound), ((), .openWrite 1 "/a")]).shared.view ()).state

def resting : DeskConfig Bool MemFs := ⟨⟨openedFile, fun _ => .out⟩, fun _ => .done ()⟩

abbrev DeskMove : Type := Team.Move Bool (Desk Bool MemFs) (Desk Bool MemFs) Turn (syncSignature MemFs) Unit

/-- A thread writes the file, or performs an fsync, as far as the count says. -/
def writing (member : Bool) (data : Bytes) (count : Nat) : List DeskMove :=
  .start member (fun _ s => ((Call.write "/a" (MemFs.writeLocal "/a" data)).task sampleManager, s)) ::
    List.replicate count (.operate member {})

def syncing (member : Bool) (count : Nat) : List DeskMove :=
  .start member (fun _ s => ((Call.fsync "/a").task sampleManager, s)) :: List.replicate count (.operate member {})

theorem writing_allowed {member : Bool} {data : Bytes} {count : Nat} :
    ∀ next ∈ writing member data count, Team.Allowed (deskRules "/a" sampleManager) (deskMachine "/a") next := by
  intro next listed
  rcases List.mem_cons.mp listed with rfl | listed
  · exact fun _ _ => ⟨rfl, .inl ⟨_, rfl⟩⟩
  · rw [List.eq_of_mem_replicate listed]
    exact fun _ _ => ⟨{}, rfl, rfl⟩

theorem syncing_allowed {member : Bool} {count : Nat} :
    ∀ next ∈ syncing member count, Team.Allowed (deskRules "/a" sampleManager) (deskMachine "/a") next := by
  intro next listed
  rcases List.mem_cons.mp listed with rfl | listed
  · exact fun _ _ => ⟨rfl, .inr rfl⟩
  · rw [List.eq_of_mem_replicate listed]
    exact fun _ _ => ⟨{}, rfl, rfl⟩

def isPushing : Stage → Bool
  | .pushing _ => true
  | _ => false

def unhindered (_ : Bool) (op : Op MemFs) (s : Desk Bool MemFs) : Bool :=
  match op with
  | .app _ => !isPushing (s.stages false) && !isPushing (s.stages true)
  | .request (.put key _ cond) => decide (key ≠ "files/a") || (s.state.store.put key [] cond).1.isOk
  | _ => true

theorem unhindered_spec (member : Bool) (op : Op MemFs) (s : Desk Bool MemFs) (met : unhindered member op s = true) :
    Unhindered "/a" member op s := by
  cases op with
  | app change =>
    simp only [unhindered, Bool.and_eq_true, Bool.not_eq_true'] at met
    intro other read pushing
    cases other
    · simp [pushing, isPushing] at met
    · simp [pushing, isPushing] at met
  | request r =>
    cases r with
    | put key body cond =>
      rintro rfl
      rcases s.state.store.put_cases (fileKey "/a") [] cond with ⟨passes, -⟩ | ⟨-, e, failed⟩
      · exact passes
      · rw [show fileKey "/a" = "files/a" by decide] at failed met
        simp [unhindered, failed, Except.isOk, Except.toBool] at met
    | list | head | get | delete => trivial
  | queue | cache | leases | schedule | now | wake | jitter | fs | arrange => trivial

theorem resting_opened : Opened "/a" resting := by
  refine ⟨fun _ => ⟨rfl, rfl⟩, ?_⟩
  obtain ⟨lease, found⟩ := Option.isSome_iff_exists.mp
    (show (openedFile.manager.leases.lookup "/a").isSome = true by decide +kernel)
  have whole : ((openedFile.manager.leases.lookup "/a").all fun lease => !lease.pendingDelete) = true := by decide +kernel
  rw [found] at whole
  refine ⟨lease, found, by simpa using whole, fun _ => ?_⟩
  show (object "/a" openedFile).map (·.data) = openedFile.fs.files.lookup "/a"
  decide +kernel

def after (moves : List DeskMove) : DeskConfig Bool MemFs := tasks.follow (deskMachine "/a") moves resting

theorem plainly_undisturbed (count : Nat) : ∀ turn ∈ List.replicate count (plainly (F := MemFs)),
    (∀ s, (undisturbed "/a").moves s (turn.1 s)) ∧ Truthful turn.2 := quiet_turns rfl

def finished (config : DeskConfig Bool MemFs) : Bool :=
  Side.isIdle (config.prog false) && Side.isIdle (config.prog true)

theorem finished_quiet {config : DeskConfig Bool MemFs} (done : finished config = true) (member : Bool) :
    config.prog member = .done () := by
  obtain ⟨first, second⟩ := (Bool.and_eq_true _ _).mp done
  cases member
  · exact (Side.isIdle_done first).choose_spec
  · exact (Side.isIdle_done second).choose_spec

/-- A write, an fsync by another thread, and a write after it. -/
def inTurn : List DeskMove := writing false [2] 2 ++ syncing true 12 ++ writing false [3] 2

theorem inTurn_allowed : ∀ next ∈ inTurn, Team.Allowed (deskRules "/a" sampleManager) (deskMachine "/a") next := by
  intro next listed
  simp only [inTurn, List.mem_append, or_assoc] at listed
  rcases listed with listed | listed | listed
  · exact writing_allowed next listed
  · exact syncing_allowed next listed
  · exact writing_allowed next listed

theorem inTurn_entry : ∃ lease, (after inTurn).shared.state.manager.leases.lookup "/a" = some lease ∧ lease.refcount ≤ 1 := by
  have entry : ((after inTurn).shared.state.manager.leases.lookup "/a").any (fun lease => decide (lease.refcount ≤ 1)) = true := by
    decide +kernel
  obtain ⟨lease, found, only⟩ := (Option.any_eq_true _ _).mp entry
  exact ⟨lease, found, of_decide_eq_true only⟩

theorem inTurn_reached :
    tasks.Reachable ((deskRules "/a" sampleManager).restrict (Unhindered "/a")) resting (after inTurn) :=
  Team.follow_restricted unhindered_spec _ _ inTurn_allowed (by decide +kernel)

theorem inTurn_finished : finished (after inTurn) = true := by decide +kernel

theorem push_loses_no_write_sample : ∃ final,
    Ran Truthful (undisturbed "/a") (sampleManager.onClose "/a") (after inTurn).shared.state (.ok ()) final ∧
      Agree "/a" final.state := by
  obtain ⟨value, final, ran, checked⟩ := solo_returned (sampleManager.onClose "/a") (after inTurn).shared.state
    (fun value _ => decide (value = .ok ())) (plainly_undisturbed 16) (by decide +kernel)
  cases of_decide_eq_true checked
  obtain ⟨lease, found, only⟩ := inTurn_entry
  exact ⟨final, ran, push_loses_no_write resting_opened inTurn_reached (finished_quiet inTurn_finished) found only ran⟩

/-- The second write lands, and is marked, while the fsync waits for its PUT. -/
def overtaken : List DeskMove := writing false [2] 2 ++ syncing true 2 ++ writing false [3] 2 ++ syncing true 12

theorem push_loses_write : Opened "/a" resting ∧
    tasks.Reachable (deskRules "/a" sampleManager) resting (after overtaken) ∧
    (∀ member, (after overtaken).prog member = .done ()) ∧
    ∃ final, Ran Truthful (undisturbed "/a") (sampleManager.onClose "/a") (after overtaken).shared.state (.ok ()) final ∧
      ¬ Agree "/a" final.state := by
  refine ⟨resting_opened, Team.follow_reachable _ _ fun next listed => ?_, finished_quiet (by decide +kernel), ?_⟩
  · simp only [overtaken, List.mem_append, or_assoc] at listed
    rcases listed with listed | listed | listed | listed
    · exact writing_allowed next listed
    · exact syncing_allowed next listed
    · exact writing_allowed next listed
    · exact syncing_allowed next listed
  · obtain ⟨value, final, ran, checked⟩ := solo_returned (sampleManager.onClose "/a") (after overtaken).shared.state
      (fun value final => decide (value = .ok ()) &&
        !decide ((object "/a" final.state).map (·.data) = final.state.fs.files.lookup "/a"))
      (plainly_undisturbed 16) (by decide +kernel)
    rw [Bool.and_eq_true, decide_eq_true_eq, Bool.not_eq_true', decide_eq_false_iff_not] at checked
    obtain ⟨rfl, differ⟩ := checked
    exact ⟨final, ran, differ⟩

end
end MonakaFs.Sync.Pushing
