import MonakaFs.Sync.DataPath

/-! Complete runs of one call.

The call starts with an empty log. Between two of its operations the surroundings
may do what they like with the store, the clock and the instance, as far as their
moves allow. Requests may fail in transit, with or without effect.
-/

set_option autoImplicit false

namespace MonakaFs.Sync

open Async

/-- Requests are answered truly, or report a transport error. -/
def Faulty (turn : Turn) : Prop := turn.fault.isTransport = true

/-- The object of a file. -/
def object [EtagScheme] {F : Type} (path : String) (s : Snapshot F) : Option MemObject :=
  s.store.objects.lookup (fileKey path)

structure Surroundings [EtagScheme] (F : Type) where
  moves : Snapshot F → Snapshot F → Prop
  refl : ∀ s, moves s s
  trans : ∀ {s t u}, moves s t → moves t u → moves s u

/-- Surroundings that may change anything. -/
def anything [EtagScheme] {F : Type} : Surroundings F := ⟨fun _ _ => True, fun _ => trivial, fun _ _ => trivial⟩

/-- The instance waits: the store and the clock move, its own two states do not. -/
def bystanders [EtagScheme] {F : Type} : Surroundings F where
  moves s t := t.manager = s.manager ∧ t.fs = s.fs
  refl _ := ⟨rfl, rfl⟩
  trans first second := ⟨second.1.trans first.1, second.2.trans first.2⟩

section
variable [EtagScheme] {F A : Type} [FsBackend F]

def runs (admits : Turn → Prop) (around : Surroundings F) : Contract (syncSignature F) (Node F) where
  effect := (instanceMachine F admits).traced.effect
  rely s t := t.log = s.log ∧ around.moves s.state t.state
  rely_refl s := ⟨rfl, around.refl s.state⟩
  rely_trans first second := ⟨second.1.trans first.1, around.trans first.2 second.2⟩
  guarantee _ _ _ _ := True

/-- A run from the first operation to the value. The last state carries what was performed. -/
def Ran (admits : Turn → Prop) (around : Surroundings F) (task : Task F A) (start : Snapshot F) (value : A)
    (last : Node F) : Prop :=
  (runs admits around).Exec task ⟨start, []⟩ value last

variable {admits : Turn → Prop} {around : Surroundings F} {post : A → Node F → Prop} {s : Node F}

theorem safe_next {op : Op F} {k : op.Reply → Task F A}
    (rest : ∀ t reply u, around.moves s.state t → (∃ turn, admits turn ∧ reply = (t.act turn op).1 ∧ u = (t.act turn op).2) →
      (runs admits around).Safe post (k reply) ⟨u, ⟨op, reply, t, u⟩ :: s.log⟩) :
    (runs admits around).Safe post (next op k) s := by
  refine Contract.safe_call fun t moves => ⟨trivial, fun reply u effect => ⟨trivial, ?_⟩⟩
  obtain ⟨served, logged⟩ := node_effect effect
  rw [moves.1] at logged
  have same : u = ⟨u.state, ⟨op, reply, t.state, u.state⟩ :: s.log⟩ := by rw [← logged]
  rw [same]
  exact rest t.state reply u.state moves.2 served

theorem safe_return {value : A} (holds : ∀ t, around.moves s.state t → post value ⟨t, s.log⟩) :
    (runs admits around).Safe post (.done value) s :=
  Contract.safe_done fun t moves => by
    have same : t = ⟨t.state, s.log⟩ := by rw [← moves.1]
    rw [same]
    exact holds t.state moves.2

/-- Nothing is asked of the run itself. -/
theorem runs_anyhow (task : Task F A) (s : Node F) : (runs admits around).Safe (fun _ _ => True) task s := by
  induction task generalizing s with
  | done value => exact fun _ _ => trivial
  | halt => exact fun _ _ => trivial
  | call op next ih => exact fun _ _ => ⟨trivial, fun reply u _ => ⟨trivial, ih reply u⟩⟩

/-- An operation with an answer the surroundings may give. -/
def Answered (admits : Turn → Prop) (moment : Entry F) : Prop :=
  ∃ turn, admits turn ∧ moment.reply = (moment.before.act turn moment.op).1 ∧
    moment.after = (moment.before.act turn moment.op).2

/-- What a program performs is on top of what was performed before. -/
def Performed (admits : Turn → Prop) (allowed : Op F → Prop) (before : Log F) (s : Node F) : Prop :=
  ∃ newer, s.log = newer ++ before ∧ ∀ moment ∈ newer, allowed moment.op ∧ Answered admits moment

theorem performed_nothing {allowed : Op F → Prop} (s : Node F) : Performed admits allowed s.log s :=
  ⟨[], rfl, fun _ member => by cases member⟩

theorem performed_safe {allowed : Op F → Prop} {task : Task F A} (only : task.Only (I := syncSignature F) allowed)
    {before : Log F} (so : Performed admits allowed before s) :
    (runs admits around).Safe (fun _ t => Performed admits allowed before t) task s := by
  have keeps : (runs admits around).Keeps (Performed (F := F) admits allowed before) allowed := by
    refine ⟨fun so moves => ?_, fun _ => trivial, fun permitted so effect => ⟨trivial, ?_⟩⟩
    · obtain ⟨newer, logged, each⟩ := so
      exact ⟨newer, moves.1.trans logged, each⟩
    · obtain ⟨newer, logged, each⟩ := so
      obtain ⟨served, log⟩ := node_effect effect
      refine ⟨_ :: newer, by rw [log, logged]; rfl, fun moment member => ?_⟩
      rcases List.mem_cons.mp member with rfl | old
      · exact ⟨permitted, served⟩
      · exact each moment old
  exact keeps.safe only so

end

/-! ### Runs under a condition on their steps -/

section
variable [EtagScheme] {F A : Type} [FsBackend F]

/-- Every operation meets a condition on it and on what was performed before. -/
def Throughout (fine : Log F → Entry F → Prop) : Log F → Prop
  | [] => True
  | moment :: older => fine older moment ∧ Throughout fine older

omit [FsBackend F] in
theorem throughout_of_forall {fine : Entry F → Prop} {log : Log F} (each : ∀ moment ∈ log, fine moment) :
    Throughout (fun _ => fine) log := by
  induction log with
  | nil => trivial
  | cons moment older ih =>
    exact ⟨each moment (List.mem_cons_self ..), ih fun later member => each later (List.mem_cons_of_mem _ member)⟩

omit [FsBackend F] in
theorem Throughout.older {fine : Log F → Entry F → Prop} {newer older : Log F} (all : Throughout fine (newer ++ older)) :
    Throughout fine older := by
  induction newer with
  | nil => exact all
  | cons moment newer ih => exact ih all.2

/-- Runs every operation of which meets a condition. -/
def during (fine : Log F → Entry F → Prop) (admits : Turn → Prop) (around : Surroundings F) :
    Contract (syncSignature F) (Node F) where
  effect op s reply u := (instanceMachine F admits).traced.effect op s reply u ∧ fine s.log ⟨op, reply, s.state, u.state⟩
  rely s t := t.log = s.log ∧ around.moves s.state t.state
  rely_refl s := ⟨rfl, around.refl s.state⟩
  rely_trans first second := ⟨second.1.trans first.1, around.trans first.2 second.2⟩
  guarantee _ _ _ _ := True

variable {fine : Log F → Entry F → Prop} {admits : Turn → Prop} {around : Surroundings F} {post : A → Node F → Prop}
  {s t : Node F} {task : Task F A} {value : A}

/-- What was performed stays on record. -/
theorem exec_log (run : (runs admits around).Exec task s value t) : ∃ newer, t.log = newer ++ s.log := by
  induction run with
  | done moves => exact ⟨[], moves.1⟩
  | call moves effect _ ih =>
    obtain ⟨newer, logged⟩ := ih
    rw [(node_effect effect).2, moves.1] at logged
    exact ⟨_, by rw [logged, List.append_cons]⟩

/-- Surroundings that may do more have the same runs. -/
theorem exec_mono {narrow wide : Surroundings F} (within : ∀ s t, narrow.moves s t → wide.moves s t)
    (run : (runs admits narrow).Exec task s value t) : (runs admits wide).Exec task s value t := by
  induction run with
  | done moves => exact .done ⟨moves.1, within _ _ moves.2⟩
  | call moves effect _ ih => exact .call ⟨moves.1, within _ _ moves.2⟩ effect ih

/-- A run in whose record every operation is fine. -/
theorem exec_during (run : (runs admits around).Exec task s value t) (all : Throughout fine t.log) :
    (during fine admits around).Exec task s value t := by
  induction run with
  | done moves => exact .done moves
  | call moves effect rest ih =>
    refine .call moves ⟨effect, ?_⟩ (ih all)
    obtain ⟨newer, logged⟩ := exec_log rest
    rw [logged, (node_effect effect).2] at all
    exact all.older.1

theorem Ran.during {start : Snapshot F} {last : Node F} (ran : Ran admits around task start value last)
    (all : Throughout fine last.log) : (during fine admits around).Exec task ⟨start, []⟩ value last :=
  exec_during ran all

theorem during_next {op : Op F} {k : op.Reply → Task F A}
    (rest : ∀ t reply u, around.moves s.state t → (∃ turn, admits turn ∧ reply = (t.act turn op).1 ∧ u = (t.act turn op).2) →
      fine s.log ⟨op, reply, t, u⟩ → (Sync.during fine admits around).Safe post (k reply) ⟨u, ⟨op, reply, t, u⟩ :: s.log⟩) :
    (Sync.during fine admits around).Safe post (next op k) s := by
  refine Contract.safe_call fun t moves => ⟨trivial, fun reply u ⟨effect, fine⟩ => ⟨trivial, ?_⟩⟩
  obtain ⟨served, logged⟩ := node_effect effect
  rw [moves.1] at logged fine
  have same : u = ⟨u.state, ⟨op, reply, t.state, u.state⟩ :: s.log⟩ := by rw [← logged]
  rw [same]
  exact rest t.state reply u.state moves.2 served fine

theorem during_return {value : A} (holds : ∀ t, around.moves s.state t → post value ⟨t, s.log⟩) :
    (Sync.during fine admits around).Safe post (.done value) s :=
  Contract.safe_done fun t moves => by
    have same : t = ⟨t.state, s.log⟩ := by rw [← moves.1]
    rw [same]
    exact holds t.state moves.2

end

/-! ### Concrete runs -/

section
variable [EtagScheme] {F A : Type} [FsBackend F]

/-- Nothing happens before an operation, and it is answered. -/
def plainly : (Snapshot F → Snapshot F) × Turn := (id, {})

omit [FsBackend F] in
/-- Turns with nothing before them are possible in all surroundings. -/
theorem quiet_turns {around : Surroundings F} {admits : Turn → Prop} {turn : Turn} {count : Nat} (admitted : admits turn) :
    ∀ next ∈ List.replicate count ((id : Snapshot F → Snapshot F), turn), (∀ s, around.moves s (next.1 s)) ∧ admits next.2 := by
  intro next listed
  rw [List.eq_of_mem_replicate listed]
  exact ⟨around.refl, admitted⟩

omit [FsBackend F] in
theorem plainly_faulty (count : Nat) :
    ∀ turn ∈ List.replicate count (plainly (F := F)), (∀ s, (bystanders (F := F)).moves s (turn.1 s)) ∧ Faulty turn.2 :=
  quiet_turns rfl

/-- Run a call with a move of the surroundings and a turn for each operation. -/
def solo (admits : Turn → Prop) (turns : List ((Snapshot F → Snapshot F) × Turn)) (task : Task F A) (start : Snapshot F) : Option (A × Node F) :=
  (instanceMachine F admits).traced.runAmong
    (turns.map fun turn => (fun node => ⟨turn.1 node.state, node.log⟩, turn.2)) task ⟨start, []⟩

theorem solo_ran {around : Surroundings F} {turns : List ((Snapshot F → Snapshot F) × Turn)} {task : Task F A}
    {start : Snapshot F} {result : A × Node F} {admits : Turn → Prop}
    (moves : ∀ turn ∈ turns, (∀ s, around.moves s (turn.1 s)) ∧ admits turn.2)
    (returned : solo admits turns task start = some result) : Ran admits around task start result.1 result.2 := by
  refine Machine.runAmong_exec (C := runs admits around) (M := (instanceMachine F admits).traced) rfl
    (fun turn member => ?_) returned
  obtain ⟨turn, listed, rfl⟩ := List.mem_map.mp member
  exact ⟨fun s => ⟨rfl, (moves turn listed).1 s.state⟩, (moves turn listed).2⟩

/-- Where a concrete run ends. -/
def arrive (admits : Turn → Prop) (turns : List ((Snapshot F → Snapshot F) × Turn)) (task : Task F A) (start : Snapshot F) : Snapshot F :=
  ((solo admits turns task start).map fun result => result.2.state).getD start

theorem arrive_ran {around : Surroundings F} {turns : List ((Snapshot F → Snapshot F) × Turn)} (task : Task F A)
    (start : Snapshot F) {admits : Turn → Prop} (check : A → Node F → Bool)
    (moves : ∀ turn ∈ turns, (∀ s, around.moves s (turn.1 s)) ∧ admits turn.2)
    (checked : (solo admits turns task start).any (fun result => check result.1 result.2) = true) :
    ∃ value last, Ran admits around task start value last ∧ last.state = arrive admits turns task start ∧
      check value last = true := by
  obtain ⟨result, returned, holds⟩ := (Option.any_eq_true _ _).mp checked
  refine ⟨result.1, result.2, solo_ran moves returned, ?_, holds⟩
  rw [arrive, returned]
  rfl

/-- A concrete run that returned, with what can be computed from its result. -/
theorem solo_returned {around : Surroundings F} {turns : List ((Snapshot F → Snapshot F) × Turn)} (task : Task F A)
    (start : Snapshot F) {admits : Turn → Prop} (check : A → Node F → Bool)
    (moves : ∀ turn ∈ turns, (∀ s, around.moves s (turn.1 s)) ∧ admits turn.2)
    (checked : (solo admits turns task start).any (fun result => check result.1 result.2) = true) :
    ∃ value last, Ran admits around task start value last ∧ check value last = true := by
  obtain ⟨result, returned, holds⟩ := (Option.any_eq_true _ _).mp checked
  exact ⟨result.1, result.2, solo_ran moves returned, holds⟩

end

/-! ### Answers under faults -/

section
variable [EtagScheme] {store later : ObjectStore} {fault : Fault} {key : String} {body : Bytes} {cond : Precondition}

theorem serveWith_ok {request : Request} {value : request.Payload}
    (answered : (store.serveWith fault request).1 = .ok value) :
    store.serveWith fault request = store.serve request := by
  cases fault with
  | answered => rfl
  | unsent e | unanswered e => cases answered

theorem serveWith_other {request : Request} {name : String} (other : request.writes ≠ some name) :
    (store.serveWith fault request).2.objects.lookup name = store.objects.lookup name := by
  cases fault with
  | answered | unanswered e => exact ObjectStore.serve_other other
  | unsent e => rfl

/-- Whatever a PUT answers, it stored the body or left the object alone. -/
theorem put_either (store : ObjectStore) (fault : Fault) (key : String) (body : Bytes) (cond : Precondition) :
    (store.serveWith fault (.put key body cond)).2.objects.lookup key = store.objects.lookup key ∨
      ∃ version : MemObject, (store.serveWith fault (.put key body cond)).2.objects.lookup key = some version ∧
        version.data = body := by
  have served : (store.put key body cond).2.objects.lookup key = store.objects.lookup key ∨
      ∃ version : MemObject, (store.put key body cond).2.objects.lookup key = some version ∧ version.data = body := by
    rcases store.put_cases key body cond with ⟨-, stored⟩ | ⟨-, e, rejected⟩
    · rw [stored]
      exact .inr ⟨⟨body, store.clock + 1⟩, (Map.lookup_insert_eq ..).trans (if_pos rfl), rfl⟩
    · rw [rejected]
      exact .inl rfl
  cases fault with
  | answered | unanswered e => exact served
  | unsent e => exact .inl rfl

/-- A successful PUT stored the body. -/
theorem put_stored {etag : String} (answered : (store.serveWith fault (.put key body cond)).1 = .ok etag) :
    ∃ version : MemObject, (store.serveWith fault (.put key body cond)).2.objects.lookup key = some version ∧
      version.etag = etag ∧ version.data = body := by
  have served := serveWith_ok answered
  rw [served] at answered ⊢
  rcases store.put_cases key body cond with ⟨-, stored⟩ | ⟨-, e, failed⟩
  · rw [show store.serve (.put key body cond) = _ from stored] at answered ⊢
    cases answered
    exact ⟨⟨body, store.clock + 1⟩, by simp only [Map.lookup_insert_eq, if_true], rfl, rfl⟩
  · rw [show store.serve (.put key body cond) = _ from failed] at answered
    cases answered

/-- A failed PUT was rejected for its condition, or says nothing. -/
theorem put_failed {e : S3Error} (faulty : fault.isTransport = true)
    (answered : (store.serveWith fault (.put key body cond)).1 = .error e) :
    e.isTransport = true ∨ e.isPreconditionFailed = true ∨ (e.isNotFound = true ∧ cond.isIfMatch = true) := by
  cases fault with
  | answered =>
    rcases ObjectStore.put_error answered with rejected | ⟨missing, -, expected, rfl⟩
    · exact .inr (.inl rejected)
    · exact .inr (.inr ⟨missing, rfl⟩)
  | unsent e' | unanswered e' =>
    cases answered
    exact .inl faulty

/-- A failed PUT changed nothing, or its answer was lost after it stored the body. -/
theorem put_lost {e : S3Error} (faulty : fault.isTransport = true)
    (answered : (store.serveWith fault (.put key body cond)).1 = .error e) :
    (store.serveWith fault (.put key body cond)).2 = store ∨ (e.isTransport = true ∧ ∃ version : MemObject,
      (store.serveWith fault (.put key body cond)).2.objects.lookup key = some version ∧ version.data = body) := by
  have outcome := store.put_cases key body cond
  cases fault with
  | answered =>
    rcases outcome with ⟨-, stored⟩ | ⟨-, e', rejected⟩
    · rw [show store.serveWith .answered (.put key body cond) = _ from stored] at answered
      cases answered
    · exact .inl (congrArg Prod.snd rejected)
  | unsent e' => exact .inl rfl
  | unanswered e' =>
    cases answered
    rcases outcome with ⟨-, stored⟩ | ⟨-, e', rejected⟩
    · refine .inr ⟨faulty, ⟨body, store.clock + 1⟩, ?_, rfl⟩
      show (store.put key body cond).2.objects.lookup key = _
      rw [stored]
      exact (Map.lookup_insert_eq ..).trans (if_pos rfl)
    · exact .inl (congrArg Prod.snd rejected)

/-- A request that changes nothing fails in transit only. -/
theorem look_failed {request : Request} (looks : request.writes = none) {e : S3Error} (faulty : fault.isTransport = true)
    (answered : (store.serveWith fault request).1 = .error e) : e.isTransport = true := by
  cases fault with
  | answered =>
    cases request with
    | put | delete => cases looks
    | list | head | get => cases answered
  | unsent e' | unanswered e' => cases answered; exact faulty

theorem list_answered {pre : String} {maxKeys : Option Nat} {metas : List ObjectMeta}
    (answered : (store.serveWith fault (.list pre maxKeys)).1 = .ok metas) :
    metas = store.list pre maxKeys ∧ (store.serveWith fault (.list pre maxKeys)).2 = store := by
  have served := serveWith_ok answered
  rw [served] at answered ⊢
  exact ⟨(Except.ok.inj answered).symm, rfl⟩

theorem get_missing (answered : (store.serveWith fault (.get key)).1 = .ok none) : store.objects.lookup key = none := by
  rw [serveWith_ok answered] at answered
  exact Option.map_eq_none_iff.mp (Except.ok.inj answered)

theorem get_found {data : Bytes} {info : ObjectMeta} (answered : (store.serveWith fault (.get key)).1 = .ok (some (data, info))) :
    ∃ version, store.objects.lookup key = some version ∧ version.data = data ∧ info.etag = etagFor data := by
  rw [serveWith_ok answered] at answered
  obtain ⟨version, found, same⟩ := Option.map_eq_some_iff.mp (Except.ok.inj answered)
  cases same
  exact ⟨version, found, rfl, rfl⟩

theorem head_found {info : ObjectMeta} (answered : (store.serveWith fault (.head key)).1 = .ok (some info)) :
    ∃ version, store.objects.lookup key = some version ∧ version.etag = info.etag := by
  rw [serveWith_ok answered] at answered
  obtain ⟨version, found, same⟩ := Option.map_eq_some_iff.mp (Except.ok.inj answered)
  exact ⟨version, found, by rw [← same]; rfl⟩

end

end MonakaFs.Sync
