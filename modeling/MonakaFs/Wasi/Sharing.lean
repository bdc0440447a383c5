import Mathlib.Data.List.Infix

/-! Hosts that share one filesystem and one sync manager.

The first host of a manager spawns its background thread. Every host that is cloned from it
uses the same manager, and every host that is dropped asks the manager to shut down.
-/

set_option autoImplicit false

namespace MonakaFs.Wasi.VfsHost.Sharing

/-! ### Managers and their threads -/

/-- What the background thread has done. -/
inductive Work where
  | maybeSync
  | forceFlush
  | releaseAllLeases
  deriving DecidableEq

/-- A sync manager, and the thread that was spawned for it. -/
structure Manager where
  shutdown : Bool
  running : Bool
  work : List Work

namespace Manager

def spawned : Manager := ⟨false, true, []⟩

def requestShutdown (manager : Manager) : Manager := { manager with shutdown := true }

/-- One round of the thread: it goes on until it sees that a shutdown was requested. -/
def round (manager : Manager) : Manager :=
  if !manager.running then manager
  else if !manager.shutdown then { manager with work := manager.work ++ [.maybeSync] }
  else { manager with running := false, work := manager.work ++ [.forceFlush, .releaseAllLeases] }

/-- Waits for the thread, which ends only after a shutdown. -/
def join (manager : Manager) : Manager := if manager.shutdown then manager.round else manager

end Manager

/-! ### Hosts -/

structure WasiCtx where
  args : List String
  env : List (String × String)

def WasiCtx.inherited : WasiCtx := ⟨[], []⟩

/-- Filesystems, managers and threads are numbered. -/
structure VfsHostState where
  wasiCtx : WasiCtx
  sharedVfs : Nat
  syncHooks : Option Nat
  syncManager : Option Nat
  syncThread : Option Nat

namespace VfsHostState

/-- The thread handle is not cloned. -/
def cloneWith (state : VfsHostState) (wasiCtx : WasiCtx) : VfsHostState :=
  ⟨wasiCtx, state.sharedVfs, state.syncHooks, state.syncManager, none⟩

def cloneShared (state : VfsHostState) : VfsHostState := state.cloneWith .inherited

def cloneSharedWithArgs (state : VfsHostState) (args : List String) : VfsHostState := state.cloneWith ⟨args, []⟩

def cloneSharedWithEnv (state : VfsHostState) (env : List (String × String)) : VfsHostState := state.cloneWith ⟨[], env⟩

def fromSharedVfsWithEnv (sharedVfs : Nat) (env : List (String × String)) : VfsHostState := ⟨⟨[], env⟩, sharedVfs, none, none, none⟩

def modify (managers : List Manager) (m : Option Nat) (change : Manager → Manager) : List Manager :=
  match m with
  | some m => managers.modify m change
  | none => managers

def shutdownSync (state : VfsHostState) (managers : List Manager) : VfsHostState × List Manager :=
  ({ state with syncThread := none }, modify (modify managers state.syncManager .requestShutdown) state.syncThread .join)

end VfsHostState

/-! ### The process -/

/-- Hosts that were dropped leave their place empty. -/
structure Process where
  hosts : List (Option VfsHostState)
  managers : List Manager

namespace Process

def empty : Process := ⟨[], []⟩

variable (process : Process)

def host (k : Nat) : Option VfsHostState := process.hosts[k]?.join

def add (state : VfsHostState) : Process := { process with hosts := process.hosts ++ [some state] }

/-- The host uses the manager. -/
def Uses (k m : Nat) : Prop := ∃ state, process.host k = some state ∧ state.syncManager = some m

def Shared (m : Nat) : Prop := ∃ k, process.Uses k m

end Process

/-- What is done with hosts, and a round of a background thread. -/
inductive Event where
  | newWithS3
  | cloneShared (k : Nat)
  | cloneSharedWithArgs (k : Nat) (args : List String)
  | cloneSharedWithEnv (k : Nat) (env : List (String × String))
  | fromSharedVfsWithEnv (k : Nat) (env : List (String × String))
  | shutdownSync (k : Nat)
  | drop (k : Nat)
  | round (m : Nat)
  deriving DecidableEq

namespace Process

variable (process : Process)

/-- A manager with its thread, and a host that uses it. -/
def newWithS3 : Process :=
  let fresh := process.managers.length
  { process.add ⟨.inherited, fresh, some fresh, some fresh, some fresh⟩ with managers := process.managers ++ [.spawned] }

def cloned (k : Nat) (make : VfsHostState → VfsHostState) : Process :=
  match process.host k with
  | some state => process.add (make state)
  | none => process

/-- A host asks for the shutdown, and something is left of it. -/
def shutDown (k : Nat) (left : VfsHostState → Option VfsHostState) : Process :=
  match process.host k with
  | some state =>
      let done := state.shutdownSync process.managers
      ⟨process.hosts.set k (left done.1), done.2⟩
  | none => process

def step : Event → Process
  | .newWithS3 => process.newWithS3
  | .cloneShared k => process.cloned k fun state => state.cloneShared
  | .cloneSharedWithArgs k args => process.cloned k fun state => state.cloneSharedWithArgs args
  | .cloneSharedWithEnv k env => process.cloned k fun state => state.cloneSharedWithEnv env
  | .fromSharedVfsWithEnv k env => process.cloned k fun state => .fromSharedVfsWithEnv state.sharedVfs env
  | .shutdownSync k => process.shutDown k some
  | .drop k => process.shutDown k fun _ => none
  | .round m => { process with managers := process.managers.modify m .round }

end Process

/-- The process after some events, oldest first. -/
def after (events : List Event) : Process := events.foldl Process.step .empty

/-! ### What is meant by sharing -/

/-- Something happened in a run. -/
def Happened (what : Process → Event → Prop) (events : List Event) : Prop :=
  ∃ before event rest, events = before ++ event :: rest ∧ what (after before) event

def Asks (m : Nat) (process : Process) (event : Event) : Prop := ∃ k, event = .shutdownSync k ∧ process.Uses k m

def Drops (m : Nat) (process : Process) (event : Event) : Prop := ∃ k, event = .drop k ∧ process.Uses k m

/-- The manager works while it is shared, unless it was shut down explicitly, and stops with its last host. -/
structure Served (m : Nat) (events : List Event) : Prop where
  continues : ¬ Happened (Asks m) events → (after events).Shared m →
    ∃ manager, (after events).managers[m]? = some manager ∧ manager.shutdown = false ∧
      manager.round = { manager with work := manager.work ++ [.maybeSync] }
  ends : m < (after events).managers.length → ¬ (after events).Shared m →
    ∃ manager, (after events).managers[m]? = some manager ∧ manager.shutdown = true

/-- Only the last host of the manager is dropped, unless the manager was shut down before. -/
def LastDrops (m : Nat) (events : List Event) : Prop :=
  ∀ before k rest, events = before ++ .drop k :: rest → (after before).Uses k m →
    Happened (Asks m) before ∨ ∀ other, (after before).Uses other m → other = k

/-! ### One event -/

namespace Process

variable {process : Process} {k m other : Nat}

theorem host_add (state : VfsHostState) : (process.add state).host k =
    if k = process.hosts.length then some state else process.host k := by
  unfold host add
  split
  · next last => rw [last, List.getElem?_concat_length, Option.join_some]
  · next apart =>
    rcases Nat.lt_or_gt_of_ne apart with before | beyond
    · rw [List.getElem?_append_left before]
    · rw [List.getElem?_eq_none (by simp; omega), List.getElem?_eq_none (Nat.le_of_lt beyond)]

/-- The new host has a new number. -/
theorem host_length : process.host process.hosts.length = none := by
  rw [host, List.getElem?_eq_none (Nat.le_refl _), Option.join_none]

theorem uses_add (state : VfsHostState) : (process.add state).Uses k m ↔
    process.Uses k m ∨ (k = process.hosts.length ∧ state.syncManager = some m) := by
  unfold Uses
  rw [host_add]
  split
  · next last => simp [last, host_length]
  · next apart => simp [apart]

theorem host_shutDown (left : VfsHostState → Option VfsHostState) : (process.shutDown k left).host other =
    if other = k then (process.host k).bind fun state => left (state.shutdownSync process.managers).1 else process.host other := by
  unfold shutDown
  cases there : process.host k with
  | none =>
    dsimp only
    split
    · next same => rw [same, there, Option.bind_none]
    · rfl
  | some state =>
    have room : k < process.hosts.length := by
      by_contra beyond
      rw [host, List.getElem?_eq_none (Nat.le_of_not_lt beyond)] at there
      cases there
    simp only [host]
    split
    · next same => rw [same, List.getElem?_set_self room, Option.join_some, Option.bind_some]
    · next apart => rw [List.getElem?_set_ne (Ne.symm apart)]

/-- Nobody comes to use a manager that a dropped or cloned host did not use. -/
theorem uses_cloned {make : VfsHostState → VfsHostState} (uses : (process.cloned k make).Uses other m) :
    process.Uses other m ∨ ∃ state, process.host k = some state ∧ (make state).syncManager = some m := by
  unfold cloned at uses
  split at uses
  · next state there => exact (uses_add _).mp uses |>.imp_right fun last => ⟨state, there, last.2⟩
  · exact .inl uses

theorem uses_of_cloned (make : VfsHostState → VfsHostState) (uses : process.Uses other m) : (process.cloned k make).Uses other m := by
  unfold cloned
  split
  · exact (uses_add _).mpr (.inl uses)
  · exact uses

theorem uses_shutDown (left : VfsHostState → Option VfsHostState) (apart : other ≠ k) :
    (process.shutDown k left).Uses other m ↔ process.Uses other m := by
  unfold Uses
  rw [host_shutDown, if_neg apart]

theorem uses_shutdownSync : (process.shutDown k some).Uses other m ↔ process.Uses other m := by
  by_cases same : other = k
  · subst same
    unfold Uses
    rw [host_shutDown, if_pos rfl]
    cases process.host other <;> simp [VfsHostState.shutdownSync]
  · exact uses_shutDown some same

theorem not_uses_drop : ¬ (process.shutDown k fun _ => none).Uses k m := by
  rintro ⟨state, there, -⟩
  rw [host_shutDown, if_pos rfl] at there
  cases before : process.host k <;> rw [before] at there <;> cases there

/-- A host of a manager is cloned from one, or it is the first. -/
theorem step_uses {event : Event} (uses : (process.step event).Uses other m) :
    process.Shared m ∨ event = .newWithS3 ∧ m = process.managers.length := by
  have clone {j : Nat} {make : VfsHostState → VfsHostState} (uses : (process.cloned j make).Uses other m)
      (same : ∀ state, (make state).syncManager = some m → state.syncManager = some m) : process.Shared m ∨ event = .newWithS3 ∧ m = process.managers.length := by
    rcases uses_cloned uses with old | ⟨state, there, shares⟩
    · exact .inl ⟨other, old⟩
    · exact .inl ⟨j, state, there, same state shares⟩
  cases event with
  | newWithS3 =>
    rcases (uses_add _).mp uses with old | ⟨-, first⟩
    · exact .inl ⟨other, old⟩
    · exact .inr ⟨rfl, (Option.some.inj first).symm⟩
  | cloneShared j => exact clone uses fun _ shares => shares
  | cloneSharedWithArgs j args => exact clone uses fun _ shares => shares
  | cloneSharedWithEnv j env => exact clone uses fun _ shares => shares
  | fromSharedVfsWithEnv j env => exact clone uses fun _ shares => by cases shares
  | shutdownSync j => exact .inl ⟨other, uses_shutdownSync.mp uses⟩
  | drop j =>
    by_cases same : other = j
    · subst same
      exact absurd uses not_uses_drop
    · exact .inl ⟨other, (uses_shutDown _ same).mp uses⟩
  | round j => exact .inl ⟨other, uses⟩

/-- Only a drop takes a host away. -/
theorem step_keeps {event : Event} (uses : process.Uses k m) (stays : event ≠ .drop k) : (process.step event).Uses k m := by
  cases event with
  | newWithS3 => exact (uses_add _).mpr (.inl uses)
  | cloneShared | cloneSharedWithArgs | cloneSharedWithEnv | fromSharedVfsWithEnv => exact uses_of_cloned _ uses
  | shutdownSync j => exact uses_shutdownSync.mpr uses
  | drop j => exact (uses_shutDown _ fun same => stays (by rw [same])).mpr uses
  | round j => exact uses

end Process

/-! ### Managers -/

section
variable {managers : List Manager} {m : Nat}

/-- The shutdown flag of a manager. -/
def flag (managers : List Manager) (m : Nat) : Option Bool := managers[m]?.map (·.shutdown)

theorem round_shutdown (manager : Manager) : manager.round.shutdown = manager.shutdown := by
  unfold Manager.round
  split
  · rfl
  split <;> rfl

theorem join_shutdown (manager : Manager) : manager.join.shutdown = manager.shutdown := by
  unfold Manager.join
  split
  · exact round_shutdown manager
  · rfl

theorem flag_modify {change : Manager → Manager} (keeps : ∀ manager, (change manager).shutdown = manager.shutdown) (t : Nat) :
    flag (managers.modify t change) m = flag managers m := by
  rw [flag, flag, List.getElem?_modify]
  cases managers[m]? with
  | none => rfl
  | some manager =>
    rw [Option.map_eq_map, Option.map_some, Option.map_some, Option.map_some]
    split
    · rw [keeps]
    · rfl

theorem flag_request (t : Nat) : flag (managers.modify t .requestShutdown) m =
    if t = m then (flag managers m).map fun _ => true else flag managers m := by
  rw [flag, flag, List.getElem?_modify]
  cases managers[m]? <;> by_cases same : t = m <;> simp [same, Manager.requestShutdown]

/-- A host asks its manager, and no other. -/
theorem flag_shutdownSync (state : VfsHostState) : flag (state.shutdownSync managers).2 m =
    if state.syncManager = some m then (flag managers m).map fun _ => true else flag managers m := by
  have joined (managers : List Manager) : flag (VfsHostState.modify managers state.syncThread .join) m = flag managers m := by
    unfold VfsHostState.modify
    split
    · exact flag_modify join_shutdown _
    · rfl
  rw [VfsHostState.shutdownSync, joined]
  cases state.syncManager with
  | none => rfl
  | some t =>
    simp only [Option.some.injEq]
    exact flag_request t

theorem length_shutdownSync (state : VfsHostState) : (state.shutdownSync managers).2.length = managers.length := by
  have modified (managers : List Manager) (t : Option Nat) (change : Manager → Manager) :
      (VfsHostState.modify managers t change).length = managers.length := by
    cases t with
    | none => rfl
    | some t => exact List.length_modify ..
  rw [VfsHostState.shutdownSync, modified, modified]

end

/-! ### Managers in a run -/

/-- The thread runs until it is shut down. -/
def Manager.Works (manager : Manager) : Prop := manager.shutdown = false → manager.running = true

/-- Hosts have managers, and managers have hosts or are shut down. -/
structure Sound (process : Process) : Prop where
  known : ∀ k m, process.Uses k m → m < process.managers.length
  works : ∀ manager ∈ process.managers, manager.Works
  kept : ∀ m, m < process.managers.length → process.Shared m ∨ flag process.managers m = some true

section
variable {process : Process} {event : Event} {k m : Nat}

theorem managers_cloned (make : VfsHostState → VfsHostState) : (process.cloned k make).managers = process.managers := by
  unfold Process.cloned
  split <;> rfl

theorem length_shutDown (left : VfsHostState → Option VfsHostState) :
    (process.shutDown k left).managers.length = process.managers.length := by
  unfold Process.shutDown
  split
  · exact length_shutdownSync _
  · rfl

theorem flag_shutDown (known : m < process.managers.length) (left : VfsHostState → Option VfsHostState) :
    flag (process.shutDown k left).managers m = some true ↔ flag process.managers m = some true ∨ process.Uses k m := by
  have there : (flag process.managers m).map (fun _ => true) = some true := by
    rw [flag, List.getElem?_eq_getElem known]
    rfl
  unfold Process.shutDown Process.Uses
  cases process.host k with
  | none => simp
  | some state =>
    dsimp only
    rw [flag_shutdownSync]
    split
    · next shares => simp [there, shares]
    · next apart => simp [apart]

theorem step_length : (process.step event).managers.length =
    if event = .newWithS3 then process.managers.length + 1 else process.managers.length := by
  cases event with
  | newWithS3 => simp [Process.step, Process.newWithS3]
  | cloneShared | cloneSharedWithArgs | cloneSharedWithEnv | fromSharedVfsWithEnv => exact congrArg _ (managers_cloned _)
  | shutdownSync | drop => exact length_shutDown _
  | round j => exact List.length_modify ..

/-- A manager is shut down by a host that uses it, when that is asked to or dropped. -/
theorem step_flag (known : m < process.managers.length) : flag (process.step event).managers m = some true ↔
    flag process.managers m = some true ∨ Asks m process event ∨ Drops m process event := by
  have neither (asks : ∀ j, event ≠ .shutdownSync j) (drops : ∀ j, event ≠ .drop j)
      (same : flag (process.step event).managers m = flag process.managers m) :
      flag (process.step event).managers m = some true ↔ flag process.managers m = some true ∨ Asks m process event ∨ Drops m process event := by
    rw [same]
    refine ⟨.inl, fun either => either.resolve_right ?_⟩
    rintro (⟨j, here, -⟩ | ⟨j, here, -⟩)
    · exact asks j here
    · exact drops j here
  cases event with
  | newWithS3 =>
    refine neither (fun _ same => by cases same) (fun _ same => by cases same) ?_
    rw [flag, flag]
    exact congrArg _ (List.getElem?_append_left known)
  | cloneShared | cloneSharedWithArgs | cloneSharedWithEnv | fromSharedVfsWithEnv =>
    exact neither (fun _ same => by cases same) (fun _ same => by cases same) (congrArg (flag · m) (managers_cloned _))
  | round j => exact neither (fun _ same => by cases same) (fun _ same => by cases same) (flag_modify round_shutdown j)
  | shutdownSync j =>
    refine (flag_shutDown known some).trans (or_congr_right ⟨fun uses => .inl ⟨j, rfl, uses⟩, ?_⟩)
    rintro (⟨_, same, uses⟩ | ⟨_, same, -⟩) <;> cases same
    exact uses
  | drop j =>
    refine (flag_shutDown known _).trans (or_congr_right ⟨fun uses => .inr ⟨j, rfl, uses⟩, ?_⟩)
    rintro (⟨_, same, -⟩ | ⟨_, same, uses⟩) <;> cases same
    exact uses

theorem works_modify {managers : List Manager} {change : Manager → Manager} {t : Nat}
    (keeps : ∀ manager : Manager, manager.Works → (change manager).Works)
    (works : ∀ manager ∈ managers, manager.Works) :
    ∀ manager ∈ managers.modify t change, manager.Works := by
  intro manager there
  obtain ⟨m, there⟩ := List.getElem?_of_mem there
  rw [List.getElem?_modify, Option.map_eq_map] at there
  obtain ⟨before, found, rfl⟩ := Option.map_eq_some_iff.mp there
  have old := works before (List.mem_of_getElem? found)
  split
  · exact keeps before old
  · exact old

theorem round_works (manager : Manager) (works : manager.Works) : manager.round.Works := by
  intro on
  rw [round_shutdown] at on
  simp [Manager.round, works on, on]

theorem join_works (manager : Manager) (works : manager.Works) : manager.join.Works := by
  unfold Manager.join
  split
  · exact round_works manager works
  · exact works

theorem shutDown_works (left : VfsHostState → Option VfsHostState)
    (works : ∀ manager ∈ process.managers, manager.Works) :
    ∀ manager ∈ (process.shutDown k left).managers, manager.Works := by
  have modified {managers : List Manager} {change : Manager → Manager} (t : Option Nat)
      (keeps : ∀ manager : Manager, manager.Works → (change manager).Works)
      (works : ∀ manager ∈ managers, manager.Works) :
      ∀ manager ∈ VfsHostState.modify managers t change, manager.Works := by
    cases t with
    | none => exact works
    | some t => exact works_modify keeps works
  unfold Process.shutDown
  split
  · next state _ =>
    exact modified state.syncThread join_works (modified state.syncManager (fun manager _ asked => by cases asked) works)
  · exact works

theorem Sound.step (sound : Sound process) (event : Event) : Sound (process.step event) where
  known k m uses := by
    rw [step_length]
    rcases Process.step_uses uses with ⟨j, old⟩ | ⟨rfl, rfl⟩
    · have known := sound.known j m old
      split <;> omega
    · rw [if_pos rfl]
      exact Nat.lt_succ_self _
  works := by
    cases event with
    | newWithS3 =>
      intro manager there
      rcases List.mem_append.mp there with old | new
      · exact sound.works manager old
      · rw [List.mem_singleton.mp new]
        exact fun _ => rfl
    | cloneShared | cloneSharedWithArgs | cloneSharedWithEnv | fromSharedVfsWithEnv =>
      intro manager there
      exact sound.works manager (@managers_cloned process _ _ ▸ there)
    | round j => exact works_modify round_works sound.works
    | shutdownSync | drop => exact shutDown_works _ sound.works
  kept m known := by
    -- A manager that is not new is used by somebody still, or was shut down.
    rcases Nat.lt_or_ge m process.managers.length with old | new
    · rcases sound.kept m old with ⟨k, uses⟩ | down
      · by_cases dropped : event = .drop k
        · exact .inr ((step_flag old).mpr (.inr (.inr ⟨k, dropped, uses⟩)))
        · exact .inl ⟨k, Process.step_keeps uses dropped⟩
      · exact .inr ((step_flag old).mpr (.inl down))
    · rw [step_length] at known
      by_cases first : event = .newWithS3
      · subst first
        rw [if_pos rfl] at known
        have same : m = process.managers.length := by omega
        exact .inl ⟨process.hosts.length, (Process.uses_add _).mpr (.inr ⟨rfl, congrArg some same.symm⟩)⟩
      · rw [if_neg first] at known
        omega

end

/-! ### Runs -/

section
variable {events : List Event} {what : Process → Event → Prop} {m : Nat}

theorem after_concat (events : List Event) (event : Event) : after (events ++ [event]) = (after events).step event := by
  rw [after, List.foldl_concat]
  rfl

theorem after_sound (events : List Event) : Sound (after events) := by
  induction events using List.reverseRecOn with
  | nil =>
    constructor
    · rintro k m ⟨state, there, -⟩
      cases there
    · intro manager there
      cases there
    · intro m known
      cases known
  | append_singleton events event earlier =>
    rw [after_concat]
    exact earlier.step event

theorem happened_concat {event : Event} : Happened what (events ++ [event]) ↔ Happened what events ∨ what (after events) event := by
  constructor
  · rintro ⟨before, here, rest, split, done⟩
    rcases rest.eq_nil_or_concat with rfl | ⟨rest, last, rfl⟩
    · obtain ⟨rfl, same⟩ := List.append_inj' split rfl
      cases same
      exact .inr done
    · rw [List.concat_eq_append, ← List.cons_append, ← List.append_assoc] at split
      exact .inl ⟨before, here, rest, (List.append_inj' split rfl).1, done⟩
  · rintro (⟨before, here, rest, rfl, done⟩ | done)
    · exact ⟨before, here, rest ++ [event], by rw [List.append_assoc, List.cons_append], done⟩
    · exact ⟨events, event, [], rfl, done⟩

theorem Happened.append (happened : Happened what events) (more : List Event) : Happened what (events ++ more) := by
  obtain ⟨before, here, rest, rfl, done⟩ := happened
  exact ⟨before, here, rest ++ more, by rw [List.append_assoc, List.cons_append], done⟩

theorem length_append (events more : List Event) : (after events).managers.length ≤ (after (events ++ more)).managers.length := by
  induction more using List.reverseRecOn with
  | nil => rw [List.append_nil]
  | append_singleton more event earlier =>
    rw [← List.append_assoc, after_concat, step_length]
    split <;> omega

/-- A host that was asked or dropped had a manager that exists. -/
theorem known_of_happened (shares : ∀ process event, what process event → process.Shared m) (happened : Happened what events) :
    m < (after events).managers.length := by
  obtain ⟨before, event, rest, rfl, done⟩ := happened
  obtain ⟨k, uses⟩ := shares _ _ done
  exact Nat.lt_of_lt_of_le ((after_sound before).known k m uses) (length_append before _)

theorem Asks.shared {process : Process} {event : Event} (asks : Asks m process event) : process.Shared m := by
  obtain ⟨k, -, uses⟩ := asks
  exact ⟨k, uses⟩

theorem Drops.shared {process : Process} {event : Event} (drops : Drops m process event) : process.Shared m := by
  obtain ⟨k, -, uses⟩ := drops
  exact ⟨k, uses⟩

/-- A manager was shut down if and only if a host that used it was asked to do so or dropped. -/
theorem flag_iff (known : m < (after events).managers.length) :
    flag (after events).managers m = some true ↔ Happened (Asks m) events ∨ Happened (Drops m) events := by
  induction events using List.reverseRecOn with
  | nil => cases known
  | append_singleton events event earlier =>
    rw [happened_concat, happened_concat]
    rcases Nat.lt_or_ge m (after events).managers.length with old | new
    · rw [after_concat, step_flag old, earlier old]
      exact or_or_or_comm
    -- the manager is spawned just now
    · rw [after_concat, step_length] at known
      by_cases first : event = .newWithS3
      · subst first
        rw [if_pos rfl] at known
        have same : m = (after events).managers.length := by omega
        refine ⟨fun down => ?_, ?_⟩
        · rw [after_concat, same, flag] at down
          rw [show ((after events).step .newWithS3).managers = (after events).managers ++ [.spawned] from rfl,
            List.getElem?_concat_length] at down
          cases down
        · rintro ((asked | ⟨k, same, -⟩) | (dropped | ⟨k, same, -⟩))
          · exact absurd (known_of_happened (fun _ _ => Asks.shared) asked) (Nat.not_lt.mpr new)
          · cases same
          · exact absurd (known_of_happened (fun _ _ => Drops.shared) dropped) (Nat.not_lt.mpr new)
          · cases same
      · rw [if_neg first] at known
        omega

/-- Without hosts a manager stays without hosts. -/
theorem shared_append (more : List Event) (known : m < (after events).managers.length)
    (shared : (after (events ++ more)).Shared m) : (after events).Shared m := by
  induction more using List.reverseRecOn with
  | nil => rwa [List.append_nil] at shared
  | append_singleton more event earlier =>
    rw [← List.append_assoc, after_concat] at shared
    obtain ⟨k, uses⟩ := shared
    rcases Process.step_uses uses with old | ⟨-, same⟩
    · exact earlier old
    · have more := length_append events more
      omega

/-- What the manager that is not shut down goes on to do. -/
theorem continues_of_flag (known : m < (after events).managers.length) (on : flag (after events).managers m ≠ some true) :
    ∃ manager, (after events).managers[m]? = some manager ∧ manager.shutdown = false ∧
      manager.round = { manager with work := manager.work ++ [.maybeSync] } := by
  have there := List.getElem?_eq_getElem known
  have up : ((after events).managers[m]).shutdown = false := by
    rw [flag, there, Option.map_some] at on
    exact Bool.eq_false_iff.mpr fun down => on (congrArg some down)
  refine ⟨_, there, up, ?_⟩
  have running := (after_sound events).works _ (List.getElem_mem known) up
  rw [Manager.round, running, up]
  rfl

/-- A manager works exactly for its hosts if and only if no host is dropped before the last. -/
theorem served_iff_lastDrops (m : Nat) (events : List Event) : (∀ front, front <+: events → Served m front) ↔ LastDrops m events := by
  constructor
  · rintro served before k rest rfl uses
    by_contra early
    rw [not_or, not_forall] at early
    obtain ⟨unasked, other, early⟩ := early
    obtain ⟨still, apart⟩ := Classical.not_imp.mp early
    have here := served (before ++ [.drop k]) ⟨rest, by rw [List.append_assoc, List.singleton_append]⟩
    have quiet : ¬ Happened (Asks m) (before ++ [.drop k]) := by
      rw [happened_concat]
      rintro (asked | ⟨j, same, -⟩)
      · exact unasked asked
      · cases same
    have left : (after (before ++ [.drop k])).Shared m := by
      rw [after_concat]
      exact ⟨other, Process.step_keeps still fun same => apart (by cases same; rfl)⟩
    obtain ⟨manager, there, on, -⟩ := here.continues quiet left
    have dropped : Happened (Drops m) (before ++ [.drop k]) := happened_concat.mpr (.inr ⟨k, rfl, uses⟩)
    have down := (flag_iff (known_of_happened (fun _ _ => Drops.shared) dropped)).mpr (.inr dropped)
    rw [flag, there, Option.map_some, on] at down
    cases down
  · rintro last front ⟨more, rfl⟩
    constructor
    · rintro quiet ⟨k, uses⟩
      have known := (after_sound front).known k m uses
      refine continues_of_flag known fun down => ?_
      obtain ⟨before, event, rest, rfl, j, rfl, dropped⟩ := ((flag_iff known).mp down).resolve_left quiet
      rcases last before j (rest ++ more) (by rw [List.append_assoc, List.cons_append]) dropped with asked | alone
      · exact quiet (asked.append _)
      -- after the last drop there is no host, and none comes again
      · have spawned : m < (after (before ++ [.drop j])).managers.length :=
          Nat.lt_of_lt_of_le ((after_sound before).known j m dropped) (length_append before _)
        rw [← List.singleton_append, ← List.append_assoc] at uses
        obtain ⟨other, still⟩ := shared_append rest spawned ⟨k, uses⟩
        rw [after_concat] at still
        by_cases same : other = j
        · subst same
          exact Process.not_uses_drop still
        · exact same (alone other ((Process.uses_shutDown _ same).mp still))
    · intro known unshared
      have down := ((after_sound front).kept m known).resolve_left unshared
      rw [flag] at down
      obtain ⟨manager, there, on⟩ := Option.map_eq_some_iff.mp down
      exact ⟨manager, there, on⟩

end

/-- A guest runs in a clone of the host, and the clone is dropped when the guest is done. -/
def guest : List Event := [.newWithS3, .cloneSharedWithArgs 0 ["demo-writer"], .drop 1]

/-- The host is left without its manager. -/
theorem guest_stops : (after guest).Shared 0 ∧ ¬ Happened (Asks 0) guest ∧ ¬ ∀ front, front <+: guest → Served 0 front := by
  have shared : (after guest).Shared 0 := ⟨0, _, rfl, rfl⟩
  have unasked : ¬ Happened (Asks 0) guest := by
    rintro ⟨_ | ⟨first, _ | ⟨second, _ | ⟨third, before⟩⟩⟩, event, rest, split, k, rfl, -⟩ <;> simp [guest] at split
  refine ⟨shared, unasked, fun served => ?_⟩
  obtain ⟨manager, there, on, -⟩ := (served guest (List.prefix_refl _)).continues unasked shared
  cases there
  cases on

end MonakaFs.Wasi.VfsHost.Sharing
