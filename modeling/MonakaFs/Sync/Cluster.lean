import MonakaFs.Async.Team
import MonakaFs.Sync.Manager

/-! Several instances over one object store.

Each instance runs one call at a time; the store requests of all of them
interleave in any order. Time passes, and other tools may change the store, at
any moment.
-/

set_option autoImplicit false

namespace MonakaFs.Sync

open Async

/-- One call into an instance, by its application or its background loop. -/
inductive Call (F : Type) where
  | openWrite (rounds : Nat) (path : String)
  | close (path : String)
  | fsync (path : String)
  /-- A local change of the filesystem and the hook that follows it. -/
  | write (path : String) (change : F → F)
  | writeNow (path : String) (change : F → F)
  | unlink (path : String) (change : F → F)
  | read (path : String)
  | stat (path : String)
  | mkdir (path : String)
  | rmdir (path : String)
  | flushOutbound
  | forceFlush (rounds : Nat)
  | pollInbound
  | maybeSync
  | renewLeases
  | releaseAllLeases

def Call.task {F : Type} (manager : SyncManager) : Call F → Task F Unit
  | .openWrite rounds path => do let _ ← manager.onOpenWrite rounds path
  | .close path => do let _ ← manager.onClose path
  | .fsync path => do let _ ← manager.onFsync path
  | .write path change => do
      let _ ← app change
      SyncManager.enqueueUpload path
  | .writeNow path change => do
      let _ ← app change
      let _ ← manager.syncFileNow path
  | .unlink path change => do
      let _ ← app change
      SyncManager.enqueueDelete path
  | .read path => do let _ ← SyncManager.refreshFileFromS3 path
  | .stat path => do let _ ← SyncManager.checkAndRefreshFromS3 path
  | .mkdir path => do let _ ← SyncManager.onMkdir path
  | .rmdir path => do let _ ← SyncManager.onRmdir path
  | .flushOutbound => do let _ ← manager.flushOutbound
  | .forceFlush rounds => do let _ ← manager.forceFlush rounds
  | .pollInbound => do let _ ← SyncManager.pollInbound
  | .maybeSync => do let _ ← manager.maybeSync
  | .renewLeases => manager.renewLeases
  | .releaseAllLeases => do let _ ← manager.releaseAllLeases

/-- The state of one instance and its history. -/
structure NodeState [EtagScheme] (F : Type) where
  manager : ManagerState
  fs : F
  log : Log F

structure Cluster [EtagScheme] (T F : Type) where
  store : ObjectStore
  now : Nat
  nodes : T → NodeState F

section
variable [EtagScheme] {T F : Type} [DecidableEq T]

def Cluster.view (cluster : Cluster T F) (member : T) : Node F :=
  ⟨⟨cluster.store, cluster.now, (cluster.nodes member).manager, (cluster.nodes member).fs⟩,
    (cluster.nodes member).log⟩

def Cluster.put (cluster : Cluster T F) (member : T) (node : Node F) : Cluster T F :=
  { store := node.state.store
    now := node.state.now
    nodes := Function.update cluster.nodes member ⟨node.state.manager, node.state.fs, node.log⟩ }

def instances : Team T (Node F) (Cluster T F) where
  view member cluster := cluster.view member
  put member cluster node := cluster.put member node
  view_put member cluster node := by simp [Cluster.view, Cluster.put]
  put_view member cluster := by simp [Cluster.view, Cluster.put]

abbrev ClusterConfig (T F : Type) := Config T (Cluster T F) (syncSignature F) Bool

/-- Every instance is about to start, over any store. -/
def Unstarted (config : ClusterConfig T F) : Prop :=
  ∀ member, config.prog member = .done false ∧ (config.shared.nodes member).log = [] ∧
    ∃ now, (config.shared.nodes member).manager = ManagerState.new .empty now

variable [FsBackend F]

/-- How instances of one cluster move. A fresh instance loads from S3 first, and
then takes the permitted calls. -/
def clusterRules (manager : T → SyncManager) (admits : Turn → Prop) (permits : T → Call F → Prop)
    (ambient : ObjectStore → ObjectStore → Prop) : Team.Rules T (Node F) (Cluster T F) (syncSignature F) Bool where
  effect _ := (instanceMachine F admits).traced.effect
  starts member started node p later :=
    later = node ∧
      ((started = false ∧ ∃ fresh : F, p = initServer fresh >>= fun _ => .done true) ∨
        (started = true ∧ ∃ call, permits member call ∧ p = call.task (manager member) >>= fun _ => .done true))
  ambient cluster later :=
    cluster.now ≤ later.now ∧ ambient cluster.store later.store ∧ later.nodes = cluster.nodes

/-! ### Concrete runs -/

/-- What a scheduler does next with one member. -/
inductive Action (F : Type) where
  | launch (call : Call F)
  | perform (count : Nat)

/-- The moves of one action. A member that has not loaded yet loads instead of calling. -/
def Action.moves (manager : T → SyncManager) (fresh : F) (member : T) :
    Action F → List (Team.Move T (Node F) (Cluster T F) Turn (syncSignature F) Bool)
  | .launch call => [.start member fun started node =>
      (if started then call.task (manager member) >>= fun _ => .done true
        else initServer fresh >>= fun _ => .done true, node)]
  | .perform count => List.replicate count (.operate member {})

/-- Follow a script with every request answered truly. -/
def play (manager : T → SyncManager) (fresh : F) (script : List (T × Action F)) (config : ClusterConfig T F) :
    ClusterConfig T F :=
  instances.follow (fun _ => (instanceMachine F Truthful).traced)
    (script.flatMap fun line => line.2.moves manager fresh line.1) config

theorem play_reachable (manager : T → SyncManager) (fresh : F) (script : List (T × Action F))
    (config : ClusterConfig T F) {permits : T → Call F → Prop} (ambient : ObjectStore → ObjectStore → Prop)
    (permitted : ∀ name call, (name, .launch call) ∈ script → permits name call) :
    instances.Reachable (clusterRules manager Truthful permits ambient) config
      (play manager fresh script config) := by
  refine Team.follow_reachable _ config fun move member => ?_
  obtain ⟨⟨name, action⟩, listed, found⟩ := List.mem_flatMap.mp member
  cases action with
  | launch call =>
    rw [List.mem_singleton.mp found]
    rintro (_ | _) node
    · exact ⟨rfl, .inl ⟨rfl, fresh, rfl⟩⟩
    · exact ⟨rfl, .inr ⟨rfl, call, permitted name call listed, rfl⟩⟩
  | perform count =>
    rw [List.eq_of_mem_replicate found]
    exact fun op s => ⟨{}, rfl, rfl⟩

end

/-! A small cluster over the in-memory filesystem. -/

namespace Sample

open scoped ContentEtags

def first : InstanceId := ⟨"0a", by simp⟩

def second : InstanceId := ⟨"0b", by simp⟩

def manager (mode : SyncMode) (id : InstanceId) : SyncManager := ⟨id, ⟨mode, .polling, .local, 0, 0, 8, true, 0, 1000⟩⟩

/-- A store that holds these bodies, written one after the other. -/
def store (bodies : List (String × Bytes)) : ObjectStore :=
  bodies.foldl (fun store body => (store.put body.1 body.2 .none).2) ⟨∅, 0, false⟩

/-- Instances that have not started yet. -/
def cluster {T : Type} (bodies : List (String × Bytes)) : ClusterConfig T MemFs :=
  ⟨⟨store bodies, 0, fun _ => ⟨.new .empty 0, .empty, []⟩⟩, fun _ => .done false⟩

theorem cluster_unstarted {T : Type} (bodies : List (String × Bytes)) : Unstarted (cluster (T := T) bodies) :=
  fun _ => ⟨rfl, rfl, 0, rfl⟩

section
variable {T : Type} [DecidableEq T]

/-- Calls that run to completion one after another. A member's first call loads. -/
def turns (calls : List (T × Call MemFs)) : List (T × Action MemFs) :=
  calls.flatMap fun call => [(call.1, .launch call.2), (call.1, .perform 32)]

def after (manager : T → SyncManager) (bodies : List (String × Bytes)) (calls : List (T × Call MemFs)) :
    ClusterConfig T MemFs :=
  play manager .empty (turns calls) (cluster bodies)

theorem after_reachable (manager : T → SyncManager) (bodies : List (String × Bytes)) (calls : List (T × Call MemFs)) :
    instances.Reachable (clusterRules manager Truthful (fun _ _ => True) fun _ _ => False) (cluster bodies)
      (after manager bodies calls) :=
  play_reachable _ _ _ _ _ fun _ _ _ => trivial

end

end Sample

end MonakaFs.Sync
