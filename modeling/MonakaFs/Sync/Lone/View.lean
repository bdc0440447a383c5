import MonakaFs.Sync.Agreement

/-! One file of one instance that nobody else touches.

Every request is answered, and the surroundings leave alone what belongs to the file:
its object, its local bytes, and what the cache, the leases and the queue hold for it.
Whatever the instance does to another file leaves them alone as well.
-/

set_option autoImplicit false

namespace MonakaFs.Sync.Lone

open Async SyncManager LawfulBackend

/-- All that belongs to one file. -/
structure View [EtagScheme] where
  object : Option MemObject
  cached : Option String
  lease : Option WriteLease
  bytes : Option Bytes
  queued : List SyncOperation

section
variable [EtagScheme] {F : Type} [LawfulBackend F] (path : String)

def ops (queue : List SyncOperation) : List SyncOperation := queue.filter (·.path = path)

def view (s : Snapshot F) : View where
  object := object path s
  cached := s.manager.metadataCache.etag path
  lease := s.manager.leases.lookup path
  bytes := content s.fs path
  queued := ops path s.manager.outboundQueue

/-- No other path is queued that names the same object. -/
def Tidy (queue : List SyncOperation) : Prop := ∀ op ∈ queue, op.path ≠ path → fileKey op.path ≠ fileKey path

/-- A store that takes conditional deletes, and a file in it. -/
structure Seen (v : View) (s : Snapshot F) : Prop where
  view : view path s = v
  conditional : s.store.rejectConditionalDelete = false
  tidy : Tidy path s.manager.outboundQueue

/-- Nothing of the file changes. -/
structure Around (s t : Snapshot F) : Prop where
  view : view path t = view path s
  conditional : t.store.rejectConditionalDelete = s.store.rejectConditionalDelete
  tidy : Tidy path s.manager.outboundQueue → Tidy path t.manager.outboundQueue

def around : Surroundings F where
  moves := Around path
  refl _ := ⟨rfl, rfl, id⟩
  trans first second := ⟨second.view.trans first.view, second.conditional.trans first.conditional,
    fun tidy => second.tidy (first.tidy tidy)⟩

abbrev alone : Contract (syncSignature F) (Node F) := runs Truthful (around path)

end

/-- Another file, locally and in the store. -/
structure Apart (path other : String) : Prop where
  name : other ≠ path
  key : fileKey other ≠ fileKey path

/-- An operation that changes nothing of a file. -/
def Op.Rests {F : Type} (path : String) : Op F → Prop
  | .request r => r.writes ≠ some (fileKey path)
  | .queue change => ∀ queue, ops path (change queue) = ops path queue ∧ (Tidy path queue → Tidy path (change queue))
  | .cache change => ∀ cache, (change cache).etag path = cache.etag path
  | .leases change => ∀ table, AList.lookup path (change table) = table.lookup path
  | .fs (.writeFileContent other _) | .fs (.unlink other) => other ≠ path
  | .fs (.loadFile ..) | .app _ => False
  | _ => True

abbrev Resting {F A : Type} (path : String) (task : Task F A) : Prop := task.Only (I := syncSignature F) (Op.Rests path)

section
variable {F : Type} {path other : String}

theorem quiet_rests (op : Op F) (quiet : op.Quiet) : Op.Rests path op := by
  cases op with
  | request r => exact locking_other quiet path
  | now | wake | jitter | arrange => trivial
  | queue | cache | leases | schedule | fs | app => exact quiet.elim

theorem looks_rests (op : Op F) (looks : op.Looks) : Op.Rests path op := by
  cases op with
  | request r =>
    intro same
    rw [show r.writes = none from looks] at same
    cases same
  | queue | cache | leases | schedule | now | wake | jitter | fs | arrange | app => exact looks.elim

theorem alter_rests (different : other ≠ path) (change : WriteLease → WriteLease) :
    Op.Rests (F := F) path (.leases (·.alter other change)) := fun table => by
  rw [Map.lookup_alter, if_neg (Ne.symm different)]

theorem transfers_rests (apart : Apart path other) {deletes : Prop} (op : Op F) (transfers : op.Transfers deletes other) :
    Op.Rests path op := by
  cases transfers with
  | @look r looks =>
    intro same
    rw [looks] at same
    cases same
  | put | delete => exact fun same => apart.key (Option.some.inj same)
  | forget => exact fun cache => (MetadataCache.etag_remove ..).trans (if_neg (Ne.symm apart.name))
  | uploaded => exact fun cache => (MetadataCache.etag_updateAfterUpload ..).trans (if_neg (Ne.symm apart.name))
  | downloaded => exact fun cache => (MetadataCache.etag_updateAfterDownload ..).trans (if_neg (Ne.symm apart.name))
  | pin | unpin => exact alter_rests apart.name _
  | readCache | readLeases => exact fun _ => rfl
  | write => exact apart.name
  | now | read | stat => trivial

theorem ops_other (op : SyncOperation) (queue : List SyncOperation) (other : op.path ≠ path) :
    ops path (queue ++ [op]) = ops path queue := by simp [ops, other]

theorem ops_own (op : SyncOperation) (queue : List SyncOperation) (own : op.path = path) :
    ops path (queue.filter (·.path ≠ path) ++ [op]) = [op] := by
  simp [ops, own, List.filter_filter]

theorem Tidy.filter {queue : List SyncOperation} (tidy : Tidy path queue) (keep : SyncOperation → Bool) :
    Tidy path (queue.filter keep) := fun op member => tidy op (List.mem_filter.mp member).1

theorem Tidy.tail {queue : List SyncOperation} (tidy : Tidy path queue) : Tidy path queue.tail :=
  fun op member => tidy op (List.mem_of_mem_tail member)

theorem Tidy.append {queue : List SyncOperation} {op : SyncOperation} (tidy : Tidy path queue)
    (named : op.path ≠ path → fileKey op.path ≠ fileKey path) : Tidy path (queue ++ [op]) := by
  intro other member
  rcases List.mem_append.mp member with old | new
  · exact tidy other old
  · rw [List.mem_singleton.mp new]
    exact named

theorem ops_filter (different : other ≠ path) (queue : List SyncOperation) :
    ops path (queue.filter (·.path ≠ other)) = ops path queue := by
  rw [ops, List.filter_filter]
  refine List.filter_congr fun op _ => ?_
  by_cases own : op.path = path
  · simp [own, Ne.symm different]
  · simp [own]

end

section
variable [EtagScheme] {F A : Type} [LawfulBackend F] {path : String} {v : View} {s : Node F} {post : A → Node F → Prop}

theorem Seen.moves {s t : Snapshot F} (seen : Seen path v s) (moves : (around path).moves s t) : Seen path v t :=
  ⟨moves.view.trans seen.view, moves.conditional.trans seen.conditional, moves.tidy seen.tidy⟩

theorem rests_step {op : Op F} (rests : Op.Rests path op) {turn : Turn} (truthful : Truthful turn) {t : Snapshot F}
    (seen : Seen path v t) : Seen path v (t.act turn op).2 := by
  refine ⟨Eq.trans ?_ seen.view, ?_, ?_⟩
  · cases op with
    | request r =>
      rw [act_request truthful]
      exact congrArg (fun object => { view path t with object := object }) (ObjectStore.serve_other rests)
    | queue change => exact congrArg (fun queued => { view path t with queued := queued }) (rests _).1
    | cache change => exact congrArg (fun cached => { view path t with cached := cached }) (rests _)
    | leases change => exact congrArg (fun lease => { view path t with lease := lease }) (rests _)
    | app => exact rests.elim
    | schedule | now | wake | jitter | arrange => rfl
    | fs call =>
      have bytes (same : content (call.run t.fs).2 path = content t.fs path) :
          view path (t.act turn (.fs call)).2 = view path t :=
        congrArg (fun bytes => { view path t with bytes := bytes }) same
      have leaves : call.Leaves path := by cases call <;> exact rests
      exact bytes (leaves.content t.fs)
  · cases op with
    | request r =>
      rw [act_request truthful]
      exact (ObjectStore.serve_rejects ..).trans seen.conditional
    | queue | cache | leases | app | schedule | now | wake | jitter | arrange | fs => exact seen.conditional
  · cases op with
    | queue change => exact (rests _).2 seen.tidy
    | request | cache | leases | app | schedule | now | wake | jitter | arrange | fs => exact seen.tidy

theorem keeps_seen : (alone (F := F) path).Keeps (fun t => Seen path v t.state) (Op.Rests path) where
  stable seen moves := seen.moves moves.2
  waits _ := trivial
  step rests seen effect := by
    obtain ⟨⟨turn, truthful, -, later⟩, -⟩ := node_effect effect
    exact ⟨trivial, later ▸ rests_step rests truthful seen⟩

theorem resting_safe {task : Task F A} (resting : Resting path task) (seen : Seen path v s.state) :
    (alone path).Safe (fun _ t => Seen path v t.state) task s := keeps_seen.safe resting seen

theorem return_seen {value : A} (seen : Seen path v s.state) (holds : ∀ t : Node F, Seen path v t.state → post value t) :
    (alone path).Safe post (.done value) s := safe_return fun _ moves => holds _ (seen.moves moves)

/-- An operation that changes nothing of the file. -/
theorem rests_next (op : Op F) {k : op.Reply → Task F A} (rests : Op.Rests path op) (seen : Seen path v s.state)
    (rest : ∀ (t : Snapshot F) turn (u : Node F), Truthful turn → Seen path v t → Seen path v u.state →
      (alone path).Safe post (k (Snapshot.act turn op t).1) u) : (alone path).Safe post (next op k) s := by
  refine safe_next ?_
  rintro t reply u moves ⟨turn, truthful, answer, later⟩
  have seen := seen.moves moves
  rw [answer]
  exact rest t turn ⟨u, _⟩ truthful seen (later ▸ rests_step rests truthful seen)

/-! ### The operations on the file -/

theorem queue_next {change : List SyncOperation → List SyncOperation} {k : List SyncOperation → Task F A}
    (tidies : ∀ queue, Tidy path queue → Tidy path (change queue)) (seen : Seen path v s.state) (rest : ∀ queue (u : Node F), ops path queue = v.queued →
      Seen path { v with queued := ops path (change queue) } u.state → (alone path).Safe post (k queue) u) :
    (alone path).Safe post (next (.queue change) k) s := by
  refine safe_next ?_
  rintro t reply u moves ⟨turn, truthful, answer, later⟩
  have seen := seen.moves moves
  subst answer later
  refine rest t.manager.outboundQueue ⟨_, _⟩ (by rw [← seen.view]; rfl) ⟨?_, seen.conditional, tidies _ seen.tidy⟩
  rw [← seen.view]
  rfl

theorem queue_look {k : List SyncOperation → Task F A} (seen : Seen path v s.state)
    (rest : ∀ queue (u : Node F), ops path queue = v.queued → Seen path v u.state → (alone path).Safe post (k queue) u) :
    (alone path).Safe post (next (.queue id) k) s := by
  refine queue_next (fun _ => id) seen fun queue u known seen => rest queue u known ?_
  rw [show ops path (id queue) = v.queued from known] at seen
  exact seen

theorem cache_next {change : MetadataCache → MetadataCache} {k : MetadataCache → Task F A} {after : Option String}
    (changes : ∀ cache : MetadataCache, cache.etag path = v.cached → (change cache).etag path = after)
    (seen : Seen path v s.state) (rest : ∀ cache (u : Node F), MetadataCache.etag cache path = v.cached →
      Seen path { v with cached := after } u.state → (alone path).Safe post (k cache) u) :
    (alone path).Safe post (next (.cache change) k) s := by
  refine safe_next ?_
  rintro t reply u moves ⟨turn, truthful, answer, later⟩
  have seen := seen.moves moves
  have known : t.manager.metadataCache.etag path = v.cached := by rw [← seen.view]; rfl
  subst answer later
  refine rest t.manager.metadataCache ⟨_, _⟩ known ⟨?_, seen.conditional, seen.tidy⟩
  rw [← seen.view, ← changes _ known]
  rfl

theorem leases_next {change : LeaseTable → LeaseTable} {k : LeaseTable → Task F A} {after : Option WriteLease}
    (changes : ∀ table : LeaseTable, table.lookup path = v.lease → (change table).lookup path = after)
    (seen : Seen path v s.state) (rest : ∀ table (u : Node F), AList.lookup path table = v.lease →
      Seen path { v with lease := after } u.state → (alone path).Safe post (k table) u) :
    (alone path).Safe post (next (.leases change) k) s := by
  refine safe_next ?_
  rintro t reply u moves ⟨turn, truthful, answer, later⟩
  have seen := seen.moves moves
  have known : t.manager.leases.lookup path = v.lease := by rw [← seen.view]; rfl
  subst answer later
  refine rest t.manager.leases ⟨_, _⟩ known ⟨?_, seen.conditional, seen.tidy⟩
  rw [← seen.view, ← changes _ known]
  rfl

theorem alter_next {change : WriteLease → WriteLease} {k : LeaseTable → Task F A}
    (seen : Seen path v s.state) (rest : ∀ table (u : Node F), AList.lookup path table = v.lease →
      Seen path { v with lease := v.lease.map change } u.state → (alone path).Safe post (k table) u) :
    (alone path).Safe post (next (.leases (·.alter path change)) k) s :=
  leases_next (fun table known => by rw [Map.lookup_alter, if_pos rfl, known]) seen rest

theorem app_next {change : F → F} {k : F → Task F A} (seen : Seen path v s.state)
    (rest : ∀ fs (u : Node F), content fs path = v.bytes → Seen path { v with bytes := content (change fs) path } u.state →
      (alone path).Safe post (k fs) u) : (alone path).Safe post (next (.app change) k) s := by
  refine safe_next ?_
  rintro t reply u moves ⟨turn, truthful, answer, later⟩
  have seen := seen.moves moves
  subst answer later
  refine rest t.fs ⟨_, _⟩ (by rw [← seen.view]; rfl) ⟨?_, seen.conditional, seen.tidy⟩
  rw [← seen.view]
  rfl

/-- A local filesystem where reading this content of the file fails. -/
def Unreadable (F : Type) [LawfulBackend F] (path : String) (bytes : Option Bytes) : Prop :=
  ∃ (fs : F) (e : S3Error), content fs path = bytes ∧ (readFileContent path fs).1 = .error e

/-- The local file is read, or the call fails. -/
theorem read_next {k : Except S3Error Bytes → Task F A} (seen : Seen path v s.state)
    (failed : ∀ e (u : Node F), Unreadable F path v.bytes → Seen path v u.state → (alone path).Safe post (k (.error e)) u)
    (read : ∀ body (u : Node F), v.bytes = some body → Seen path v u.state → (alone path).Safe post (k (.ok body)) u) :
    (alone path).Safe post (next (.fs (.readFileContent path)) k) s := by
  refine rests_next (.fs (.readFileContent path)) trivial seen fun t turn u _ before seen => ?_
  show (alone path).Safe post (k (readFileContent path t.fs).1) u
  cases returned : (readFileContent path t.fs).1 with
  | error e => exact failed e u ⟨t.fs, e, by rw [← before.view]; rfl, returned⟩ seen
  | ok body => exact read body u (by rw [← before.view]; exact read_ok returned) seen

/-- The local file is replaced, or the call fails. -/
theorem write_next {body : Bytes} {k : Except S3Error Unit → Task F A} (seen : Seen path v s.state)
    (failed : ∀ e (u : Node F), Seen path v u.state → (alone path).Safe post (k (.error e)) u)
    (wrote : ∀ u : Node F, Seen path { v with bytes := some body } u.state → (alone path).Safe post (k (.ok ())) u) :
    (alone path).Safe post (next (.fs (.writeFileContent path body)) k) s := by
  refine safe_next ?_
  rintro t reply u moves ⟨turn, truthful, answer, later⟩
  have seen := seen.moves moves
  have after (bytes : Option Bytes) (same : content (writeFileContent path body t.fs).2 path = bytes) :
      Seen path { v with bytes := bytes } u := by
    subst later
    refine ⟨?_, seen.conditional, seen.tidy⟩
    rw [← seen.view, ← same]
    rfl
  cases outcome : (writeFileContent path body t.fs).1 with
  | error e =>
    obtain rfl : reply = Except.error e := answer.trans outcome
    refine failed e ⟨u, _⟩ (after v.bytes ?_)
    rw [write_error outcome, ← seen.view]
    rfl
  | ok _ =>
    obtain rfl : reply = Except.ok () := answer.trans outcome
    refine wrote ⟨u, _⟩ (after (some body) ?_)
    rw [write_ok outcome, Function.update_self]

/-- A request that only looks is answered. -/
theorem look_next {r : Request} {k : r.Answer → Task F A} (looks : r.writes = none) (seen : Seen path v s.state)
    (rest : ∀ value (u : Node F), Seen path v u.state → (alone path).Safe post (k (.ok value)) u) :
    (alone path).Safe post (next (.request r) k) s := by
  refine rests_next (.request r) (looks_rests (.request r) looks) seen fun t turn u truthful _ seen => ?_
  rw [act_request truthful]
  cases r with
  | list | head | get => exact rest _ u seen
  | put | delete => cases looks

theorem head_next {k : Except S3Error (Option ObjectMeta) → Task F A} (seen : Seen path v s.state)
    (missing : ∀ u : Node F, v.object = none → Seen path v u.state → (alone path).Safe post (k (.ok none)) u)
    (found : ∀ version (u : Node F), v.object = some version → Seen path v u.state →
      (alone path).Safe post (k (.ok (some (version.meta (fileKey path))))) u) :
    (alone path).Safe post (next (.request (.head (fileKey path))) k) s := by
  refine rests_next (.request (.head (fileKey path))) nofun seen fun t turn u truthful before seen => ?_
  rw [act_request truthful]
  have there : t.store.objects.lookup (fileKey path) = v.object := by rw [← before.view]; rfl
  show (alone path).Safe post (k (.ok (t.store.head (fileKey path)))) u
  rw [ObjectStore.head, there]
  cases stored : v.object with
  | none => exact missing u stored seen
  | some version => exact found version u stored seen

end
end MonakaFs.Sync.Lone
