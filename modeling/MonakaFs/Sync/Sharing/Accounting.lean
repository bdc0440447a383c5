import MonakaFs.Sync.Sharing.Steps

/-! Lease accounting inside one instance.

An open joins the entry in use, or finds none, creates the lock object and enters
the lease. A close leaves the entry, or marks it, gives the lock object back and
drops it. As long as no two threads find the path unleased at once, each of these
steps keeps the accounting right.
-/

set_option autoImplicit false

namespace MonakaFs.Sync.Sharing

open Async SyncManager
open scoped BigOperators

section
variable [EtagScheme] {T F : Type} {path : String} {id : InstanceId} [Fintype T] {member : T} {s : Host T F}
variable {count : Nat} [DecidableEq T] [FsBackend F]

/-! ### Opening -/

theorem joinHeld_safe (rounds : Nat) (waiting : Waiting path id member count s) :
    (contract path id member).Safe (fun joined t =>
      (joined = true → Settled path id member (count + 1) t) ∧
        (joined = false → Owns path id member count .missed none none t))
      (joinHeld (F := F) path rounds) s := by
  induction rounds generalizing s with
  | zero => exact fun t moves => counted (waiting.rely moves).seat
  | succ rounds ih =>
    simp only [joinHeld, withLeases_bind]
    refine safe_join waiting (fun u leases lease found live settled => ?_)
      (fun u leases lease found releasing waiting => ?_) fun u leases found owns => ?_
    · simp only [found, live]
      exact Contract.safe_done fun v moves => ⟨fun _ => settled.rely moves, fun same => by cases same⟩
    · simp only [found, releasing, if_true, sleep, instant_bind]
      exact safe_waiting trivial waiting fun start v waiting =>
        safe_waiting trivial waiting fun _ w waiting => ih waiting
    · simp only [found]
      exact Contract.safe_done fun v moves =>
        ⟨fun same => (by cases same), fun _ => owns.rely Stage.noConfusion moves⟩

/-- The thread that found the path unleased creates the lock object at its first attempt. -/
theorem acquire_safe (lease timeout : Nat) (owns : Owns path id member count .missed none none s) :
    (contract path id member).Safe (fun result t => ∃ acquired object epoch expires, result = .ok acquired ∧
      object.etag = acquired.lockEtag ∧ object.data = LockRecord.encode ⟨id.text, epoch, expires, path⟩ ∧
      Owns path id member count .missed (some object) none t)
      (acquire (F := F) id path lease timeout) s := by
  simp only [acquire, acquireLoop, attempt, writeRecord, instant_bind, getObject_bind, putObject_bind, Prog.call_bind]
  refine safe_owns Stage.noConfusion (.inl .now) owns fun _ start t _ _ owns => ?_
  refine safe_owns Stage.noConfusion (.inr rfl) owns ?_
  rintro u reply v ⟨turn, truthful, answer⟩ before owns
  rw [act_request truthful] at answer
  have missing : u.state.store.objects.lookup (lockKey path) = none := before.lock
  have answer : reply = .ok none := by rw [answer]; simp [ObjectStore.serve, ObjectStore.get, missing]
  subst answer
  simp only [Prog.bind_assoc, Prog.call_bind]
  refine safe_owns Stage.noConfusion (.inl .now) owns fun _ now w _ _ owns => ?_
  refine safe_owns Stage.noConfusion (.inl .now) owns fun _ start' x _ _ owns => ?_
  refine safe_create owns fun object y written owns => ?_
  exact Contract.safe_done fun z moves =>
    ⟨_, object, 1, _, rfl, rfl, written, owns.rely Stage.noConfusion moves⟩

/-- What an open leaves behind. -/
def Opened (path : String) (id : InstanceId) (member : T) (count : Nat) (result : Except SyncError Unit) (s : Host T F) :
    Prop :=
  Settled path id member (match result with | .ok _ => count + 1 | .error _ => count) s

theorem pinLease_safe (manager : SyncManager) {acquired : Acquired} {object : MemObject} {epoch expires : Nat}
    (tag : object.etag = acquired.lockEtag)
    (written : object.data = LockRecord.encode ⟨id.text, epoch, expires, path⟩)
    (owns : Owns path id member count .missed (some object) none s) :
    (contract path id member).Safe (Opened path id member count) (manager.pinLease (F := F) path acquired) s := by
  simp only [pinLease, withLeases_bind]
  -- nobody entered the lease in the meantime
  refine Contract.safe_call fun t moves => ?_
  have owns := owns.rely Stage.noConfusion moves
  refine ⟨counted owns.seat, fun leases u effect => ?_⟩
  have missing : t.entry path = none := Option.map_eq_none_iff.mp owns.part
  obtain ⟨answer, entry, lock, store, -⟩ := alter_effect effect
  rw [missing] at answer entry
  have same : Same path t u := ⟨by rw [store], lock, by rw [missing, entry]; rfl⟩
  obtain ⟨guarantee, inv, seat⟩ := owns.inv.ordinary effect same (by rw [missing, entry, owns.seat]; rfl)
  refine ⟨guarantee, ?_⟩
  have owns := owns.same inv same seat
  simp only [answer, Option.isSome_none, Bool.false_eq_true, if_false]
  refine ((keeps_owns Stage.noConfusion).safe ((leaseBase_data manager path).mono fun _ => .inl) owns).bind
    fun base v owns => ?_
  rcases base with e | base
  · exact (release_missed tag owns).bind fun _ w settled => Contract.safe_done fun x moves => settled.rely moves
  · refine Contract.safe_call fun w moves => ?_
    have owns := owns.rely Stage.noConfusion moves
    refine ⟨counted owns.seat, fun leases x effect => ?_⟩
    have missing : w.entry path = none := Option.map_eq_none_iff.mp owns.part
    obtain ⟨-, entry, lock, -⟩ := leases_effect effect
    rw [Map.lookup_insert_eq, if_pos rfl] at entry
    have others := owns.inv.others_out member (.inl (by rw [owns.seat]; exact Stage.noConfusion))
    obtain ⟨guarantee, inv, seat⟩ := owns.inv.special ⟨count, count + 1, .out⟩ effect others
      (by rw [owns.seat, missing, entry]; simp [Seat.advance, Stage.next, references, newLease])
      (by show (0 : Int) ≤ (count : Int) + 1; omega)
      (.inr ⟨_, entry, Nat.le_refl 1, rfl, object, epoch, expires, lock.trans owns.lock, tag, written⟩)
    refine ⟨guarantee, Contract.safe_done fun y moves => ?_⟩
    exact Settled.rely ⟨inv, by rw [seat]; push_cast; rfl, by rw [seat]⟩ moves

theorem openTask_safe {manager : SyncManager} (identity : manager.instanceId = id)
    (locking : manager.config.fileLock = true) (rounds : Nat) (waiting : Waiting path id member count s) :
    (contract path id member).Safe (fun held t => Settled path id member held t)
      (openTask (F := F) path manager rounds count) s := by
  have opened : (contract path id member).Safe (Opened path id member count)
      (manager.onOpenWrite (F := F) rounds path) s := by
    simp only [onOpenWrite, locking, Bool.true_eq_false, if_false]
    refine (joinHeld_safe rounds waiting).bind fun joined t done => ?_
    cases joined with
    | true => exact Contract.safe_done fun u moves => (done.1 rfl).rely moves
    | false =>
      rw [identity]
      refine (acquire_safe _ _ (done.2 rfl)).bind fun result u acquired => ?_
      obtain ⟨acquired, object, epoch, expires, rfl, tag, written, owns⟩ := acquired
      exact pinLease_safe manager tag written owns
  exact opened.bind fun result t settled => Contract.safe_done fun u moves => settled.rely moves

/-! ### Closing -/

theorem finishRelease_safe (manager : SyncManager) {object : MemObject} {lease : WriteLease}
    (tag : object.etag = lease.lockEtag) (once : lease.refcount = 1)
    (owns : Owns path id member count .releasing (some object) (some (lockPart lease)) s) :
    (contract path id member).Safe (fun _ t => Settled path id member (count - 1) t)
      (manager.finishRelease (F := F) path lease) s := by
  unfold finishRelease
  refine ((keeps_owns Stage.noConfusion).safe ((flushLease_data manager path lease).mono fun _ => .inl) owns).bind
    fun result t owns => ?_
  refine (release_releasing (lockPart lease) tag owns).bind fun _ u owns => ?_
  refine Contract.safe_call fun v moves => ?_
  have owns := owns.rely Stage.noConfusion moves
  refine ⟨counted owns.seat, fun leases w effect => ?_⟩
  obtain ⟨before, present, part⟩ := Option.map_eq_some_iff.mp owns.part
  obtain ⟨-, entry, lock, -⟩ := leases_effect effect
  rw [Map.lookup_erase_eq, if_pos rfl] at entry
  have others := owns.inv.others_out member (.inl (by rw [owns.seat]; exact Stage.noConfusion))
  have credit := (owns.inv.releasing member (by rw [owns.seat])).2
  rw [owns.seat] at credit
  have single : before.refcount = 1 := (lockPart_refcount part).trans once
  obtain ⟨guarantee, inv, seat⟩ := owns.inv.special ⟨count, count - 1, .out⟩ effect others
    (by rw [owns.seat, present, entry]; simp [Seat.advance, Stage.next, references, single])
    (by show (0 : Int) ≤ (count : Int) - 1; simp only at credit; omega) (.inl ⟨entry, lock.trans owns.lock⟩)
  refine ⟨guarantee, Contract.safe_done fun x moves => ?_⟩
  exact Settled.rely ⟨inv, by rw [seat]; show (count : Int) - 1 = _; simp only at credit; omega, by rw [seat]⟩ moves

theorem closeTask_safe (manager : SyncManager) (positive : 0 < count) (waiting : Waiting path id member count s) :
    (contract path id member).Safe (fun held t => Settled path id member held t)
      (closeTask (F := F) path manager count) s := by
  simp only [closeTask, onClose, withLeases_bind, Prog.call_bind]
  refine Contract.safe_call fun t moves => ?_
  have waiting := waiting.rely moves
  refine ⟨counted waiting.seat, fun leases u effect => ?_⟩
  obtain ⟨answer, entry, lock, store, -⟩ := alter_effect effect
  have seat := waiting.seat
  have mine : 1 ≤ (t.seats member).credit := by rw [seat]; show (1 : Int) ≤ count; omega
  cases found : t.entry path with
  | none =>
    -- the entry counts this thread's own opens
    have credited := waiting.inv.credit_le member
    simp only [found, references, Option.map_none, Option.getD_none] at credited
    omega
  | some lease =>
    rw [found] at answer entry
    have live : lease.releasing = false := by
      by_contra marked
      rw [Bool.not_eq_false] at marked
      obtain ⟨once, other, stage⟩ := waiting.inv.closing lease found marked
      have different : member ≠ other := by
        rintro rfl
        rw [seat] at stage
        cases stage
      have pair := waiting.inv.pair_le different
      have theirs := (waiting.inv.releasing other stage).2
      rw [found, references, Option.map_some, Option.getD_some, once] at pair
      omega
    have others := waiting.inv.others_out member (.inr ⟨lease, found, live⟩)
    have used := waiting.inv.used lease found
    simp only [answer]
    by_cases more : lease.refcount > 1
    · -- others still use the lease
      simp only [more, if_true]
      rw [Option.map_some, closeEntry, if_pos more] at entry
      obtain ⟨guarantee, inv, seat'⟩ := waiting.inv.special ⟨count, count - 1, .out⟩ effect others
        (by rw [seat, found, entry]; simp [Seat.advance, Stage.next, references, live]; omega)
        (by rw [seat] at mine; show (0 : Int) ≤ (count : Int) - 1; omega)
        (.inr ⟨_, entry, by simp only; omega, live, by rw [lock]; exact waiting.inv.guarded lease found live⟩)
      refine ⟨guarantee, Contract.safe_done fun v moves => ?_⟩
      exact Settled.rely ⟨inv, by rw [seat']; show (count : Int) - 1 = _; omega, by rw [seat']⟩ moves
    · -- the last one marks the entry, pushes what is pending and gives the lease back
      have once : lease.refcount = 1 := by omega
      simp only [more, if_false]
      rw [Option.map_some, closeEntry, if_neg more] at entry
      obtain ⟨object, epoch, expires, present, tag, written⟩ := waiting.inv.guarded lease found live
      obtain ⟨guarantee, inv, seat'⟩ := waiting.inv.special ⟨count, count, .releasing⟩ effect others
        (by rw [seat, found, entry]; simp [Seat.advance, Stage.next, references, live])
        (Int.natCast_nonneg count)
        ⟨⟨_, entry, once, rfl⟩, by rw [seat] at mine; exact mine⟩
      refine ⟨guarantee, ?_⟩
      have owns : Owns path id member count .releasing (some object)
          (some (lockPart { lease with releasing := true })) u :=
        ⟨inv, seat', lock.trans present, by rw [entry]; rfl⟩
      refine Contract.Safe.bind (finishRelease_safe manager tag once owns) fun result v settled =>
        Contract.safe_done fun w moves => settled.rely moves

/-! ### Every interleaving -/

omit [FsBackend F] [Fintype T] in
theorem settle_other {other : T} (different : other ≠ member) :
    (s.settle member count).seats other = s.seats other := Function.update_of_ne different ..

omit [FsBackend F] in
theorem Inv.settle (inv : Inv path id s) : Inv path id (s.settle member count) := by
  have mine : (s.settle member count).seats member = { s.seats member with held := count } := Function.update_self ..
  refine inv.reseated rfl (fun each => ?_) (fun each => ?_)
  · by_cases same : each = member
    · rw [same, mine]
    · rw [settle_other same]
  · by_cases same : each = member
    · rw [same, mine]
    · rw [settle_other same]

omit [FsBackend F] in
theorem Settled.settle (settled : Settled path id member count s) :
    Waiting path id member count (s.settle member count) := by
  refine ⟨settled.inv.settle, ?_⟩
  show Function.update s.seats member _ member = _
  rw [Function.update_self, ← settled.credit, ← settled.stage]

theorem fits (path : String) {manager : SyncManager} (identity : manager.instanceId = id) (locking : manager.config.fileLock = true) :
    (threads (F := F) (T := T)).Fits (hostRules path manager Alone) (Inv path id) (contract path id)
      (fun member count s => Settled path id member count s) where
  effect _ := rfl
  kept _ _ _ _ _ inv _ guarantee := (guarantee inv).1
  others member op s reply u inv effect guarantee other different := by
    obtain ⟨turn, -, -, -, seats, -⟩ := host_effect (show (contract path id member).effect op _ reply u from effect)
    obtain ⟨inv', same⟩ := guarantee inv
    exact ⟨(congrFun seats other).trans (Function.update_of_ne different ..), fun _ => ⟨inv', same other different⟩⟩
  ambient_kept s u inv moved := inv.same moved.2 moved.1
  ambient s u inv moved member := ⟨congrFun moved.1 member, fun _ => ⟨inv.same moved.2 moved.1, fun _ => moved.2⟩⟩
  starts member count s p u settled starts := by
    obtain ⟨rfl, ⟨rounds, rfl⟩ | ⟨positive, rfl⟩⟩ := starts
    · exact openTask_safe identity locking rounds settled.settle
    · exact closeTask_safe manager positive settled.settle
  starts_kept member count s p u inv settled starts := by
    obtain ⟨rfl, -⟩ := starts
    exact inv.settle
  starts_others member count s p u inv starts other different := by
    obtain ⟨rfl, -⟩ := starts
    exact ⟨settle_other different, fun _ => ⟨inv.settle, fun _ => ⟨rfl, rfl, rfl⟩⟩⟩

theorem sound_start {manager : SyncManager} {first : HostConfig T F} (untouched : Untouched path first) :
    (threads (F := F) (T := T)).Sound (Inv path manager.instanceId) (contract path manager.instanceId)
      (fun member count s => Settled path manager.instanceId member count s) first := by
  obtain ⟨fresh, missing, free, conditional⟩ := untouched
  have idle (member : T) : (first.shared.seats member).stage = .out := by rw [(fresh member).2]
  have inv : Inv path manager.instanceId first.shared := by
    constructor
    · exact conditional
    · rw [missing, Finset.sum_eq_zero fun member _ => by rw [(fresh member).2]]; rfl
    · intro member; rw [(fresh member).2]
    · intro lease found; rw [missing] at found; cases found
    · intro lease found; rw [missing] at found; cases found
    · intro lease found; rw [missing] at found; cases found
    · exact fun _ _ => free
    · intro member stage; rw [idle] at stage; cases stage
    · intro member stage; rw [idle] at stage; cases stage
  refine ⟨inv, fun member => ?_⟩
  rw [(fresh member).1]
  exact Contract.safe_done fun t moves =>
    Settled.rely ⟨inv, congrArg Seat.credit (fresh member).2, idle member⟩ moves

/-- While a thread waits its references are the opens it held when its call began,
and when it returned they are the opens it holds now. -/
theorem credit_opens {manager : SyncManager} {config : HostConfig T F}
    (sound : (threads (F := F) (T := T)).Sound (Inv path manager.instanceId) (contract path manager.instanceId)
      (fun member count s => Settled path manager.instanceId member count s) config) (member : T) :
    (config.shared.seats member).credit = opens config member := by
  have safe := sound.2 member
  cases here : config.prog member with
  | done count =>
    rw [here] at safe
    rw [opens, here]
    exact (safe _ ((contract path manager.instanceId member).rely_refl _)).credit
  | halt =>
    rw [here] at safe
    rw [opens, here]
    exact safe _ ((contract path manager.instanceId member).rely_refl _)
  | call op next =>
    rw [here] at safe
    rw [opens, here]
    exact (safe _ ((contract path manager.instanceId member).rely_refl _)).1

end

/-! ### Concrete runs -/

section
open scoped ContentEtags

def sampleManager : SyncManager := Sample.manager .batch Sample.first

def sampleHost {T : Type} : HostConfig T MemFs :=
  ⟨⟨⟨Sample.store [], 0, .new .empty 0, .empty⟩, fun _ => ⟨0, 0, .out⟩⟩, fun _ => .done 0⟩

theorem sampleHost_untouched {T : Type} : Untouched "/a" (sampleHost (T := T)) :=
  ⟨fun _ => ⟨rfl, rfl⟩, rfl, rfl, rfl⟩

variable {T : Type} [DecidableEq T]

/-- A thread opens the path, or performs so many operations of its call. -/
def opening (member : T) : Team.Move T (Host T MemFs) (Host T MemFs) Turn (syncSignature MemFs) Nat :=
  .start member fun count s => (openTask "/a" sampleManager 1 count, s.settle member count)

def closing (member : T) : Team.Move T (Host T MemFs) (Host T MemFs) Turn (syncSignature MemFs) Nat :=
  .start member fun count s =>
    (if 0 < count then closeTask "/a" sampleManager count else openTask "/a" sampleManager 1 count, s.settle member count)

def performing (member : T) (count : Nat) :
    List (Team.Move T (Host T MemFs) (Host T MemFs) Turn (syncSignature MemFs) Nat) :=
  List.replicate count (.operate member {})

abbrev Schedule (T : Type) := List (Team.Move T (Host T MemFs) (Host T MemFs) Turn (syncSignature MemFs) Nat)

def share (schedule : Schedule T) : HostConfig T MemFs :=
  threads.follow (hostMachine "/a") schedule sampleHost

variable {allows : T → Host T MemFs → Prop}

theorem opening_allowed (member : T) :
    Team.Allowed (hostRules "/a" sampleManager allows) (hostMachine "/a") (opening member) :=
  fun _ _ => ⟨rfl, .inl ⟨1, rfl⟩⟩

theorem closing_allowed (member : T) :
    Team.Allowed (hostRules "/a" sampleManager allows) (hostMachine "/a") (closing member) := by
  intro count s
  refine ⟨rfl, ?_⟩
  by_cases held : 0 < count
  · exact .inr ⟨held, if_pos held⟩
  · exact .inl ⟨1, if_neg held⟩

theorem performing_allowed (always : ∀ member s, allows member s) {member : T} {count : Nat}
    {next : Team.Move T (Host T MemFs) (Host T MemFs) Turn (syncSignature MemFs) Nat}
    (listed : next ∈ performing member count) :
    Team.Allowed (hostRules "/a" sampleManager allows) (hostMachine "/a") next := by
  rw [List.eq_of_mem_replicate listed]
  exact fun op s => ⟨⟨{}, rfl, rfl⟩, always member _⟩

/-- Two threads find the path unleased. The second one's create is rejected, but the
record it reads back names its own instance, and its entry replaces the first one's. -/
def raced : HostConfig Bool MemFs :=
  share ([opening false, opening true] ++ performing true 3 ++ performing false 6 ++ performing true 5 ++
    performing false 20 ++ performing true 20)

end

end MonakaFs.Sync.Sharing
