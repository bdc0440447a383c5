import MonakaFs.Sync.Sharing.Host

/-! The invariant of threads that share one instance.

A thread that acquires or gives back the lease owns the lock object and the lease
entry: nobody else touches either. All other threads only count themselves into
and out of an entry that is in use.
-/

set_option autoImplicit false

namespace MonakaFs.Sync.Sharing

open Async
open scoped BigOperators

theorem lockPart_refcount {one other : WriteLease} (same : lockPart one = lockPart other) :
    one.refcount = other.refcount := congrArg (fun lease => lease.refcount) same

theorem lockPart_releasing {one other : WriteLease} (same : lockPart one = lockPart other) :
    one.releasing = other.releasing := congrArg (fun lease => lease.releasing) same

theorem lockPart_lockEtag {one other : WriteLease} (same : lockPart one = lockPart other) :
    one.lockEtag = other.lockEtag := congrArg (fun lease => lease.lockEtag) same

section
variable [EtagScheme] {T F : Type} (path : String) (id : InstanceId)

/-- The lock object is this instance's record with a given ETag. -/
def Guarded (lockEtag : String) (lock : Option MemObject) : Prop :=
  ∃ object epoch expires, lock = some object ∧ object.etag = lockEtag ∧
    object.data = LockRecord.encode ⟨id.text, epoch, expires, path⟩

structure Inv [Fintype T] (s : Host T F) : Prop where
  conditional : s.state.store.rejectConditionalDelete = false
  counts : (references (s.entry path) : Int) = ∑ member, (s.seats member).credit
  credits : ∀ member, 0 ≤ (s.seats member).credit
  used : ∀ lease, s.entry path = some lease → 1 ≤ lease.refcount
  guarded : ∀ lease, s.entry path = some lease → lease.releasing = false →
    Guarded path id lease.lockEtag (s.lock path)
  closing : ∀ lease, s.entry path = some lease → lease.releasing = true →
    lease.refcount = 1 ∧ ∃ member, (s.seats member).stage = .releasing
  free : s.entry path = none → (∀ member, (s.seats member).stage ≠ .missed) → s.lock path = none
  missed : ∀ member, (s.seats member).stage = .missed →
    s.entry path = none ∧ ∀ other, (s.seats other).stage = .missed → other = member
  releasing : ∀ member, (s.seats member).stage = .releasing →
    (∃ lease, s.entry path = some lease ∧ lease.releasing = true) ∧ 1 ≤ (s.seats member).credit

variable {path id} {s t u : Host T F}

theorem Same.refl (s : Host T F) : Same path s s := ⟨rfl, rfl, rfl⟩

theorem Same.trans (first : Same path s t) (second : Same path t u) : Same path s u :=
  ⟨second.conditional.trans first.conditional, second.lock.trans first.lock, second.entry.trans first.entry⟩

theorem Same.none (same : Same path s t) : t.entry path = none ↔ s.entry path = none := by
  rw [← Option.map_eq_none_iff, same.entry, Option.map_eq_none_iff]

theorem Same.some (same : Same path s t) {lease : WriteLease} (found : t.entry path = some lease) :
    ∃ before, s.entry path = some before ∧ lockPart before = lockPart lease := by
  have parts := same.entry
  rw [found, Option.map_some] at parts
  obtain ⟨before, present, equal⟩ := Option.map_eq_some_iff.mp parts.symm
  exact ⟨before, present, equal⟩

theorem Same.references (same : Same path s t) : references (t.entry path) = references (s.entry path) := by
  cases found : t.entry path with
  | none => rw [same.none.mp found]
  | some lease =>
    obtain ⟨before, present, equal⟩ := same.some found
    rw [present]
    exact (lockPart_refcount equal).symm

variable [Fintype T]

theorem Inv.same (inv : Inv path id s) (same : Same path s t) (seats : t.seats = s.seats) : Inv path id t where
  conditional := same.conditional.trans inv.conditional
  counts := by rw [same.references, seats]; exact inv.counts
  credits := by rw [seats]; exact inv.credits
  used lease found := by
    obtain ⟨before, present, equal⟩ := same.some found
    rw [← lockPart_refcount equal]
    exact inv.used before present
  guarded lease found live := by
    obtain ⟨before, present, equal⟩ := same.some found
    rw [same.lock, ← lockPart_lockEtag equal]
    exact inv.guarded before present ((lockPart_releasing equal).trans live)
  closing lease found releasing := by
    obtain ⟨before, present, equal⟩ := same.some found
    rw [← lockPart_refcount equal, seats]
    exact inv.closing before present ((lockPart_releasing equal).trans releasing)
  free missing idle := by
    rw [same.lock]
    exact inv.free (same.none.mp missing) (by rwa [seats] at idle)
  missed := by
    rw [seats]
    intro member stage
    exact ⟨same.none.mpr (inv.missed member stage).1, (inv.missed member stage).2⟩
  releasing := by
    rw [seats]
    intro member stage
    obtain ⟨⟨lease, found, releasing⟩, credit⟩ := inv.releasing member stage
    refine ⟨?_, credit⟩
    cases later : t.entry path with
    | none => rw [same.none.mp later] at found; cases found
    | some lease' =>
      obtain ⟨before, present, equal⟩ := same.some later
      rw [found] at present
      cases present
      exact ⟨lease', rfl, (lockPart_releasing equal).symm.trans releasing⟩

/-- What the invariant reads of a seat is its references and its stage. -/
theorem Inv.reseated (inv : Inv path id s) (state : t.state = s.state)
    (credits : ∀ each, (t.seats each).credit = (s.seats each).credit)
    (stages : ∀ each, (t.seats each).stage = (s.seats each).stage) : Inv path id t := by
  have entry : t.entry path = s.entry path := by rw [Host.entry, state]; rfl
  have lock : t.lock path = s.lock path := by rw [Host.lock, state]; rfl
  constructor
  · rw [state]; exact inv.conditional
  · simp only [entry, credits]; exact inv.counts
  · simp only [credits]; exact inv.credits
  · rw [entry]; exact inv.used
  · rw [entry, lock]; exact inv.guarded
  · simp only [entry, stages]; exact inv.closing
  · simp only [entry, lock, stages]; exact inv.free
  · simp only [entry, stages]; exact inv.missed
  · simp only [entry, credits, stages]; exact inv.releasing

variable {member : T}

theorem Inv.credit_le (inv : Inv path id s) (each : T) : (s.seats each).credit ≤ references (s.entry path) := by
  rw [inv.counts]
  exact Finset.single_le_sum (f := fun each => (s.seats each).credit) (fun each _ => inv.credits each)
    (Finset.mem_univ each)

theorem Inv.pair_le (inv : Inv path id s) {one other : T} (different : one ≠ other) :
    (s.seats one).credit + (s.seats other).credit ≤ references (s.entry path) := by
  rw [inv.counts]
  exact Finset.add_le_sum (fun each _ => inv.credits each) (Finset.mem_univ _) (Finset.mem_univ _) different

/-- While one thread is at work on the lease, or an entry is in use, no other thread is at work. -/
theorem Inv.others_out (inv : Inv path id s) (member : T)
    (busy : (s.seats member).stage ≠ .out ∨ ∃ lease, s.entry path = some lease ∧ lease.releasing = false) :
    ∀ other, other ≠ member → (s.seats other).stage = .out := by
  intro other different
  cases stage : (s.seats other).stage with
  | out => rfl
  | missed =>
    obtain ⟨missing, only⟩ := inv.missed other stage
    rcases busy with active | ⟨lease, found, -⟩
    · cases own : (s.seats member).stage with
      | out => exact (active own).elim
      | missed => exact (different (only member own).symm).elim
      | releasing =>
        obtain ⟨⟨lease, found, -⟩, -⟩ := inv.releasing member own
        rw [missing] at found
        cases found
    · rw [missing] at found
      cases found
  | releasing =>
    obtain ⟨⟨lease, found, releasing⟩, credit⟩ := inv.releasing other stage
    rcases busy with active | ⟨lease', found', live⟩
    · cases own : (s.seats member).stage with
      | out => exact (active own).elim
      | missed =>
        rw [(inv.missed member own).1] at found
        cases found
      | releasing =>
        -- two references, but the entry counts one
        have mine := (inv.releasing member own).2
        have pair := inv.pair_le different.symm
        rw [found, references, Option.map_some, Option.getD_some, (inv.closing lease found releasing).1] at pair
        omega
    · rw [found] at found'
      cases found'
      rw [releasing] at live
      cases live

/-- What the invariant says when only one thread is at work. -/
def Shape (path : String) (id : InstanceId) (seat : Seat) (entry : Option WriteLease) (lock : Option MemObject) : Prop :=
  match seat.stage with
  | .out => (entry = none ∧ lock = none) ∨
      ∃ lease, entry = some lease ∧ 1 ≤ lease.refcount ∧ lease.releasing = false ∧ Guarded path id lease.lockEtag lock
  | .missed => entry = none
  | .releasing => (∃ lease, entry = some lease ∧ lease.refcount = 1 ∧ lease.releasing = true) ∧ 1 ≤ seat.credit

theorem Inv.of_shape (conditional : s.state.store.rejectConditionalDelete = false)
    (counts : (references (s.entry path) : Int) = ∑ each, (s.seats each).credit)
    (credits : ∀ each, 0 ≤ (s.seats each).credit) (others : ∀ other, other ≠ member → (s.seats other).stage = .out)
    (shape : Shape path id (s.seats member) (s.entry path) (s.lock path)) : Inv path id s := by
  have only (each : T) (active : (s.seats each).stage ≠ .out) : each = member := by
    by_contra different
    exact active (others each different)
  -- The member that may be at work decides which case of the invariant speaks about the entry.
  cases stage : (s.seats member).stage with
  | out =>
    have idle (each : T) : (s.seats each).stage = .out := by
      by_contra active
      exact active (only each active ▸ stage)
    simp only [Shape, stage] at shape
    refine ⟨conditional, counts, credits, ?_, ?_, ?_, ?_, ?_, ?_⟩
    · rintro lease found
      rcases shape with ⟨missing, -⟩ | ⟨lease', found', used, -⟩
      · rw [missing] at found; cases found
      · rw [found'] at found; cases found; exact used
    · rintro lease found -
      rcases shape with ⟨missing, -⟩ | ⟨lease', found', -, -, guarded⟩
      · rw [missing] at found; cases found
      · rw [found'] at found; cases found; exact guarded
    · rintro lease found releasing
      rcases shape with ⟨missing, -⟩ | ⟨lease', found', -, live, -⟩
      · rw [missing] at found; cases found
      · rw [found'] at found; cases found; rw [releasing] at live; cases live
    · rintro missing -
      rcases shape with ⟨-, free⟩ | ⟨lease', found', -⟩
      · exact free
      · rw [missing] at found'; cases found'
    · intro each active
      rw [idle each] at active
      cases active
    · intro each active
      rw [idle each] at active
      cases active
  | missed =>
    simp only [Shape, stage] at shape
    refine ⟨conditional, counts, credits, ?_, ?_, ?_, fun _ idle => (idle member stage).elim, ?_, ?_⟩
    -- There is no entry, so what is said about one is vacuous.
    · intro lease found; rw [shape] at found; cases found
    · intro lease found; rw [shape] at found; cases found
    · intro lease found; rw [shape] at found; cases found
    · intro each active
      refine ⟨shape, fun other also => ?_⟩
      rw [only each (by rw [active]; decide), only other (by rw [also]; decide)]
    · intro each active
      rw [only each (by rw [active]; decide), stage] at active
      cases active
  | releasing =>
    simp only [Shape, stage] at shape
    obtain ⟨⟨lease, found, once, releasing⟩, credit⟩ := shape
    refine ⟨conditional, counts, credits, ?_, ?_, ?_, ?_, ?_, ?_⟩
    -- The entry has one reference, and is being released.
    · intro lease' found'; rw [found] at found'; cases found'; exact once.ge
    · intro lease' found' live; rw [found] at found'; cases found'; rw [releasing] at live; cases live
    · intro lease' found' _; rw [found] at found'; cases found'; exact ⟨once, member, stage⟩
    · intro missing; rw [missing] at found; cases found
    · intro each active
      rw [only each (by rw [active]; decide), stage] at active
      cases active
    · intro each active
      rw [only each (by rw [active]; decide)]
      exact ⟨⟨lease, found, releasing⟩, credit⟩

/-! ### The contract of one thread -/

structure Rely (path : String) (id : InstanceId) (member : T) (s t : Host T F) : Prop where
  seat : t.seats member = s.seats member
  inv : Inv path id s → Inv path id t ∧ ((s.seats member).stage ≠ .out → Same path s t)

variable [DecidableEq T] [FsBackend F]

def contract (path : String) (id : InstanceId) (member : T) : Contract (syncSignature F) (Host T F) where
  effect op s reply u := (hostMachine path member).effect op s reply u ∧ Alone member u
  rely := Rely path id member
  rely_refl s := ⟨rfl, fun inv => ⟨inv, fun _ => .refl s⟩⟩
  rely_trans {s t u} first second := by
    refine ⟨second.seat.trans first.seat, fun inv => ?_⟩
    obtain ⟨inv, same⟩ := first.inv inv
    obtain ⟨inv, same'⟩ := second.inv inv
    exact ⟨inv, fun active => (same active).trans (same' (by rw [first.seat]; exact active))⟩
  guarantee _ s _ u := Inv path id s →
    Inv path id u ∧ ∀ other, other ≠ member → (s.seats other).stage ≠ .out → Same path s u
  waits s := (s.seats member).credit = (s.seats member).held

theorem host_effect {op : Op F} {reply : op.Reply} (effect : (contract path id member).effect op s reply u) :
    ∃ turn, Truthful turn ∧ reply = (s.state.act turn op).1 ∧ u.state = (s.state.act turn op).2 ∧
      u.seats = Function.update s.seats member ((s.seats member).advance path (s.entry path) (u.entry path) op) ∧
      Alone member u := by
  obtain ⟨⟨turn, truthful, acted⟩, alone⟩ := effect
  obtain ⟨rfl, rfl⟩ := Prod.mk.inj acted
  exact ⟨turn, truthful, rfl, rfl, rfl, alone⟩

omit [DecidableEq T] [Fintype T] in
theorem act_conditional {turn : Turn} (truthful : Truthful turn) (op : Op F) :
    (s.state.act turn op).2.store.rejectConditionalDelete = s.state.store.rejectConditionalDelete := by
  cases op with
  | request r => rw [act_request truthful]; exact ObjectStore.serve_rejects ..
  | queue | cache | leases | schedule | now | wake | jitter | fs | arrange | app => rfl

/-- An operation that leaves the lock, the accounting and the thread's own stage alone. -/
theorem Inv.ordinary {op : Op F} {reply : op.Reply} (inv : Inv path id s)
    (effect : (contract path id member).effect op s reply u) (same : Same path s u)
    (stage : (s.seats member).stage.next path (s.entry path) (u.entry path) op = (s.seats member).stage) :
    (contract path id member).guarantee op s reply u ∧ Inv path id u ∧ u.seats member = s.seats member := by
  obtain ⟨turn, -, -, -, seats, -⟩ := host_effect effect
  have unchanged : (s.seats member).advance path (s.entry path) (u.entry path) op = s.seats member := by
    simp only [Seat.advance, stage, same.references, add_sub_cancel_right]
  have seats : u.seats = s.seats := by rw [seats, unchanged, Function.update_eq_self]
  exact ⟨fun inv => ⟨inv.same same seats, fun _ _ _ => same⟩, inv.same same seats, by rw [seats]⟩

/-- An operation on the lease by the only thread at work. -/
theorem Inv.special {op : Op F} {reply : op.Reply} (seat : Seat) (inv : Inv path id s)
    (effect : (contract path id member).effect op s reply u)
    (others : ∀ other, other ≠ member → (s.seats other).stage = .out)
    (advances : (s.seats member).advance path (s.entry path) (u.entry path) op = seat) (credit : 0 ≤ seat.credit)
    (shape : Shape path id seat (u.entry path) (u.lock path)) :
    (contract path id member).guarantee op s reply u ∧ Inv path id u ∧ u.seats member = seat := by
  obtain ⟨turn, truthful, -, later, seats, -⟩ := host_effect effect
  rw [advances] at seats
  have mine : u.seats member = seat := by rw [seats, Function.update_self]
  have kept {other : T} (different : other ≠ member) : u.seats other = s.seats other := by
    rw [seats, Function.update_of_ne different]
  have inv' : Inv path id u := by
    refine .of_shape (by rw [later, act_conditional truthful]; exact inv.conditional) ?_ (fun each => ?_) (fun other different => by rw [kept different]; exact others other different)
      (mine.symm ▸ shape)
    · have credits : (fun each => (u.seats each).credit) =
          Function.update (fun each => (s.seats each).credit) member seat.credit := by
        funext each
        by_cases same : each = member
        · subst same; rw [mine, Function.update_self]
        · rw [kept same, Function.update_of_ne same]
      -- The sum changes by what this seat has gained, which is what the entry has.
      have total : ∑ each, (u.seats each).credit =
          seat.credit + ∑ each ∈ Finset.univ \ {member}, (s.seats each).credit := by
        rw [credits, Finset.sum_update_of_mem (Finset.mem_univ member)]
      have before := inv.counts
      rw [← Finset.sum_sdiff (Finset.subset_univ {member}), Finset.sum_singleton] at before
      have gained : seat.credit = (s.seats member).credit + references (u.entry path) - references (s.entry path) := by
        rw [← advances]; rfl
      omega
    · by_cases same : each = member
      · rw [same, mine]; exact credit
      · rw [kept same]; exact inv.credits each
  exact ⟨fun _ => ⟨inv', fun other different active => (active (others other different)).elim⟩, inv', mine⟩

end

end MonakaFs.Sync.Sharing
