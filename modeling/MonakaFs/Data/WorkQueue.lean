import Mathlib

/-! A queue of requests with one place for each key, and workers that take from it.

The requests for a key are numbered in the order in which they are asked for. A
worker has the request it took in its hand until it takes the next one, and may put
it back. As long as nothing is put back that was asked for again in the meantime,
the queue holds the newest request of a key or none.
-/

set_option autoImplicit false

namespace MonakaFs

variable {I K M : Type}

/-- Requests with their numbers, the number of the newest request for each key, and what the workers took. -/
structure WorkQueue (I K M : Type) where
  queue : List (I × Nat)
  latest : K → Nat
  hand : M → Option (I × Nat)

namespace WorkQueue

/-- The requests of a queue that was filled before. -/
def holding (items : List I) : WorkQueue I K M := ⟨items.map fun item => (item, 0), fun _ => 0, fun _ => none⟩

section
variable [DecidableEq K] (key : I → K)

/-- A request replaces the others for its key. -/
def ask (item : I) (work : WorkQueue I K M) : WorkQueue I K M :=
  let number := work.latest (key item) + 1
  { work with
    queue := work.queue.filter (fun entry => key entry.1 ≠ key item) ++ [(item, number)]
    latest := Function.update work.latest (key item) number }

variable [DecidableEq M]

def take (worker : M) (work : WorkQueue I K M) : WorkQueue I K M :=
  { work with queue := work.queue.tail, hand := Function.update work.hand worker work.queue.head? }

def putBack (worker : M) (work : WorkQueue I K M) : WorkQueue I K M :=
  { work with queue := work.queue ++ (work.hand worker).toList, hand := Function.update work.hand worker none }

end

variable (key : I → K)

/-- The queue holds the newest request of a key or none. -/
structure Current (work : WorkQueue I K M) : Prop where
  newest : ∀ entry ∈ work.queue, entry.2 = work.latest (key entry.1)
  unique : (work.queue.map fun entry => key entry.1).Nodup

/-- A newest request is in one place, in the queue or in one hand. -/
structure Sound (work : WorkQueue I K M) : Prop extends Current key work where
  bounded : ∀ worker entry, work.hand worker = some entry → entry.2 ≤ work.latest (key entry.1)
  apart : ∀ worker entry, work.hand worker = some entry → entry.2 = work.latest (key entry.1) →
    ∀ other ∈ work.queue, key other.1 ≠ key entry.1
  single : ∀ worker worker' entry entry', work.hand worker = some entry → work.hand worker' = some entry' →
    key entry.1 = key entry'.1 → entry.2 = entry'.2 → worker = worker'

/-- What the worker would put back was not asked for again. -/
def Timely (worker : M) (work : WorkQueue I K M) : Prop :=
  ∀ entry, work.hand worker = some entry → entry.2 = work.latest (key entry.1)

variable {key} {work : WorkQueue I K M} {worker : M} {item : I} {entry : I × Nat}

theorem sound_holding {items : List I} (unique : (items.map key).Nodup) : Sound key (holding items : WorkQueue I K M) where
  newest entry member := by
    obtain ⟨item, -, rfl⟩ := List.mem_map.mp member
    rfl
  unique := by
    rw [holding, List.map_map]
    exact unique
  bounded worker entry held := by cases held
  apart worker entry held := by cases held
  single worker worker' entry entry' held := by cases held

section
variable [DecidableEq K]

theorem ask_queue : (work.ask key item).queue =
    work.queue.filter (fun entry => key entry.1 ≠ key item) ++ [(item, work.latest (key item) + 1)] := rfl

theorem ask_latest (other : K) :
    (work.ask key item).latest other = if other = key item then work.latest (key item) + 1 else work.latest other :=
  Function.update_apply ..

theorem Sound.ask (sound : Sound key work) : Sound key (work.ask key item) where
  newest entry member := by
    rcases List.mem_append.mp member with old | new
    · obtain ⟨listed, other⟩ := List.mem_filter.mp old
      rw [ask_latest, if_neg (of_decide_eq_true other)]
      exact sound.newest entry listed
    · rw [List.mem_singleton.mp new, ask_latest, if_pos rfl]
  unique := by
    rw [ask_queue, List.map_append, List.nodup_append]
    refine ⟨(List.filter_sublist.map _).nodup sound.unique, List.nodup_singleton _, ?_⟩
    intro old member new listed
    obtain ⟨entry, kept, rfl⟩ := List.mem_map.mp member
    rw [List.map_singleton, List.mem_singleton] at listed
    rw [listed]
    exact of_decide_eq_true (List.mem_filter.mp kept).2
  bounded worker entry held := by
    have before := sound.bounded worker entry held
    rw [ask_latest]
    split
    · next same => rw [← same]; exact Nat.le_succ_of_le before
    · exact before
  apart worker entry held newest := by
    -- what is newest in a hand is for another key
    have before := sound.bounded worker entry held
    rw [ask_latest] at newest
    split at newest
    · next same =>
      rw [same, newest] at before
      exact absurd before (Nat.not_succ_le_self _)
    · next other =>
      intro queued member
      rcases List.mem_append.mp member with old | new
      · exact sound.apart worker entry held newest queued (List.mem_filter.mp old).1
      · rw [List.mem_singleton.mp new]
        exact Ne.symm other
  single := sound.single

end

section
variable [DecidableEq M]

theorem take_hand (other : M) :
    (work.take worker).hand other = if other = worker then work.queue.head? else work.hand other :=
  Function.update_apply ..

theorem putBack_hand (other : M) :
    (work.putBack worker).hand other = if other = worker then none else work.hand other :=
  Function.update_apply ..

theorem Sound.take (sound : Sound key work) : Sound key (work.take worker) where
  newest entry member := sound.newest entry (List.mem_of_mem_tail member)
  unique := (List.tail_sublist _).map _ |>.nodup sound.unique
  bounded other entry held := by
    rw [take_hand] at held
    split at held
    · exact (sound.newest entry (List.mem_of_mem_head? held)).le
    · exact sound.bounded other entry held
  apart other entry held newest := by
    rw [take_hand] at held
    split at held
    · -- the rest of the queue is for other keys
      obtain ⟨rest, split⟩ := List.head?_eq_some_iff.mp held
      have unique := sound.unique
      rw [split, List.map_cons, List.nodup_cons] at unique
      rw [WorkQueue.take, split, List.tail_cons]
      intro queued member same
      exact unique.1 (List.mem_map.mpr ⟨queued, member, same⟩)
    · exact fun queued member => sound.apart other entry held newest queued (List.mem_of_mem_tail member)
  single one other entry entry' held held' same number := by
    rw [take_hand] at held held'
    split at held <;> split at held'
    · next here here' => rw [here, here']
    · have queued := List.mem_of_mem_head? held
      refine absurd same (sound.apart other entry' held' ?_ entry queued)
      rw [← number, ← same]
      exact sound.newest entry queued
    · have queued := List.mem_of_mem_head? held'
      refine absurd same.symm (sound.apart one entry held ?_ entry' queued)
      rw [number, same]
      exact sound.newest entry' queued
    · exact sound.single one other entry entry' held held' same number

theorem Sound.putBack (sound : Sound key work) (timely : Timely key worker work) : Sound key (work.putBack worker) := by
  cases held : work.hand worker with
  | none =>
    -- The hand is empty.
    have same : work.putBack worker = work := by
      rw [WorkQueue.putBack, held, ← held, Function.update_eq_self, held]
      simp
    rw [same]
    exact sound
  | some entry =>
    have queue : (work.putBack worker).queue = work.queue ++ [entry] := by rw [WorkQueue.putBack, held]; rfl
    have hand (other : M) (entry' : I × Nat) (found : (work.putBack worker).hand other = some entry') :
        other ≠ worker ∧ work.hand other = some entry' := by
      rw [putBack_hand] at found
      split at found
      · cases found
      · next different => exact ⟨different, found⟩
    -- The entry is the newest of its key, so that nothing queued is for the same key.
    have newest := timely entry held
    have apart := sound.apart worker entry held newest
    constructor
    · constructor
      · intro queued member
        rw [queue] at member
        rcases List.mem_append.mp member with old | new
        · exact sound.newest queued old
        · rw [List.mem_singleton.mp new]
          exact newest
      · rw [queue, List.map_append, List.nodup_append]
        refine ⟨sound.unique, List.nodup_singleton _, ?_⟩
        intro old member new listed
        obtain ⟨queued, kept, rfl⟩ := List.mem_map.mp member
        rw [List.map_singleton, List.mem_singleton] at listed
        rw [listed]
        exact apart queued kept
    · intro other entry' found
      exact sound.bounded other entry' (hand other entry' found).2
    · intro other entry' found newest' queued member
      obtain ⟨different, found⟩ := hand other entry' found
      rw [queue] at member
      rcases List.mem_append.mp member with old | new
      · exact sound.apart other entry' found newest' queued old
      · rw [List.mem_singleton.mp new]
        intro same
        -- Another hand would hold the newest of the same key.
        refine different (sound.single other worker entry' entry found held same.symm ?_)
        rw [newest, newest', same]
        rfl
    · intro one other entry' entry'' found found' same number
      exact sound.single one other entry' entry'' (hand one entry' found).2 (hand other entry'' found').2 same number

/-- Whoever puts back what was asked for again leaves an old request in the queue. -/
theorem putBack_stale (stale : ¬ Timely key worker work) : ¬ Current key (work.putBack worker) := by
  intro current
  refine stale fun entry held => current.newest entry ?_
  rw [putBack, held]
  exact List.mem_append_right _ (List.mem_singleton_self _)

end

end WorkQueue
end MonakaFs
