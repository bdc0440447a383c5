import Mathlib

/-! Threads that take turns on one shared state.

A thread is at a point between two lock sections; its turn runs the section that comes
next, and nothing else happens meanwhile. A schedule says whose turn it is. A turn may
also be a change that the surroundings make.
-/

set_option autoImplicit false

namespace MonakaFs.Async

variable {T P S : Type}

structure Threads (T P S : Type) where
  shared : S
  point : T → P

/-- Whose turn it is. -/
inductive Pick (T S : Type) where
  | thread (thread : T)
  | around (change : S → S)

section
variable [DecidableEq T]

def Threads.turn (step : P → S → P × S) (threads : Threads T P S) : Pick T S → Threads T P S
  | .thread thread =>
      let taken := step (threads.point thread) threads.shared
      ⟨taken.2, Function.update threads.point thread taken.1⟩
  | .around change => ⟨change threads.shared, threads.point⟩

def interleave (step : P → S → P × S) (schedule : List (Pick T S)) (threads : Threads T P S) : Threads T P S :=
  schedule.foldl (Threads.turn step) threads

/-- A condition on every turn, on the threads before it. -/
def AtEveryTurn (step : P → S → P × S) (condition : Pick T S → Threads T P S → Prop) : List (Pick T S) → Threads T P S → Prop
  | [], _ => True
  | turn :: schedule, threads => condition turn threads ∧ AtEveryTurn step condition schedule (threads.turn step turn)

variable {step : P → S → P × S} {condition : Pick T S → Threads T P S → Prop} {inv : Threads T P S → Prop}
  {threads : Threads T P S} {thread other : T}

theorem turn_own : (threads.turn step (.thread thread)).point thread = (step (threads.point thread) threads.shared).1 :=
  Function.update_self ..

theorem turn_other (different : other ≠ thread) :
    (threads.turn step (.thread thread)).point other = threads.point other := Function.update_of_ne different ..

theorem AtEveryTurn.split {front back : List (Pick T S)} (met : AtEveryTurn step condition (front ++ back) threads) :
    AtEveryTurn step condition front threads ∧ AtEveryTurn step condition back (interleave step front threads) := by
  induction front generalizing threads with
  | nil => exact ⟨trivial, met⟩
  | cons turn front ih => exact ⟨⟨met.1, (ih met.2).1⟩, (ih met.2).2⟩

/-- What one turn keeps under a condition, a schedule keeps whose turns all meet it. -/
theorem interleave_keeps (keeps : ∀ turn threads, condition turn threads → inv threads → inv (threads.turn step turn))
    {schedule : List (Pick T S)} (met : AtEveryTurn step condition schedule threads) (start : inv threads) :
    inv (interleave step schedule threads) := by
  induction schedule generalizing threads with
  | nil => exact start
  | cons turn schedule ih => exact ih met.2 (keeps turn threads met.1 start)

end

/-! ### One thread alone -/

/-- The second point and state are where a thread comes to when only it has turns. -/
def Leads (step : P → S → P × S) (first last : P × S) : Prop := ∃ turns, (fun now => step now.1 now.2)^[turns] first = last

variable {step : P → S → P × S} {first middle last : P × S}

theorem Leads.refl (now : P × S) : Leads step now now := ⟨0, rfl⟩

theorem Leads.turn {p : P} {s : S} (rest : Leads step (step p s) last) : Leads step (p, s) last := by
  obtain ⟨turns, reached⟩ := rest
  exact ⟨turns + 1, reached⟩

theorem Leads.trans (front : Leads step first middle) (back : Leads step middle last) : Leads step first last := by
  obtain ⟨turns, rfl⟩ := front
  obtain ⟨more, rfl⟩ := back
  exact ⟨more + turns, Function.iterate_add_apply ..⟩

end MonakaFs.Async
