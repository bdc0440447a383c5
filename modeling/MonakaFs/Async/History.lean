import MonakaFs.Async.Contract

/-! Executable effects and the history of what was performed.

A machine answers an operation from a turn, the part of the answer that the
surroundings decide. A traced state keeps every performed operation with the
states around it, newest first, so that a property can speak about earlier
moments of the same run. Programs never read the log.
-/

set_option autoImplicit false

namespace MonakaFs.Async

structure Machine (I : Signature) (S U : Type) where
  act : U → (op : I.Op) → S → I.Reply op × S
  admits : U → Prop

/-- One performed operation and the states around it. -/
structure Moment (I : Signature) (S : Type) where
  op : I.Op
  reply : I.Reply op
  before : S
  after : S

structure Traced (I : Signature) (S : Type) where
  state : S
  log : List (Moment I S)

variable {I : Signature} {S U : Type}

/-- The effect, with what it performed kept in the log. -/
def Effect.traced (effect : Effect I S) : Effect I (Traced I S) :=
  fun op s reply t => effect op s.state reply t.state ∧ t.log = ⟨op, reply, s.state, t.state⟩ :: s.log

namespace Machine

def effect (M : Machine I S U) : Effect I S :=
  fun op s reply t => ∃ turn, M.admits turn ∧ M.act turn op s = (reply, t)

def traced (M : Machine I S U) : Machine I (Traced I S) U where
  act turn op s :=
    let answer := M.act turn op s.state
    (answer.1, ⟨answer.2, ⟨op, answer.1, s.state, answer.2⟩ :: s.log⟩)
  admits := M.admits

theorem traced_effect {M : Machine I S U} {op : I.Op} {s t : Traced I S} {reply : I.Reply op} :
    M.traced.effect op s reply t ↔
      M.effect op s.state reply t.state ∧ t.log = ⟨op, reply, s.state, t.state⟩ :: s.log := by
  constructor
  · rintro ⟨turn, admitted, same⟩
    obtain ⟨rfl, rfl⟩ := Prod.mk.inj same
    exact ⟨⟨turn, admitted, rfl⟩, rfl⟩
  · rintro ⟨⟨turn, admitted, same⟩, logged⟩
    refine ⟨turn, admitted, ?_⟩
    cases t
    simp only at same logged
    simp only [traced, same, logged]

/-- Run a program alone, one turn for each operation, up to its value. -/
def run (M : Machine I S U) {A : Type} : List U → Prog I A → S → Option (A × S)
  | _, .done value, s => some (value, s)
  | _, .halt, _ => none
  | [], .call _ _, _ => none
  | turn :: turns, .call op next, s =>
      M.run turns (next (M.act turn op s).1) (M.act turn op s).2

/-- A program run with moves of the surroundings before each operation and
before its value is read. -/
def runAmong (M : Machine I S U) {A : Type} :
    List ((S → S) × U) → Prog I A → S → Option (A × S)
  | _, .done value, s => some (value, s)
  | _, .halt, _ => none
  | [], .call _ _, _ => none
  | (move, turn) :: turns, .call op next, s =>
      let answer := M.act turn op (move s)
      M.runAmong turns (next answer.1) answer.2

theorem runAmong_exec {C : Contract I S} {M : Machine I S U} {A : Type}
    (same : C.effect = M.effect) {turns : List ((S → S) × U)} {p : Prog I A} {s t : S} {value : A}
    (moves : ∀ turn ∈ turns, (∀ s, C.rely s (turn.1 s)) ∧ M.admits turn.2)
    (returned : M.runAmong turns p s = some (value, t)) : C.Exec p s value t := by
  induction turns generalizing p s with
  | nil =>
    cases p with
    | done value => cases returned; exact .done (C.rely_refl _)
    | halt => cases returned
    | call op next => cases returned
  | cons turn turns ih =>
    cases p with
    | done value => cases returned; exact .done (C.rely_refl _)
    | halt => cases returned
    | call op next =>
      obtain ⟨rely, admitted⟩ := moves turn (by simp)
      refine .call (rely s) ?_ (ih (fun other member => moves other (by simp [member])) returned)
      rw [same]
      exact ⟨turn.2, admitted, rfl⟩

end Machine
end MonakaFs.Async
