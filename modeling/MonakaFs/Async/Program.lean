import Mathlib

/-! Programs that suspend at every operation they ask of their surroundings.

A program is a finite tree of typed operations. Between two operations it holds
no resource, so a scheduler may run anything else there. `halt` is a program
that never moves again: a loop that was cut off, as seen from outside.
-/

set_option autoImplicit false

namespace MonakaFs.Async

/-- Operations together with the type of the reply each one receives. -/
structure Signature where
  Op : Type
  Reply : Op → Type

inductive Prog (I : Signature) (A : Type) : Type where
  | done (value : A) : Prog I A
  | halt : Prog I A
  | call (op : I.Op) (next : I.Reply op → Prog I A) : Prog I A

namespace Prog

variable {I : Signature} {A B C : Type}

def bind : Prog I A → (A → Prog I B) → Prog I B
  | .done value, k => k value
  | .halt, _ => .halt
  | .call op next, k => .call op (fun reply => (next reply).bind k)

instance : Monad (Prog I) where
  pure := .done
  bind := .bind

/-- The program that performs one operation and returns its reply. -/
def perform (op : I.Op) : Prog I (I.Reply op) :=
  .call op .done

@[simp] theorem pure_eq (value : A) : (pure value : Prog I A) = .done value := rfl

@[simp] theorem done_bind (value : A) (k : A → Prog I B) : (Prog.done value >>= k) = k value := rfl

@[simp] theorem halt_bind (k : A → Prog I B) : ((Prog.halt : Prog I A) >>= k) = .halt := rfl

@[simp] theorem call_bind (op : I.Op) (next : I.Reply op → Prog I A) (k : A → Prog I B) :
    (Prog.call op next >>= k) = .call op (fun reply => next reply >>= k) := rfl

@[simp] theorem perform_bind (op : I.Op) (k : I.Reply op → Prog I B) :
    (perform op >>= k) = .call op k := rfl

theorem bind_done (p : Prog I A) : (p >>= Prog.done) = p := by
  induction p with
  | done value => rfl
  | halt => rfl
  | call op next ih => exact congrArg (Prog.call op) (funext ih)

@[simp] theorem bind_assoc (p : Prog I A) (f : A → Prog I B) (g : B → Prog I C) :
    (p >>= f) >>= g = p >>= fun value => f value >>= g := by
  induction p with
  | done value => rfl
  | halt => rfl
  | call op next ih => exact congrArg (Prog.call op) (funext ih)

@[simp] theorem map_eq (f : A → B) (p : Prog I A) : f <$> p = p >>= fun value => .done (f value) := rfl

instance : LawfulMonad (Prog I) :=
  LawfulMonad.mk' _ (fun p => bind_done p) (fun _ _ => rfl) bind_assoc

/-- Every operation the program may perform is allowed. -/
def Only (allowed : I.Op → Prop) : Prog I A → Prop
  | .done _ => True
  | .halt => True
  | .call op next => allowed op ∧ ∀ reply, (next reply).Only allowed

variable {allowed wider : I.Op → Prop}

@[simp] theorem only_done (value : A) : (Prog.done value : Prog I A).Only allowed := trivial

@[simp] theorem only_halt : (Prog.halt : Prog I A).Only allowed := trivial

@[simp] theorem only_call (op : I.Op) (next : I.Reply op → Prog I A) :
    (Prog.call op next).Only allowed ↔ allowed op ∧ ∀ reply, (next reply).Only allowed := Iff.rfl

@[simp] theorem only_perform (op : I.Op) : (perform op).Only allowed ↔ allowed op := by simp [perform]

theorem Only.bind {p : Prog I A} {k : A → Prog I B} (first : p.Only allowed)
    (rest : ∀ value, (k value).Only allowed) : (p >>= k).Only allowed := by
  induction p with
  | done value => exact rest value
  | halt => trivial
  | call op next ih => exact ⟨first.1, fun reply => ih reply (first.2 reply)⟩

theorem Only.mono {p : Prog I A} (only : p.Only allowed) (implies : ∀ op, allowed op → wider op) :
    p.Only wider := by
  induction p with
  | done value => trivial
  | halt => trivial
  | call op next ih => exact ⟨implies op only.1, fun reply => ih reply (only.2 reply)⟩

end Prog
end MonakaFs.Async
