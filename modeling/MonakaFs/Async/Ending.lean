import MonakaFs.Async.Contract

/-! Runs that come to an end.

`Safe` says nothing about a run that is cut off. `Ends` is its total counterpart:
whatever the surroundings do and reply, the program returns. A program is a finite
tree, so what can go wrong is a `halt` in it, and only there.
-/

set_option autoImplicit false

namespace MonakaFs.Async

namespace Prog

variable {I : Signature} {A B : Type}

/-- The program has a next operation or a value everywhere. -/
def Unbroken : Prog I A → Prop
  | .done _ => True
  | .halt => False
  | .call _ next => ∀ reply, (next reply).Unbroken

@[simp] theorem unbroken_done (value : A) : (Prog.done value : Prog I A).Unbroken := trivial

@[simp] theorem unbroken_call (op : I.Op) (next : I.Reply op → Prog I A) :
    (Prog.call op next).Unbroken ↔ ∀ reply, (next reply).Unbroken := Iff.rfl

theorem Unbroken.bind {p : Prog I A} {k : A → Prog I B} (first : p.Unbroken) (rest : ∀ value, (k value).Unbroken) :
    (p >>= k).Unbroken := by
  induction p with
  | done value => exact rest value
  | halt => exact first.elim
  | call op next ih => exact fun reply => ih reply (first reply)

end Prog

namespace Contract

variable {I : Signature} {S A B : Type} (C : Contract I S)

/-- Every run returns, with the postcondition. -/
def Ends (post : A → S → Prop) : Prog I A → S → Prop
  | .done value, s => ∀ t, C.rely s t → post value t
  | .halt, _ => False
  | .call op next, s => ∀ t, C.rely s t → ∀ reply u, C.effect op t reply u → Ends post (next reply) u

variable {C} {post : A → S → Prop}

theorem Ends.weaken {weaker : A → S → Prop} {p : Prog I A} {s : S} (ends : C.Ends post p s)
    (implies : ∀ value t, post value t → weaker value t) : C.Ends weaker p s := by
  induction p generalizing s with
  | done value => exact fun t moves => implies value t (ends t moves)
  | halt => exact ends
  | call op next ih => exact fun t moves reply u effect => ih reply (ends t moves reply u effect)

theorem Ends.bind {p : Prog I A} {k : A → Prog I B} {final : B → S → Prop} {s : S} (first : C.Ends post p s)
    (rest : ∀ value t, post value t → C.Ends final (k value) t) : C.Ends final (p >>= k) s := by
  induction p generalizing s with
  | done value => exact rest value s (first s (C.rely_refl s))
  | halt => exact first.elim
  | call op next ih => exact fun t moves reply u effect => ih reply (first t moves reply u effect)

/-- A first part that is cut off somewhere cuts off the whole. -/
theorem Ends.of_bind {p : Prog I A} {k : A → Prog I B} {final : B → S → Prop} {s : S} (ends : C.Ends final (p >>= k) s) :
    C.Ends (fun _ _ => True) p s := by
  induction p generalizing s with
  | done value => exact fun _ _ => trivial
  | halt => exact ends
  | call op next ih => exact fun t moves reply u effect => ih reply (ends t moves reply u effect)

/-- The surroundings may move on after the last operation. -/
theorem Exec.later {p : Prog I A} {s t u : S} {value : A} (run : C.Exec p s value t) (moves : C.rely t u) :
    C.Exec p s value u := by
  induction run with
  | done earlier => exact .done (C.rely_trans earlier moves)
  | call earlier effect _ ih => exact .call earlier effect (ih moves)

/-- The state at the end is reached by a run, also here. -/
theorem Ends.reached {p : Prog I A} {s : S} (ends : C.Ends post p s) :
    C.Ends (fun value t => C.Exec p s value t ∧ post value t) p s := by
  induction p generalizing s with
  | done value => exact fun t moves => ⟨.done moves, ends t moves⟩
  | halt => exact ends
  | call op next ih =>
    exact fun t moves reply u effect => (ih reply (ends t moves reply u effect)).weaken fun value v reached =>
      ⟨.call moves effect reached.1, reached.2⟩

/-- The state at the end is reached by a run. -/
theorem Safe.reached {p : Prog I A} {s : S} (safe : C.Safe post p s) :
    C.Safe (fun value t => C.Exec p s value t ∧ post value t) p s := by
  induction p generalizing s with
  | done value => exact fun t moves => ⟨.done moves, safe t moves⟩
  | halt => exact safe
  | call op next ih =>
    intro t moves
    obtain ⟨waits, step⟩ := safe t moves
    refine ⟨waits, fun reply u effect => ⟨(step reply u effect).1, ?_⟩⟩
    exact (ih reply (step reply u effect).2).weaken fun value v reached => ⟨.call moves effect reached.1, reached.2⟩

/-- A safe program that is never cut off ends. -/
theorem Safe.ends {p : Prog I A} {s : S} (safe : C.Safe post p s) (unbroken : p.Unbroken) : C.Ends post p s := by
  induction p generalizing s with
  | done value => exact safe
  | halt => exact unbroken.elim
  | call op next ih =>
    exact fun t moves reply u effect => ih reply (((safe t moves).2 reply u effect).2) (unbroken reply)

end Contract
end MonakaFs.Async
