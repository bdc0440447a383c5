import MonakaFs.Async.Program

/-! Rely and guarantee for suspended programs.

While a program waits, its surroundings may move the state by any number of
`rely` steps, and `waits` holds throughout. Each of its own operations has to keep
`guarantee`. `Safe` states this for every reply the effect allows, together with
a postcondition that survives further interference; `Exec` is one complete run.
-/

set_option autoImplicit false

namespace MonakaFs.Async

/-- What an operation may do: state before, reply, state after. -/
abbrev Effect (I : Signature) (S : Type) := (op : I.Op) → S → I.Reply op → S → Prop

structure Contract (I : Signature) (S : Type) where
  effect : Effect I S
  rely : S → S → Prop
  rely_refl : ∀ s, rely s s
  rely_trans : ∀ {s t u}, rely s t → rely t u → rely s u
  guarantee : Effect I S
  /-- What holds in every state where the program waits, for an operation or for ever. -/
  waits : S → Prop := fun _ => True

namespace Contract

variable {I : Signature} {S A B : Type} (C : Contract I S)

def Safe (post : A → S → Prop) : Prog I A → S → Prop
  | .done value, s => ∀ t, C.rely s t → post value t
  | .halt, s => ∀ t, C.rely s t → C.waits t
  | .call op next, s => ∀ t, C.rely s t → C.waits t ∧ ∀ reply u, C.effect op t reply u →
      C.guarantee op t reply u ∧ Safe post (next reply) u

/-- One run from the first operation to the returned value, interference included. -/
inductive Exec : Prog I A → S → A → S → Prop where
  | done {value : A} {s t : S} : C.rely s t → Exec (.done value) s value t
  | call {op : I.Op} {next : I.Reply op → Prog I A} {s t u v : S} {reply : I.Reply op} {value : A} :
      C.rely s t → C.effect op t reply u → Exec (next reply) u value v →
      Exec (.call op next) s value v

variable {C} {post : A → S → Prop}

theorem Safe.rely {p : Prog I A} {s t : S} (safe : C.Safe post p s) (moves : C.rely s t) :
    C.Safe post p t := by
  cases p with
  | done value => exact fun u later => safe u (C.rely_trans moves later)
  | halt => exact fun u later => safe u (C.rely_trans moves later)
  | call op next => exact fun u later => safe u (C.rely_trans moves later)

theorem safe_done {value : A} {s : S} (holds : ∀ t, C.rely s t → post value t) :
    C.Safe post (.done value) s := holds

theorem safe_call {op : I.Op} {next : I.Reply op → Prog I A} {s : S}
    (holds : ∀ t, C.rely s t → C.waits t ∧ ∀ reply u, C.effect op t reply u →
      C.guarantee op t reply u ∧ C.Safe post (next reply) u) :
    C.Safe post (.call op next) s := holds

theorem Safe.weaken {weaker : A → S → Prop} {p : Prog I A} {s : S} (safe : C.Safe post p s)
    (implies : ∀ value t, post value t → weaker value t) : C.Safe weaker p s := by
  induction p generalizing s with
  | done value => exact fun t moves => implies value t (safe t moves)
  | halt => exact safe
  | call op next ih =>
    intro t moves
    obtain ⟨waits, step⟩ := safe t moves
    exact ⟨waits, fun reply u effect => ⟨(step reply u effect).1, ih reply (step reply u effect).2⟩⟩

/-- Sequencing: the rest has to be safe from every state the first part can return in. -/
theorem Safe.bind {p : Prog I A} {k : A → Prog I B} {final : B → S → Prop} {s : S}
    (first : C.Safe post p s) (rest : ∀ value t, post value t → C.Safe final (k value) t) :
    C.Safe final (p >>= k) s := by
  induction p generalizing s with
  | done value => exact rest value s (first s (C.rely_refl s))
  | halt => exact first
  | call op next ih =>
    intro t moves
    obtain ⟨waits, step⟩ := first t moves
    exact ⟨waits, fun reply u effect => ⟨(step reply u effect).1, ih reply (step reply u effect).2⟩⟩

/-- Two postconditions of one program hold together. -/
theorem Safe.and {other : A → S → Prop} {p : Prog I A} {s : S} (first : C.Safe post p s)
    (second : C.Safe other p s) : C.Safe (fun value t => post value t ∧ other value t) p s := by
  induction p generalizing s with
  | done value => exact fun t moves => ⟨first t moves, second t moves⟩
  | halt => exact first
  | call op next ih =>
    intro t moves
    obtain ⟨waits, step⟩ := first t moves
    obtain ⟨_, step'⟩ := second t moves
    exact ⟨waits, fun reply u effect =>
      ⟨(step reply u effect).1, ih reply (step reply u effect).2 (step' reply u effect).2⟩⟩

theorem Safe.exec {p : Prog I A} {s t : S} {value : A} (safe : C.Safe post p s)
    (run : C.Exec p s value t) : post value t := by
  induction run with
  | done moves => exact safe _ moves
  | call moves effect _ ih => exact ih ((safe _ moves).2 _ _ effect).2

theorem Exec.rely {p : Prog I A} {s t u : S} {value : A} (moves : C.rely s t)
    (run : C.Exec p t value u) : C.Exec p s value u := by
  cases run with
  | done later => exact .done (C.rely_trans moves later)
  | call later effect rest => exact .call (C.rely_trans moves later) effect rest

/-- An assertion that interference and the allowed operations keep. -/
structure Keeps (C : Contract I S) (inv : S → Prop) (allowed : I.Op → Prop) : Prop where
  stable : ∀ {s t}, inv s → C.rely s t → inv t
  waits : ∀ {s}, inv s → C.waits s
  step : ∀ {op s reply t}, allowed op → inv s → C.effect op s reply t → C.guarantee op s reply t ∧ inv t

/-- A program that performs allowed operations only is safe and keeps the assertion. -/
theorem Keeps.safe {inv : S → Prop} {allowed : I.Op → Prop} (keeps : C.Keeps inv allowed) {p : Prog I A}
    (only : p.Only allowed) {s : S} (holds : inv s) : C.Safe (fun _ t => inv t) p s := by
  induction p generalizing s with
  | done value => exact fun t moves => keeps.stable holds moves
  | halt => exact fun t moves => keeps.waits (keeps.stable holds moves)
  | call op next ih =>
    intro t moves
    have here := keeps.stable holds moves
    refine ⟨keeps.waits here, fun reply u effect => ?_⟩
    obtain ⟨guarantee, after⟩ := keeps.step only.1 here effect
    exact ⟨guarantee, ih reply (only.2 reply) after⟩

end Contract
end MonakaFs.Async
