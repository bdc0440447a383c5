import MonakaFs.Async.Team

/-! Looking first, acting later.

A program looks at what it shares with others, and acts on what it saw some
operations later. An item is awaited as long as the program may still act on it
without another look. If every look justifies the acts that are awaited after it,
and no step spoils an awaited item, then every act is justified when it happens.
-/

set_option autoImplicit false

namespace MonakaFs.Async

/-- Which operations look and which act on an item, the replies that can occur,
what a look tells about an item, and what has to hold where it is acted on. -/
structure Watch (I : Signature) (X G : Type) where
  looks : I.Op → Prop
  acts : X → I.Op → Prop
  gives : (op : I.Op) → I.Reply op → Prop
  tells : (op : I.Op) → I.Reply op → X → Prop
  safe : X → G → Prop

namespace Watch

variable {I : Signature} {X G A B : Type} (W : Watch I X G)

/-- The program may act on the item before it looks again. -/
def Awaits (x : X) : Prog I A → Prop
  | .done _ => False
  | .halt => False
  | .call op next => W.acts x op ∨ (¬ W.looks op ∧ ∃ reply, W.gives op reply ∧ Awaits x (next reply))

/-- Every look tells about the items awaited after it. -/
def Heeds : Prog I A → Prop
  | .done _ => True
  | .halt => True
  | .call op next => ∀ reply, W.gives op reply →
      (W.looks op → ∀ x, W.Awaits x (next reply) → W.tells op reply x) ∧ Heeds (next reply)

/-- A program that heeds its looks and awaits allowed items only. -/
def Within (allowed : X → Prop) (p : Prog I A) : Prop := W.Heeds p ∧ ∀ x, W.Awaits x p → allowed x

/-- A program that acts on nothing before its first look. -/
abbrev Calm (p : Prog I A) : Prop := W.Within (fun _ => False) p

section
variable {W} {allowed : X → Prop}

theorem within_done (value : A) : W.Within allowed (.done value : Prog I A) := ⟨trivial, fun _ awaited => awaited.elim⟩

theorem within_call {op : I.Op} {next : I.Reply op → Prog I A} (unlooking : ¬ W.looks op)
    (acts : ∀ x, W.acts x op → allowed x) (rest : ∀ reply, W.gives op reply → W.Within allowed (next reply)) :
    W.Within allowed (.call op next) := by
  refine ⟨fun reply given => ⟨fun look => absurd look unlooking, (rest reply given).1⟩, fun x awaited => ?_⟩
  rcases awaited with acted | ⟨-, reply, given, later⟩
  · exact acts x acted
  · exact (rest reply given).2 x later

theorem calm_look {op : I.Op} {next : I.Reply op → Prog I A} (looking : W.looks op) (idle : ∀ x, ¬ W.acts x op)
    (rest : ∀ reply, W.gives op reply → W.Within (W.tells op reply) (next reply)) : W.Calm (.call op next) := by
  refine ⟨fun reply given => ⟨fun _ => (rest reply given).2, (rest reply given).1⟩, fun x awaited => ?_⟩
  rcases awaited with acted | ⟨unlooking, -⟩
  · exact idle x acted
  · exact unlooking looking

theorem Within.mono {wider : X → Prop} {p : Prog I A} (within : W.Within allowed p) (implies : ∀ x, allowed x → wider x) :
    W.Within wider p :=
  ⟨within.1, fun x awaited => implies x (within.2 x awaited)⟩

theorem within_bind {p : Prog I A} {k : A → Prog I B} (first : p.Only fun op => ¬ W.looks op ∧ ∀ x, W.acts x op → allowed x)
    (rest : ∀ value, W.Within allowed (k value)) : W.Within allowed (p >>= k) := by
  induction p with
  | done value => exact rest value
  | halt => exact ⟨trivial, fun _ awaited => awaited.elim⟩
  | call op next ih => exact within_call first.1.1 first.1.2 fun reply _ => ih reply (first.2 reply)

theorem within_of_only {p : Prog I A} (only : p.Only fun op => ¬ W.looks op ∧ ∀ x, W.acts x op → allowed x) :
    W.Within allowed p := by
  rw [← p.bind_done]
  exact within_bind only within_done

theorem Within.bind {p : Prog I A} {k : A → Prog I B} (first : W.Within allowed p) (rest : ∀ value, W.Calm (k value)) :
    W.Within allowed (p >>= k) := by
  induction p generalizing allowed with
  | done value => exact (rest value).mono fun _ none => none.elim
  | halt => exact ⟨trivial, fun _ awaited => awaited.elim⟩
  | call op next ih =>
    have onward (reply) (given : W.gives op reply) : W.Within (fun x => W.Awaits x (next reply)) (next reply >>= k) :=
      ih reply ⟨(first.1 reply given).2, fun _ awaited => awaited⟩
    refine ⟨fun reply given => ⟨fun look x awaited => ?_, (onward reply given).1⟩, fun x awaited => ?_⟩
    · exact (first.1 reply given).1 look x ((onward reply given).2 x awaited)
    · rcases awaited with acted | ⟨unlooking, reply, given, later⟩
      · exact first.2 x (.inl acted)
      · exact first.2 x (.inr ⟨unlooking, reply, given, (onward reply given).2 x later⟩)

end

/-! ### In a team -/

section
variable {T S U : Type} [DecidableEq T] {team : Team T S G} {rules : Team.Rules T S G I A} {member : T} {inv : G → Prop}

/-- A member heeds its looks, and what it awaits is safe. -/
def Watched (member : T) (config : Config T G I A) : Prop :=
  W.Within (fun x => W.safe x config.shared) (config.prog member)

/-- A step that spoils nothing the member awaits. -/
def Spares (member : T) (before after : Config T G I A) : Prop :=
  ∀ x, W.Awaits x (before.prog member) → W.safe x before.shared → W.safe x after.shared

/-- The member's operations reply as expected, its looks tell the truth, and its
programs begin with a look. -/
structure Fits (team : Team T S G) (rules : Team.Rules T S G I A) (member : T) (inv : G → Prop) : Prop where
  gives : ∀ op shared reply s, inv shared → rules.effect member op (team.view member shared) reply s → W.gives op reply
  tells : ∀ op shared reply s x, rules.effect member op (team.view member shared) reply s → W.looks op →
    W.tells op reply x → W.safe x (team.put member shared s)
  starts : ∀ value s p t, rules.starts member value s p t → W.Calm p

variable {W}

theorem Fits.step (fits : W.Fits team rules member inv) {before after : Config T G I A} (holds : inv before.shared)
    (watched : W.Watched member before) (step : team.Step rules before after) (spares : W.Spares member before after) :
    W.Watched member after := by
  have unmoved (same : after.prog member = before.prog member) : W.Watched member after := by
    unfold Watched
    rw [same]
    exact ⟨watched.1, fun x awaited => spares x awaited (watched.2 x awaited)⟩
  cases step with
  | @operate actor op next reply s found effect =>
    by_cases same : actor = member
    · subst same
      have given := fits.gives op _ reply s holds effect
      unfold Watched at watched ⊢
      simp only [found, Config.set_prog, Config.set_shared] at watched ⊢
      obtain ⟨heeds, awaits⟩ := watched
      refine ⟨(heeds reply given).2, fun x awaited => ?_⟩
      by_cases looking : W.looks op
      · exact fits.tells op _ reply s x effect looking ((heeds reply given).1 looking x awaited)
      · have waiting : W.Awaits x (.call op next) := .inr ⟨looking, reply, given, awaited⟩
        exact spares x (by rw [found]; exact waiting) (awaits x waiting)
    · exact unmoved (Config.set_other _ (Ne.symm same) _ _)
  | @start actor value p s found started =>
    by_cases same : actor = member
    · subst same
      unfold Watched
      simp only [Config.set_prog]
      exact (fits.starts value _ p s started).mono fun _ none => none.elim
    · exact unmoved (Config.set_other _ (Ne.symm same) _ _)
  | ambient moved => exact unmoved rfl

theorem Fits.run (fits : W.Fits team rules member inv) {fine : Config T G I A → Config T G I A → Prop}
    (spares : ∀ before after, fine before after → inv before.shared ∧ W.Spares member before after)
    {first last : Config T G I A} (watched : W.Watched member first) (reached : team.ReachableBy rules fine first last) :
    W.Watched member last := by
  induction reached with
  | refl => exact watched
  | tail _ step ih => exact fits.step (spares _ _ step.2).1 ih step.1 (spares _ _ step.2).2

omit [DecidableEq T] in
theorem watched_idle {config : Config T G I A} {value : A} (idle : config.prog member = .done value) :
    W.Watched member config := by
  unfold Watched
  rw [idle]
  exact within_done value

omit [DecidableEq T] in
theorem Watched.acts {config : Config T G I A} (watched : W.Watched member config) {x : X} {op : I.Op}
    {next : I.Reply op → Prog I A} (about : config.prog member = .call op next) (acts : W.acts x op) :
    W.safe x config.shared :=
  watched.2 x (by rw [about]; exact .inl acts)

end
end Watch
end MonakaFs.Async
