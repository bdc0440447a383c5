import Mathlib
import MonakaFs.Async.History

/-! Several programs over one shared state.

Every member sees the shared state through its own view. A step is one operation
of one member, the start of a new program by a member whose last one returned,
or a move of the surroundings. If each member's operations keep what the others
rely on, safety of the members is kept by every interleaving. A start may change
what the member keeps about itself, never what the others rely on.
-/

set_option autoImplicit false

namespace MonakaFs.Async

/-- How members read and write the shared state. -/
structure Team (T S G : Type) where
  view : T → G → S
  put : T → G → S → G
  view_put : ∀ member shared s, view member (put member shared s) = s
  put_view : ∀ member shared, put member shared (view member shared) = shared

structure Config (T G : Type) (I : Signature) (A : Type) where
  shared : G
  prog : T → Prog I A

variable {T S G U A : Type} {I : Signature} [DecidableEq T]

def Config.set (config : Config T G I A) (member : T) (shared : G) (p : Prog I A) : Config T G I A :=
  ⟨shared, Function.update config.prog member p⟩

@[simp] theorem Config.set_shared (config : Config T G I A) (member : T) (shared : G) (p : Prog I A) :
    (config.set member shared p).shared = shared := rfl

@[simp] theorem Config.set_prog (config : Config T G I A) (member : T) (shared : G) (p : Prog I A) :
    (config.set member shared p).prog member = p := by simp [Config.set]

theorem Config.set_other (config : Config T G I A) {member other : T} (different : other ≠ member)
    (shared : G) (p : Prog I A) : (config.set member shared p).prog other = config.prog other := by
  simp [Config.set, different]

namespace Team

/-- The rules of one team: what operations do, which programs may be started
after a returned value, and how the surroundings move. -/
structure Rules (T S G : Type) (I : Signature) (A : Type) where
  effect : T → Effect I S
  starts : T → A → S → Prog I A → S → Prop
  ambient : G → G → Prop

variable (team : Team T S G) (rules : Rules T S G I A)

inductive Step : Config T G I A → Config T G I A → Prop where
  | operate {config : Config T G I A} {member : T} {op : I.Op} {next : I.Reply op → Prog I A}
      {reply : I.Reply op} {s : S} : config.prog member = .call op next →
      rules.effect member op (team.view member config.shared) reply s →
      Step config (config.set member (team.put member config.shared s) (next reply))
  | start {config : Config T G I A} {member : T} {value : A} {p : Prog I A} {s : S} :
      config.prog member = .done value →
      rules.starts member value (team.view member config.shared) p s →
      Step config (config.set member (team.put member config.shared s) p)
  | ambient {config : Config T G I A} {shared : G} : rules.ambient config.shared shared →
      Step config ⟨shared, config.prog⟩

def Reachable : Config T G I A → Config T G I A → Prop :=
  Relation.ReflTransGen (team.Step rules)

/-- What makes a family of contracts fit together over one shared state. -/
structure Fits (inv : G → Prop) (contract : T → Contract I S) (post : T → A → S → Prop) : Prop where
  effect : ∀ member, (contract member).effect = rules.effect member
  kept : ∀ member op shared reply s, inv shared →
    rules.effect member op (team.view member shared) reply s →
    (contract member).guarantee op (team.view member shared) reply s → inv (team.put member shared s)
  others : ∀ member op shared reply s, inv shared →
    rules.effect member op (team.view member shared) reply s →
    (contract member).guarantee op (team.view member shared) reply s → ∀ other, other ≠ member →
    (contract other).rely (team.view other shared) (team.view other (team.put member shared s))
  ambient_kept : ∀ shared later, inv shared → rules.ambient shared later → inv later
  ambient : ∀ shared later, inv shared → rules.ambient shared later →
    ∀ member, (contract member).rely (team.view member shared) (team.view member later)
  starts : ∀ member value s p t, post member value s → rules.starts member value s p t →
    (contract member).Safe (post member) p t
  starts_kept : ∀ member value shared p s, inv shared → post member value (team.view member shared) →
    rules.starts member value (team.view member shared) p s → inv (team.put member shared s)
  starts_others : ∀ member value shared p s, inv shared →
    rules.starts member value (team.view member shared) p s → ∀ other, other ≠ member →
    (contract other).rely (team.view other shared) (team.view other (team.put member shared s))

/-- Every member safe in its own view, and the shared invariant. -/
def Sound (inv : G → Prop) (contract : T → Contract I S) (post : T → A → S → Prop)
    (config : Config T G I A) : Prop :=
  inv config.shared ∧
    ∀ member, (contract member).Safe (post member) (config.prog member) (team.view member config.shared)

variable {team rules} {inv : G → Prop} {contract : T → Contract I S} {post : T → A → S → Prop}

theorem Fits.step (fits : team.Fits rules inv contract post) {before after : Config T G I A}
    (sound : team.Sound inv contract post before) (step : team.Step rules before after) :
    team.Sound inv contract post after := by
  obtain ⟨holds, safe⟩ := sound
  cases step with
  -- The member has done an operation: the guarantee is what the others rely on.
  | @operate member op next reply s found effect =>
    have own := safe member
    rw [found] at own
    have effect' : (contract member).effect op (team.view member before.shared) reply s := by
      rw [fits.effect]; exact effect
    obtain ⟨guarantee, rest⟩ := (own _ ((contract member).rely_refl _)).2 reply s effect'
    refine ⟨fits.kept member op _ reply s holds effect guarantee, fun other => ?_⟩
    by_cases same : other = member
    · subst same
      simpa only [Config.set_prog, Config.set_shared, team.view_put] using rest
    · rw [Config.set_other _ same, Config.set_shared]
      exact (safe other).rely (fits.others member op _ reply s holds effect guarantee other same)
  -- The member has returned, and starts a new program.
  | @start member value p s found started =>
    have returned := safe member
    rw [found] at returned
    have post := returned _ ((contract member).rely_refl _)
    refine ⟨fits.starts_kept member value _ p s holds post started, fun other => ?_⟩
    by_cases same : other = member
    · subst same
      simpa only [Config.set_prog, Config.set_shared, team.view_put] using
        fits.starts other value _ p s post started
    · rw [Config.set_other _ same, Config.set_shared]
      exact (safe other).rely (fits.starts_others member value _ p s holds started other same)
  | @ambient later moved =>
    exact ⟨fits.ambient_kept _ _ holds moved,
      fun member => (safe member).rely (fits.ambient _ _ holds moved member)⟩

theorem Fits.reachable (fits : team.Fits rules inv contract post) {first last : Config T G I A}
    (sound : team.Sound inv contract post first) (reached : team.Reachable rules first last) :
    team.Sound inv contract post last := by
  induction reached with
  | refl => exact sound
  | tail _ step ih => exact fits.step ih step

/-- A scheduler's choice: a member operates with this turn, a member that returned
starts its next program, or the surroundings move. -/
inductive Move (T S G U : Type) (I : Signature) (A : Type) where
  | operate (member : T) (turn : U)
  | start (member : T) (launch : A → S → Prog I A × S)
  | ambient (move : G → G)

def move (team : Team T S G) (machine : T → Machine I S U) (config : Config T G I A) :
    Move T S G U I A → Config T G I A
  | .operate member turn =>
      match config.prog member with
      | .call op next =>
          let answer := (machine member).act turn op (team.view member config.shared)
          config.set member (team.put member config.shared answer.2) (next answer.1)
      | _ => config
  | .start member launch =>
      match config.prog member with
      | .done value =>
          let launched := launch value (team.view member config.shared)
          config.set member (team.put member config.shared launched.2) launched.1
      | _ => config
  | .ambient f => ⟨f config.shared, config.prog⟩

/-- Follow a whole schedule. -/
def follow (team : Team T S G) (machine : T → Machine I S U) :
    List (Move T S G U I A) → Config T G I A → Config T G I A
  | [], config => config
  | next :: rest, config => team.follow machine rest (team.move machine config next)

/-- A move is allowed by the rules in every state. -/
def Allowed (rules : Rules T S G I A) (machine : T → Machine I S U) : Move T S G U I A → Prop
  | .operate member turn => ∀ op s,
      rules.effect member op s ((machine member).act turn op s).1 ((machine member).act turn op s).2
  | .start member launch => ∀ value s, rules.starts member value s (launch value s).1 (launch value s).2
  | .ambient f => ∀ shared, rules.ambient shared (f shared)

theorem move_step {machine : T → Machine I S U} {next : Move T S G U I A} (allowed : Allowed rules machine next)
    (config : Config T G I A) :
    team.move machine config next = config ∨ team.Step rules config (team.move machine config next) := by
  cases next with
  | operate member turn =>
    cases found : config.prog member with
    | done value => exact .inl (by simp only [move, found])
    | halt => exact .inl (by simp only [move, found])
    | call op next => simp only [move, found]; exact .inr (.operate found (allowed op _))
  | start member launch =>
    cases found : config.prog member with
    | done value => simp only [move, found]; exact .inr (.start found (allowed value _))
    | halt => exact .inl (by simp only [move, found])
    | call op next => exact .inl (by simp only [move, found])
  | ambient f => exact .inr (.ambient (allowed config.shared))

/-- Runs every step of which meets a condition. -/
def ReachableBy (team : Team T S G) (rules : Rules T S G I A) (fine : Config T G I A → Config T G I A → Prop) :
    Config T G I A → Config T G I A → Prop :=
  Relation.ReflTransGen fun before after => team.Step rules before after ∧ fine before after

/-- Every move of a schedule passes a check on the configurations around it. -/
def passes (team : Team T S G) (machine : T → Machine I S U) (check : Config T G I A → Config T G I A → Bool) :
    List (Move T S G U I A) → Config T G I A → Bool
  | [], _ => true
  | next :: rest, config =>
      check config (team.move machine config next) && team.passes machine check rest (team.move machine config next)

theorem follow_reachableBy {machine : T → Machine I S U} {fine : Config T G I A → Config T G I A → Prop}
    {check : Config T G I A → Config T G I A → Bool} (sound : ∀ before after, check before after = true → fine before after)
    (moves : List (Move T S G U I A)) (config : Config T G I A) (allowed : ∀ next ∈ moves, Allowed rules machine next)
    (passed : team.passes machine check moves config = true) :
    team.ReachableBy rules fine config (team.follow machine moves config) := by
  induction moves generalizing config with
  | nil => exact .refl
  | cons next rest ih =>
    obtain ⟨here, later⟩ := (Bool.and_eq_true _ _).mp passed
    have onward := ih _ (fun other member => allowed other (by simp [member])) later
    rcases move_step (allowed next (by simp)) config with same | step
    · rw [same] at onward
      simpa only [follow, same] using onward
    · exact .head ⟨step, sound _ _ here⟩ onward

theorem follow_reachable {machine : T → Machine I S U} (moves : List (Move T S G U I A))
    (config : Config T G I A) (allowed : ∀ next ∈ moves, Allowed rules machine next) :
    team.Reachable rules config (team.follow machine moves config) := by
  induction moves generalizing config with
  | nil => exact .refl
  | cons next rest ih =>
    have onward := ih (team.move machine config next) fun other member => allowed other (by simp [member])
    have moved : team.move machine config next = config ∨ team.Step rules config (team.move machine config next) :=
      move_step (allowed next (by simp)) config
    rcases moved with same | step
    · rw [same] at onward
      simpa only [follow, same] using onward
    · exact .head step onward

/-- Rules whose operations have to meet a condition on the state before. -/
def Rules.restrict (rules : Rules T S G I A) (allows : T → I.Op → S → Prop) : Rules T S G I A :=
  { rules with effect := fun member op s reply u => rules.effect member op s reply u ∧ allows member op s }

/-- Every operation of a schedule passes a check on the state before it. -/
def meets (team : Team T S G) (machine : T → Machine I S U) (check : T → I.Op → S → Bool) :
    List (Move T S G U I A) → Config T G I A → Bool
  | [], _ => true
  | next :: rest, config =>
      (match next with
        | .operate member _ =>
            match config.prog member with
            | .call op _ => check member op (team.view member config.shared)
            | _ => true
        | _ => true) && team.meets machine check rest (team.move machine config next)

theorem follow_restricted {machine : T → Machine I S U} {allows : T → I.Op → S → Prop} {check : T → I.Op → S → Bool}
    (sound : ∀ member op s, check member op s = true → allows member op s) (moves : List (Move T S G U I A))
    (config : Config T G I A) (allowed : ∀ next ∈ moves, Allowed rules machine next)
    (met : team.meets machine check moves config = true) :
    team.Reachable (rules.restrict allows) config (team.follow machine moves config) := by
  induction moves generalizing config with
  | nil => exact .refl
  | cons next rest ih =>
    obtain ⟨here, later⟩ := (Bool.and_eq_true _ _).mp met
    have onward := ih _ (fun other member => allowed other (by simp [member])) later
    -- A move does nothing where its member is not at such a point.
    have step : team.move machine config next = config ∨
        team.Step (rules.restrict allows) config (team.move machine config next) := by
      have permitted := allowed next (by simp)
      cases next with
      | operate member turn =>
        cases found : config.prog member with
        | done value => exact .inl (by simp only [move, found])
        | halt => exact .inl (by simp only [move, found])
        | call op next =>
          simp only [found] at here
          simp only [move, found]
          exact .inr (.operate found ⟨permitted op _, sound member op _ here⟩)
      | start member launch =>
        cases found : config.prog member with
        | done value => simp only [move, found]; exact .inr (.start found (permitted value _))
        | halt => exact .inl (by simp only [move, found])
        | call op next => exact .inl (by simp only [move, found])
      | ambient f => exact .inr (.ambient (permitted config.shared))
    rcases step with same | step
    · rw [same] at onward
      simpa only [follow, same] using onward
    · exact .head step onward

end Team
end MonakaFs.Async
