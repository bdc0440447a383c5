import MonakaFs.Sync.Cluster
import MonakaFs.Sync.Runs

/-! What holds of everything an instance has done.

The steps of the instances may be restricted by a condition. If every call keeps an
invariant of the instance and accounts for its own steps, then in every interleaving
the whole history of every instance is accounted for.
-/

set_option autoImplicit false

namespace MonakaFs.Sync

open Async

section
variable [EtagScheme] {F T : Type} [FsBackend F]

/-- An instance whose steps meet a condition and are accounted for. Others leave its
two states alone. -/
def chronicle (fine account : Log F → Entry F → Prop) (admits : Turn → Prop) : Contract (syncSignature F) (Node F) where
  effect op s reply u := (instanceMachine F admits).traced.effect op s reply u ∧ fine s.log ⟨op, reply, s.state, u.state⟩
  rely s t := t.state.manager = s.state.manager ∧ t.state.fs = s.state.fs ∧ t.log = s.log
  rely_refl := @aside_refl _ F
  rely_trans := @aside_trans _ F
  guarantee op s reply u := account s.log ⟨op, reply, s.state, u.state⟩

/-- The rules of a cluster in which every step meets a condition. -/
def conditioned (fine : Log F → Entry F → Prop) (rules : Team.Rules T (Node F) (Cluster T F) (syncSignature F) Bool) :
    Team.Rules T (Node F) (Cluster T F) (syncSignature F) Bool :=
  { rules with effect := fun member op s reply u => rules.effect member op s reply u ∧ fine s.log ⟨op, reply, s.state, u.state⟩ }

variable [DecidableEq T] {fine account : Log F → Entry F → Prop} {admits : Turn → Prop} {manager : T → SyncManager}
  {permits : T → Call F → Prop} {ambient : ObjectStore → ObjectStore → Prop} {inv : T → Node F → Prop}

/-- What each instance has to keep for its history to be accounted for. -/
structure Accounts (fine account : Log F → Entry F → Prop) (admits : Turn → Prop) (manager : T → SyncManager)
    (permits : T → Call F → Prop) (inv : T → Node F → Prop) : Prop where
  blank : ∀ member (s : Node F), s.log = [] → (∃ now, s.state.manager = .new .empty now) → inv member s
  stable : ∀ member (s t : Node F), inv member s → (chronicle fine account admits).rely s t → inv member t
  load : ∀ member (fresh : F) s, inv member s →
    (chronicle fine account admits).Safe (fun _ t => inv member t) (initServer fresh) s
  call : ∀ member call s, permits member call → inv member s →
    (chronicle fine account admits).Safe (fun _ t => inv member t) (call.task (manager member)) s

theorem Accounts.fits (accounts : Accounts fine account admits manager permits inv) :
    instances.Fits (conditioned fine (clusterRules manager admits permits ambient))
      (fun cluster : Cluster T F => ∀ member, Throughout account (cluster.nodes member).log)
      (fun _ => chronicle fine account admits) (fun member _ => inv member) where
  effect _ := rfl
  kept member op cluster reply s holds effect guarantee other := by
    by_cases same : other = member
    · subst same
      simp only [instances, Cluster.put, Function.update_self, (node_effect effect.1).2]
      exact ⟨guarantee, holds other⟩
    · simpa only [instances, Cluster.put, Function.update_of_ne same] using holds other
  others member op cluster reply s _ _ _ other different := by
    simp [chronicle, instances, Cluster.put, Cluster.view, different]
  ambient_kept cluster later holds moved member := by rw [moved.2.2]; exact holds member
  ambient cluster later _ moved member := by simp [chronicle, instances, Cluster.view, moved.2.2]
  starts member started s p t held starts := by
    -- A member starts with a fresh load, or with a permitted call.
    have returned (u : Node F) (held : inv member u) : (chronicle fine account admits).Safe (fun _ => inv member)
        (.done true : Task F Bool) u := fun v moves => accounts.stable member u v held moves
    obtain ⟨rfl, ⟨-, fresh, rfl⟩ | ⟨-, call, permitted, rfl⟩⟩ := starts
    · exact (accounts.load member fresh _ held).bind fun _ u held => returned u held
    · exact (accounts.call member call _ permitted held).bind fun _ u held => returned u held
  starts_kept member started cluster p s holds _ starts other := by
    obtain ⟨rfl, -⟩ := starts
    by_cases same : other = member
    · subst same
      simpa [instances, Cluster.put, Cluster.view] using holds other
    · simpa only [instances, Cluster.put, Function.update_of_ne same] using holds other
  starts_others member started cluster p s _ starts other different := by
    obtain ⟨rfl, -⟩ := starts
    simp [chronicle, instances, Cluster.put, Cluster.view]

/-- In every run from a cluster that has not started every history is accounted for. -/
theorem Accounts.history (accounts : Accounts fine account admits manager permits inv) {first last : ClusterConfig T F}
    (unstarted : Unstarted first)
    (reached : instances.Reachable (conditioned fine (clusterRules manager admits permits ambient)) first last)
    (member : T) : Throughout account (last.shared.nodes member).log := by
  refine (accounts.fits.reachable ⟨fun member => ?_, fun member => ?_⟩ reached).1 member
  · rw [(unstarted member).2.1]
    trivial
  · obtain ⟨idle, empty, fresh⟩ := unstarted member
    rw [idle]
    exact fun t moves => accounts.stable member _ t (accounts.blank member _ empty fresh) moves

end

/-! ### Concrete runs -/

section
variable [EtagScheme] {F T : Type} [FsBackend F] [DecidableEq T] {fine : Log F → Entry F → Prop}
  {manager : T → SyncManager} {admits : Turn → Prop} {permits : T → Call F → Prop}
  {ambient : ObjectStore → ObjectStore → Prop} {first last : ClusterConfig T F}

/-- A run whose every history meets the condition is a run under that condition. -/
theorem reachable_conditioned (reached : instances.Reachable (clusterRules manager admits permits ambient) first last)
    (met : ∀ member, Throughout fine (last.shared.nodes member).log) :
    instances.Reachable (conditioned fine (clusterRules manager admits permits ambient)) first last := by
  induction reached with
  | refl => exact .refl
  | @tail before after _ step ih =>
    cases step with
    | @operate member op next reply s found effect =>
      have logged : (((before.set member (instances.put member before.shared s) (next reply)).shared.nodes member).log) =
          ⟨op, reply, (before.shared.view member).state, s.state⟩ :: (before.shared.nodes member).log := by
        simp only [Config.set_shared, instances, Cluster.put, Function.update_self, (node_effect effect).2]
        rfl
      have here := met member
      rw [logged] at here
      refine .tail (ih fun other => ?_) (.operate found ⟨effect, here.1⟩)
      by_cases same : other = member
      · subst same
        exact here.2
      · simpa [instances, Cluster.put, same] using met other
    | @start member value p s found starts =>
      obtain ⟨rfl, started⟩ := starts
      refine .tail (ih fun other => ?_) (.start found ⟨rfl, started⟩)
      have unchanged : (instances.put member before.shared (instances.view member before.shared)) = before.shared :=
        instances.put_view member before.shared
      simpa only [Config.set_shared, unchanged] using met other
    | ambient moved =>
      refine .tail (ih fun other => ?_) (.ambient moved)
      rw [← moved.2.2]
      exact met other

end
end MonakaFs.Sync
