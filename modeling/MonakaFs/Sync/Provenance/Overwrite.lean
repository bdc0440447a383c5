import MonakaFs.Sync.Provenance.Calls

/-! No silent overwrite.

Any number of instances with leases enabled share one store. Each is safe in its
own view while the others do what they like to the store, so in every
interleaving every version that one of them replaces is one its local copy
descends from.
-/

set_option autoImplicit false

namespace MonakaFs.Sync.Provenance

open Async

section
variable [EtagScheme] {F T : Type} [LawfulBackend F] [DecidableEq T]

/-- Every moment of a log replaces only versions the local copy descends from. -/
def JustifiedLog : Log F → Prop
  | [] => True
  | moment :: older => (∀ path version, Justified path version moment older) ∧ JustifiedLog older

theorem JustifiedLog.at {newer older : Log F} {moment : Entry F} (holds : JustifiedLog (newer ++ moment :: older))
    (path : String) (version : MemObject) : Justified path version moment older := by
  induction newer with
  | nil => exact holds.1 path version
  | cons _ _ ih => exact ih holds.2

/-- An instance that has loaded pins only ETags it knows; before that it pins none. -/
def Ready : Bool → Node F → Prop
  | true, s => Grounded none s
  | false, s => Blank s

theorem start_safe {manager : SyncManager} (locking : manager.config.fileLock = true) {started : Bool} {s : Node F}
    {p : Task F Bool} {permits : Call F → Prop} (ready : Ready started s)
    (starts : (started = false ∧ ∃ fresh : F, p = initServer fresh >>= fun _ => .done true) ∨
      (started = true ∧ ∃ call, permits call ∧ p = call.task manager >>= fun _ => .done true)) :
    contract.Safe Ready p s := by
  rcases starts with ⟨rfl, fresh, rfl⟩ | ⟨rfl, call, -, rfl⟩
  · exact (initServer_safe fresh ready).bind fun _ _ grounded => safe_return grounded true
  · exact (call_safe locking call ready).bind fun _ _ grounded => safe_return grounded true

theorem fits {manager : T → SyncManager} (locking : ∀ member, (manager member).config.fileLock = true)
    (permits : T → Call F → Prop) (ambient : ObjectStore → ObjectStore → Prop) :
    instances.Fits (clusterRules manager Truthful permits ambient)
      (fun cluster : Cluster T F => ∀ member, JustifiedLog (cluster.nodes member).log)
      (fun _ => contract) (fun _ => Ready) where
  effect _ := rfl
  kept member op cluster reply s holds effect guarantee other := by
    by_cases same : other = member
    · subst same
      have logged := (node_effect effect).2
      simp only [instances, Cluster.put, Function.update_self, logged]
      exact ⟨guarantee, holds other⟩
    · simpa only [instances, Cluster.put, Function.update_of_ne same] using holds other
  others member op cluster reply s _ _ _ other different := by
    simp [contract, instances, Cluster.put, Cluster.view, different]
  ambient_kept cluster later holds moved member := by rw [moved.2.2]; exact holds member
  ambient cluster later _ moved member := by
    simp [contract, instances, Cluster.view, moved.2.2]
  starts member started s p t ready starts := by
    obtain ⟨rfl, starts⟩ := starts
    exact start_safe (locking member) ready starts
  starts_kept member started cluster p s holds _ starts other := by
    obtain ⟨rfl, -⟩ := starts
    by_cases same : other = member
    · subst same
      simpa [instances, Cluster.put, Cluster.view] using holds other
    · simpa only [instances, Cluster.put, Function.update_of_ne same] using holds other
  starts_others member started cluster p s _ starts other different := by
    obtain ⟨rfl, -⟩ := starts
    simp [contract, instances, Cluster.put, Cluster.view]

theorem sound_unstarted {config : ClusterConfig T F} (unstarted : Unstarted config) :
    instances.Sound (fun cluster : Cluster T F => ∀ member, JustifiedLog (cluster.nodes member).log)
      (fun _ => contract) (fun _ => Ready) config := by
  refine ⟨fun member => ?_, fun member => ?_⟩
  · rw [(unstarted member).2.1]
    trivial
  · obtain ⟨idle, -, now, fresh⟩ := unstarted member
    rw [idle]
    refine Contract.safe_done fun t moves path etag pinned => ?_
    rw [moves.1] at pinned
    simp only [instances, Cluster.view, fresh] at pinned
    rcases pinned with pinned | pinned <;> cases pinned

end

section
open scoped ContentEtags

def sampleManager (_ : Unit) : SyncManager := Sample.manager .batch Sample.first

/-- One instance loads a file, writes it locally and flushes, up to the PUT. -/
def sampleRun : ClusterConfig Unit MemFs :=
  play sampleManager .empty
    [((), .launch .flushOutbound), ((), .perform 6),
      ((), .launch (.write "/a" (MemFs.writeLocal "/a" [2]))), ((), .perform 3),
      ((), .launch .flushOutbound), ((), .perform 7)]
    (Sample.cluster [("files/a", [1])])

def sampleLog : Log MemFs := (sampleRun.shared.nodes ()).log

end
end MonakaFs.Sync.Provenance
