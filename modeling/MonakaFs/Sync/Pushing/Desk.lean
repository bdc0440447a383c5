import MonakaFs.Sync.Agreement
import MonakaFs.Sync.Tasks

/-! Threads that write one leased file and push it.

A write changes the local file and marks the lease dirty afterwards. A push reads
the local file, PUTs what it read, and takes the mark back. A desk remembers for
each thread which of this it is doing.
-/

set_option autoImplicit false

namespace MonakaFs.Sync.Pushing

open Async LawfulBackend

inductive Stage where
  | out
  /-- Has changed the local file, and not marked the lease yet. -/
  | unmarked
  /-- Has read this content, and not taken the mark back yet. -/
  | pushing (read : Bytes)

/-- The stage after an operation. -/
def Stage.next {F : Type} (path : String) (stage : Stage) : (op : Op F) → op.Reply → Stage
  | .app _, _ => .unmarked
  | .leases _, _ => .out
  | .fs (.readFileContent name), reply =>
      match (reply : Except S3Error Bytes) with
      | .ok read => if name = path then .pushing read else stage
      | .error _ => stage
  | _, _ => stage

structure Desk [EtagScheme] (T F : Type) where
  state : Snapshot F
  stages : T → Stage

section
variable [EtagScheme] {T F : Type} (path : String)

/-- No write lands while a push is between its read and taking the mark back, and no PUT of
the file is rejected. -/
def Unhindered (_ : T) (op : Op F) (s : Desk T F) : Prop :=
  match op with
  | .app _ => ∀ member read, s.stages member ≠ .pushing read
  | .request (.put key _ cond) => key = fileKey path → s.state.store.Passes key cond
  | _ => True

variable [LawfulBackend F]

/-- The path is leased and not unlinked. Without a mark there is nothing to push, or a
write whose mark is still to come. A push has read what the file contains. -/
structure Inv (s : Desk T F) : Prop where
  leased : ∃ lease, s.state.manager.leases.lookup path = some lease ∧ lease.pendingDelete = false
  clean : ∀ lease, s.state.manager.leases.lookup path = some lease → lease.dirty = false →
    Agree path s.state ∨ ∃ member, s.stages member = .unmarked
  reads : ∀ member read, s.stages member = .pushing read → content s.state.fs path = some read

variable {path} {s t u : Desk T F}

theorem Inv.still (inv : Inv path s) (still : Still path s.state t.state) (stages : t.stages = s.stages) : Inv path t := by
  constructor
  · rw [still.lease]
    exact inv.leased
  · rw [still.lease, still.agree, stages]
    exact inv.clean
  · rw [still.bytes, stages]
    exact inv.reads

/-- A thread keeps its stage, and what it has pushed stays what the file contains. -/
structure Rely (path : String) (member : T) (s t : Desk T F) : Prop where
  stage : t.stages member = s.stages member
  inv : Inv path s → Inv path t ∧
    ∀ read, s.stages member = .pushing read → Agree path s.state → Agree path t.state

theorem Rely.refl (path : String) (member : T) (s : Desk T F) : Rely path member s s := ⟨rfl, fun inv => ⟨inv, fun _ _ agree => agree⟩⟩

theorem Rely.trans {member : T} (first : Rely path member s t) (second : Rely path member t u) : Rely path member s u where
  stage := second.stage.trans first.stage
  inv inv := by
    obtain ⟨inv, kept⟩ := first.inv inv
    obtain ⟨inv, later⟩ := second.inv inv
    exact ⟨inv, fun read pushing agree => later read (first.stage.trans pushing) (kept read pushing agree)⟩

end

/-! ### How the threads move -/

section
variable [EtagScheme] {T F : Type} [DecidableEq T] [LawfulBackend F] (path : String)

def deskMachine (member : T) : Machine (syncSignature F) (Desk T F) Turn where
  act turn op s :=
    let answer := s.state.act turn op
    (answer.1, ⟨answer.2, Function.update s.stages member ((s.stages member).next path op answer.1)⟩)
  admits := Truthful

/-- How the threads move: they write the file, each write followed by its mark, and they
fsync it. Everybody else leaves the file alone. -/
def deskRules (manager : SyncManager) : Team.Rules T (Desk T F) (Desk T F) (syncSignature F) Unit where
  effect member := (deskMachine path member).effect
  starts _ _ s p u := u = s ∧
    ((∃ change, p = (Call.write path change).task manager) ∨ p = (Call.fsync path).task manager)
  ambient s u := u.stages = s.stages ∧ Still path s.state u.state

abbrev DeskConfig (T F : Type) := Config T (Desk T F) (syncSignature F) Unit

variable {path} {member : T} {s t u : Desk T F}

def contract (path : String) (member : T) : Contract (syncSignature F) (Desk T F) where
  effect op s reply u := (deskMachine path member).effect op s reply u ∧ Unhindered path member op s
  rely := Rely path member
  rely_refl := .refl path member
  rely_trans := .trans
  guarantee _ s _ u := Inv path s → Inv path u ∧ ∀ other read, other ≠ member →
    s.stages other = .pushing read → Agree path s.state → Agree path u.state

theorem desk_effect {op : Op F} {reply : op.Reply} (effect : (deskMachine path member).effect op s reply u) :
    ∃ turn, Truthful turn ∧ reply = (s.state.act turn op).1 ∧ u.state = (s.state.act turn op).2 ∧
      u.stages = Function.update s.stages member ((s.stages member).next path op reply) := by
  obtain ⟨turn, truthful, acted⟩ := effect
  cases acted
  exact ⟨turn, truthful, rfl, rfl, rfl⟩

/-- What a thread knows at a stage; after its PUT, that object and file agree. -/
structure At (path : String) (member : T) (stage : Stage) (pushed : Prop) (s : Desk T F) : Prop where
  inv : Inv path s
  seated : s.stages member = stage
  agree : pushed → Agree path s.state ∧ ∃ read, stage = .pushing read

variable {stage : Stage} {pushed : Prop}

omit [DecidableEq T] in
theorem At.rely (known : At path member stage pushed s) (moves : Rely path member s t) : At path member stage pushed t where
  inv := (moves.inv known.inv).1
  seated := moves.stage.trans known.seated
  agree so := by
    obtain ⟨agree, read, pushing⟩ := known.agree so
    exact ⟨(moves.inv known.inv).2 read (known.seated.trans pushing) agree, read, pushing⟩

/-- One operation of a thread, from what it knows to what it knows then. -/
theorem desk_next {A : Type} {post : A → Desk T F → Prop} {op : Op F} {k : op.Reply → Task F A}
    (known : At path member stage pushed s)
    (rest : ∀ t reply u turn, At path member stage pushed t → Unhindered path member op t → Truthful turn →
      reply = (t.state.act turn op).1 → u.state = (t.state.act turn op).2 →
      u.stages = Function.update t.stages member (stage.next path op reply) →
      (Inv path u ∧ ∀ other read, other ≠ member → t.stages other = .pushing read →
        Agree path t.state → Agree path u.state) ∧ (contract path member).Safe post (k reply) u) :
    (contract path member).Safe post (next op k) s := by
  refine Contract.safe_call fun t moves => ⟨trivial, fun reply u ⟨effect, allowed⟩ => ?_⟩
  have known := known.rely moves
  obtain ⟨turn, truthful, answer, later, stages⟩ := desk_effect effect
  rw [known.seated] at stages
  obtain ⟨kept, safe⟩ := rest t reply u turn known allowed truthful answer later stages
  exact ⟨fun _ => kept, safe⟩

end
end MonakaFs.Sync.Pushing
