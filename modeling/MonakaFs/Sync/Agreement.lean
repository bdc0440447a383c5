import MonakaFs.Sync.Runs

/-! The local copy of a file and its object.

Most operations touch neither. What is left are the reads and writes of the local
file and the requests that write its object.
-/

set_option autoImplicit false

namespace MonakaFs.Sync

open Async LawfulBackend

section
variable {F : Type}

theorem locking_other {r : Request} (locking : r.Locking) (path : String) : r.writes ≠ some (fileKey path) := by
  cases r with
  | list | head | get => exact nofun
  | put key body cond | delete key cond =>
    obtain ⟨other, rfl⟩ := locking
    exact fun same => fileKey_ne_lockKey path other (Option.some.inj same).symm

/-- An operation that leaves every local file, every file's object and every lease alone. -/
def Op.Aside : Op F → Prop
  | .request r => r.Locking
  | .fs (.statModified _) => True
  | .queue _ | .cache _ | .schedule _ | .now | .wake _ | .jitter | .arrange _ => True
  | _ => False

theorem quiet_aside (op : Op F) (quiet : op.Quiet) : op.Aside := by
  cases op with
  | request r => exact quiet
  | now | wake | jitter | arrange => trivial
  | queue | cache | leases | schedule | fs | app => exact quiet.elim

theorem looks_aside (op : Op F) (looks : op.Looks) : op.Aside := by
  cases op with
  | request r =>
    cases r with
    | put | delete => cases looks
    | list | head | get => trivial
  | queue | cache | leases | schedule | now | wake | jitter | fs | arrange | app => exact looks.elim

end

section
variable [EtagScheme] {F : Type} [LawfulBackend F] (path : String)

/-- The object has the bytes of the local file. -/
def Agree (s : Snapshot F) : Prop := (object path s).map (·.data) = content s.fs path

/-- Object, lease and local file of the path are the same. -/
structure Still (s t : Snapshot F) : Prop where
  object : object path t = object path s
  lease : t.manager.leases.lookup path = s.manager.leases.lookup path
  bytes : content t.fs path = content s.fs path

variable {path} {s t u : Snapshot F}

theorem Still.refl (s : Snapshot F) : Still path s s := ⟨rfl, rfl, rfl⟩

theorem Still.trans (first : Still path s t) (second : Still path t u) : Still path s u :=
  ⟨second.object.trans first.object, second.lease.trans first.lease, second.bytes.trans first.bytes⟩

theorem Still.agree (still : Still path s t) : Agree path t ↔ Agree path s := by
  unfold Agree
  rw [still.object, still.bytes]

theorem aside_still {op : Op F} (aside : op.Aside) (turn : Turn) (s : Snapshot F) : Still path s (s.act turn op).2 := by
  cases op with
  | request r => exact ⟨serveWith_other (locking_other aside path), rfl, rfl⟩
  | fs call =>
    cases call with
    | statModified name => exact .refl _
    | readFileContent | writeFileContent | loadFile | unlink | mkdirP | rmdir => exact aside.elim
  | queue | cache | schedule | now | wake | jitter | arrange => exact ⟨rfl, rfl, rfl⟩
  | leases | app => exact aside.elim

theorem read_still (turn : Turn) (s : Snapshot F) : Still path s (s.act turn (.fs (.readFileContent path))).2 :=
  ⟨rfl, rfl, congrFun (read_keeps path s.fs) path⟩

end
end MonakaFs.Sync
