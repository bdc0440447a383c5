import MonakaFs.FsCore.Folders
import MonakaFs.Sync.LocalFiles

/-! What the sync layer's calls leave of the in-memory filesystem.

Each is a few calls of the filesystem itself, so what they come to is again a state in
which everything about it holds. A file that was stored brings the directories above it.
-/

set_option autoImplicit false

namespace MonakaFs.Sync

open FsCore

section
variable {T : Type} [TimeProvider T] [target : Target] {fs middle : Fs T} {path : String} {data : Bytes}

/-- A replacement opens, then writes, then closes. -/
theorem writeFileContent_state (made : makeParent path fs = (.ok (), middle)) :
    ∃ opened, opened = (middle.openPathWithFlags path replacing).2 ∧
      ((writeFileContent path data fs).2 = opened ∨ ∃ fd, (middle.openPathWithFlags path replacing).1 = .ok fd ∧
        ((writeFileContent path data fs).2 = (opened.write fd data).2 ∨
          (writeFileContent path data fs).2 = ((opened.write fd data).2.close fd).2)) := by
  refine ⟨_, rfl, ?_⟩
  rw [writeFileContent, FsCall.run_bind, made]
  dsimp only
  rw [FsCall.run_bind]
  cases outcome : middle.openPathWithFlags path replacing with | mk answer opened =>
  cases answer with
  | error e =>
    obtain ⟨e, step⟩ : ∃ e, FsBackend.openWriteTruncate path middle = (.error e, opened) := AdapterFs.openWriteTruncate_error outcome
    rw [step]
    exact .inl rfl
  | ok fd =>
    have step : FsBackend.openWriteTruncate path middle = (.ok fd, opened) := AdapterFs.openWriteTruncate_ok outcome
    refine .inr ⟨fd, rfl, ?_⟩
    rw [step]
    dsimp only
    rw [FsCall.run_bind]
    cases outcome' : opened.write fd data with | mk answer written =>
    cases answer with
    | error e =>
      obtain ⟨e, step'⟩ : ∃ e, FsBackend.write fd data opened = (.error e, written) := AdapterFs.write_error outcome'
      rw [step']
      exact .inl rfl
    | ok n =>
      have step' : FsBackend.write fd data opened = (.ok n, written) := AdapterFs.write_ok outcome'
      rw [step']
      dsimp only
      rw [run_closeQuietly]
      exact .inr rfl

theorem makeParent_working (working : Working fs) (room : fs.nextInode + (components path).length < 2 ^ 64) :
    ∃ middle, makeParent path fs = (.ok (), middle) ∧ Working middle ∧ middle.nextInode ≤ fs.nextInode + (components path).length := by
  unfold makeParent
  cases found : parentPath path with
  | none => exact ⟨fs, rfl, working, Nat.le_add_right ..⟩
  | some parent =>
    dsimp only
    split
    · obtain ⟨tail, whole, -⟩ := parentPath_components found
      have fewer : fs.nextInode + (components parent).length ≤ fs.nextInode + (components path).length := by
        rw [whole, List.length_append]
        exact Nat.add_le_add_left (Nat.le_add_right ..) _
      exact ⟨_, rfl, working.called (.mkdirP parent) (Nat.lt_of_le_of_lt fewer room) trivial, (Fs.mkdirP_next fs parent).trans fewer⟩
    · exact ⟨fs, rfl, working, Nat.le_add_right ..⟩

/-- A fresh descriptor stands at the beginning, so what is written fits if it is small. -/
theorem write_fits {fd : Fd} (answer : (fs.openPathWithFlags path replacing).1 = .ok fd) (small : data.length < 2 ^ target.usizeBits) :
    Fits (.write fd data) (fs.openPathWithFlags path replacing).2 := by
  have handed := openPath_handed fs path replacing
  generalize fs.openPathWithFlags path replacing = outcome at handed answer ⊢
  cases handed with
  | refused e beside => cases answer
  | opened id table next =>
    cases answer
    intro handle stored held _ _
    rw [table, AList.lookup_insert] at held
    cases held
    rw [writeOffset, if_neg (show ¬ replacing &&& O_APPEND ≠ 0 by decide), Nat.zero_add]
    exact small

/-- The state after a replacement is one that the filesystem comes to by its own calls. -/
theorem writeFileContent_working (word : target.usizeBits ≤ 64) (working : Working fs)
    (room : fs.nextInode + (components path).length + 1 < 2 ^ 64) (small : data.length < 2 ^ target.usizeBits) :
    Working (writeFileContent path data fs).2 ∧
      (writeFileContent path data fs).2.nextInode ≤ fs.nextInode + (components path).length + 1 := by
  obtain ⟨middle, made, working', few⟩ := @makeParent_working T _ _ fs path working (Nat.lt_of_succ_lt room)
  have space : middle.nextInode + 1 < 2 ^ 64 := Nat.lt_of_le_of_lt (Nat.add_le_add_right few 1) room
  have open' : Working (middle.openPathWithFlags path replacing).2 := working'.called (.openPathWithFlags path replacing) space trivial
  have next : (middle.openPathWithFlags path replacing).2.nextInode ≤ fs.nextInode + (components path).length + 1 :=
    (Fs.openPath_next path replacing (working'.healthy word).sane).trans (Nat.add_le_add_right few 1)
  obtain ⟨opened, rfl, same | ⟨fd, answer, rest⟩⟩ := @writeFileContent_state T _ _ fs middle path data made
  · rw [same]
    exact ⟨open', next⟩
  generalize shape : (middle.openPathWithFlags path replacing).2 = opened at open' next rest
  have fits : Fits (.write fd data) opened := shape ▸ write_fits answer small
  have write : Working (opened.write fd data).2 := open'.called (.write fd data) (Nat.lt_of_le_of_lt next room) fits
  have next' : (opened.write fd data).2.nextInode = opened.nextInode := by
    rw [Fs.write]
    exact (Fs.writeThrough_effect opened fd _ _ data).1.next
  rcases rest with same | same
  · rw [same, next']
    exact ⟨write, next⟩
  · rw [same, (Fs.close_effect _ fd).1.next, next']
    exact ⟨write.called (.close fd) (Nat.lt_of_le_of_lt (next' ▸ next) room) trivial, next⟩

/-- A file that was stored brings the directories above it, and no others. -/
theorem writeFileContent_occupied (word : target.usizeBits ≤ 64) (healthy : Healthy fs) (plain : "." ∉ components path)
    (room : fs.nextInode + (components path).length < 2 ^ 64) (small : data.length < 2 ^ target.usizeBits)
    (stored : (writeFileContent path data fs).1 = .ok ()) (names : List String) :
    (writeFileContent path data fs).2.Occupied names ↔ fs.Occupied names ∨ names <+: (components path).dropLast := by
  obtain ⟨middle, made, grounded, further⟩ := makeParent_grounded word healthy room
  obtain ⟨filled, housed, free⟩ := (writeFileContent_ok_iff word made grounded.healthy further small).mp stored
  have parents : middle.Occupied names ↔ fs.Occupied names ∨ names <+: (components path).dropLast := by
    obtain ⟨middle', made', open', -⟩ := makeParent_housed healthy.sane filled plain room
    cases made.symm.trans made'
    obtain ⟨middle', made', ⟨parent, spelled, parents, rfl⟩ | ⟨top, rfl⟩⟩ := makeParent_made fs filled plain
    · cases made.symm.trans made'
      rw [← parents] at open' ⊢
      refine Fs.mkdirP_occupied healthy.sane spelled (open'.mp housed) ?_ names
      rw [parents, List.length_dropLast]
      exact Nat.lt_of_le_of_lt (Nat.add_le_add_left (Nat.sub_le ..) _) room
    · cases made.symm.trans made'
      rw [top, List.prefix_nil]
      exact ⟨.inl, fun there => there.elim id fun root => root ▸ Fs.occupied_root healthy.sane⟩
  obtain ⟨creates, truncates, writer, -⟩ := replacing_flags
  obtain ⟨opened, rfl, rest⟩ := @writeFileContent_state T _ _ fs middle path data made
  rcases Fs.openPath_empties grounded.healthy.sane path creates truncates writer with
    ⟨root, -⟩ | ⟨-, refused, -⟩ | ⟨-, -, -, opened, id, result, emptied⟩
  · exact absurd root filled
  · exact absurd housed (refused.resolve_right free)
  rw [result] at rest
  have written (fd : Fd) : (opened.write fd data).2.Occupied names ↔ opened.Occupied names := by
    rw [Fs.write]
    exact Fs.occupied_same (Fs.writeThrough_effect opened fd _ _ data).1 names
  rw [← parents, ← emptied.dirs]
  rcases rest with same | ⟨fd, -, same | same⟩
  · rw [same]
  · rw [same, written]
  · rw [same, Fs.occupied_same (Fs.close_effect _ fd).1, written]

end
end MonakaFs.Sync
