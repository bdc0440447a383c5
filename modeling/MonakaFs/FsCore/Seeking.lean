import MonakaFs.FsCore.Handles

/-! Seeking is computed in signed words.

Positions and sizes are unsigned words and can be larger than any signed one; a base or
a sum beyond the signed range wraps.
-/

set_option autoImplicit false

namespace MonakaFs.FsCore

open Fs

section
variable {T : Type} [TimeProvider T] [target : Target] {fs : Fs T} {fd : Fd}

/-! ### Positions are words -/

def Positioned (fs : Fs T) : Prop := ∀ fd handle, fs.fdTable.lookup fd = some handle → handle.position < 2 ^ 64

theorem perform_positioned (call : Call) (positioned : Positioned fs) : Positioned (call.perform fs) := by
  intro fd handle found
  rcases perform_handles call fs with carried | ⟨flags, -, id, table⟩
  · obtain ⟨position, before, same | small⟩ := carried fd handle found
    · exact same ▸ positioned fd { handle with position := position } before
    · exact small
  · rw [table, Table.lookup_insert] at found
    split at found
    · cases found
      exact Nat.two_pow_pos _
    · exact positioned fd handle found

theorem reachable_positioned (reachable : Reachable fs) : Positioned fs := by
  induction reachable with
  | new => exact fun _ _ found => by cases found
  | called _ call ih => exact perform_positioned call ih
  | restored => exact fun _ _ found => by cases found

/-! ### Seeking -/

/-- Where a seek counts from. -/
def seekBase (handle : FileHandle) (storage : BlockStorage) (whence : Int) : Option Nat :=
  if whence = 0 then some 0
  else if whence = 1 then some handle.position
  else if whence = 2 then some storage.size
  else none

/-- A signed word. -/
def IsI64 (n : Int) : Prop := -2 ^ 63 ≤ n ∧ n < 2 ^ 63

/-- The seek goes to the sum of base and offset if that is an unsigned word and fails
otherwise, without changing anything, and no addition of signed words overflows. -/
def SeeksExactly (fs : Fs T) (fd : Fd) (handle : FileHandle) (storage : BlockStorage) (offset whence : Int) : Prop :=
  match seekBase handle storage whence with
  | none => fs.seek fd offset whence = (.error .invalidArgument, fs)
  | some base => IsI64 (toI64 base + offset) ∧
      if 0 ≤ base + offset ∧ base + offset < 2 ^ 64 then
        (fs.seek fd offset whence).1 = .ok (base + offset).toNat ∧
          (fs.seek fd offset whence).2.fdTable = AList.insert fd { handle with position := (base + offset).toNat } fs.fdTable
      else fs.seek fd offset whence = (.error .invalidArgument, fs)

section
omit [TimeProvider T] target
variable {handle : FileHandle} {inode : Inode} {storage : BlockStorage} {offset whence : Int} {base : Nat}

/-- The base as the code computes it. -/
theorem seekBase_word (handle : FileHandle) (storage : BlockStorage) (whence : Int) :
    (if whence = 0 then some 0
      else if whence = 1 then some (toI64 handle.position)
      else if whence = 2 then some (toI64 storage.size)
      else none) = (seekBase handle storage whence).map fun base : Nat => toI64 base := by
  unfold seekBase
  split
  · rfl
  split
  · rfl
  split
  · rfl
  · rfl

variable (found : fs.fdTable.lookup fd = some handle) (stored : fs.inodeTable.lookup handle.inodeId = some inode)
  (file : inode.content = .file storage)
include found stored file

theorem seek_nowhere (nowhere : seekBase handle storage whence = none) : fs.seek fd offset whence = (.error .invalidArgument, fs) := by
  simp only [seek, found, stored, file, seekBase_word, nowhere, Option.map_none]

theorem seek_from (from' : seekBase handle storage whence = some base) : fs.seek fd offset whence =
    if toI64 (toI64 base + offset) < 0 then (.error .invalidArgument, fs)
    else (.ok (toI64 (toI64 base + offset)).toNat, fs.setPosition fd (toI64 (toI64 base + offset)).toNat) := by
  simp only [seek, found, stored, file, seekBase_word, from', Option.map_some]

end

omit [TimeProvider T] target in
theorem setPosition_table {handle : FileHandle} {position : Nat} (found : fs.fdTable.lookup fd = some handle) :
    (fs.setPosition fd position).fdTable = AList.insert fd { handle with position := position } fs.fdTable := by
  rw [setPosition, found]

omit target in
theorem toI64_eq {n : Int} (signed : IsI64 n) : toI64 n = n := by
  obtain ⟨low, high⟩ := signed
  simp only [toI64, Int.bmod]
  omega

omit target in
/-- Words above the signed ones become negative. -/
theorem toI64_above {n : Int} (above : 2 ^ 63 ≤ n) (below : n < 2 ^ 64 + 2 ^ 63) : toI64 n = n - 2 ^ 64 := by
  simp only [toI64, Int.bmod]
  omega

omit target in
theorem toI64_twice (n : Int) : toI64 (toI64 n) = toI64 n := Int.bmod_bmod

omit target in
/-- A word that did not become negative is still the same. -/
theorem toI64_toNat {n : Nat} (small : n < 2 ^ 64) (positive : ¬ toI64 n < 0) : (toI64 n).toNat = n := by
  by_cases above : n < 2 ^ 63
  · rw [toI64_eq ⟨by omega, by omega⟩, Int.toNat_natCast]
  · rw [toI64_above (by omega) (by omega)] at positive
    omega

omit [TimeProvider T] target in
/-- A seek from the start fails, or moves the position of a descriptor to the offset. -/
theorem seek_start_cases (fs : Fs T) (fd : Fd) (offset : Nat) : (∃ e, fs.seek fd (toI64 offset) 0 = (.error e, fs)) ∨
    ¬ toI64 offset < 0 ∧ (fs.fdTable.lookup fd).isSome ∧
      fs.seek fd (toI64 offset) 0 = (.ok (toI64 offset).toNat, fs.setPosition fd (toI64 offset).toNat) := by
  unfold seek
  split
  · exact .inl ⟨_, rfl⟩
  next handle held =>
  split
  · exact .inl ⟨_, rfl⟩
  split
  · exact .inl ⟨_, rfl⟩
  · rw [if_pos rfl]
    dsimp only
    rw [Int.zero_add, toI64_twice]
    split
    · exact .inl ⟨_, rfl⟩
    · next positive => exact .inr ⟨positive, by rw [held]; rfl, rfl⟩

/-- Every seek on a file is exact whose base and sum are below the signed words' end, and no other. -/
theorem seek_exact_iff {handle : FileHandle} {inode : Inode} {storage : BlockStorage} {offset whence : Int}
    (reachable : Reachable fs) (word : target.usizeBits ≤ 64) (found : fs.fdTable.lookup fd = some handle)
    (stored : fs.inodeTable.lookup handle.inodeId = some inode) (file : inode.content = .file storage) (signed : IsI64 offset) :
    SeeksExactly fs fd handle storage offset whence ↔
      ∀ base, seekBase handle storage whence = some base → (base : Int) < 2 ^ 63 ∧ base + offset < 2 ^ 63 := by
  have position : handle.position < 2 ^ 64 := reachable_positioned reachable fd handle found
  have size : storage.size < 2 ^ 64 := by
    have whole := reachable_whole reachable handle.inodeId ⟨storage, inode.metadata.size⟩ (by
      rw [Fs.node, stored, Option.map_some, Inode.stored, file])
    exact lt_of_lt_of_le whole.small (Nat.pow_le_pow_right (by decide) word)
  unfold SeeksExactly
  cases from' : seekBase handle storage whence with
  | none =>
    refine ⟨fun _ base same => (by cases same), fun _ => ?_⟩
    exact seek_nowhere found stored file from'
  | some base =>
    -- Every base is a 64-bit word, because positions and sizes are.
    have small : base < 2 ^ 64 := by
      unfold seekBase at from'
      split at from'
      · cases from'
        exact Nat.two_pow_pos _
      split at from'
      · cases from'
        exact position
      split at from'
      · cases from'
        exact size
      · cases from'
    dsimp only
    rw [seek_from found stored file from']
    obtain ⟨low, high⟩ := signed
    constructor
    · rintro ⟨whole, answer⟩ _ same
      cases same
      rw [toI64_eq whole] at answer
      obtain ⟨-, bound⟩ := whole
      by_cases below : (base : Int) < 2 ^ 63
      · rw [toI64_eq ⟨by omega, below⟩] at bound
        exact ⟨below, bound⟩
      · -- a large base counts as a negative one
        exfalso
        rw [toI64_above (by omega) (by omega)] at answer
        by_cases word : 0 ≤ base + offset ∧ base + offset < 2 ^ 64
        · have negative : (base : Int) - 2 ^ 64 + offset < 0 := by omega
          rw [if_pos word, if_pos negative] at answer
          cases answer.1
        · have large : ¬ (base : Int) - 2 ^ 64 + offset < 0 := by omega
          rw [if_neg word, if_neg large] at answer
          cases answer
    · intro fits
      obtain ⟨below, sum⟩ := fits base rfl
      have range : IsI64 (base + offset) := ⟨by omega, sum⟩
      rw [toI64_eq ⟨by omega, below⟩, toI64_eq range]
      refine ⟨range, ?_⟩
      by_cases negative : (base : Int) + offset < 0
      · rw [if_neg (by omega), if_pos negative]
      · rw [if_pos (by omega), if_neg negative]
        exact ⟨rfl, setPosition_table found⟩

end

/-- A file whose position was put behind all signed words. -/
def farReader [Target] : Fs MonotonicCounter :=
  (Call.readAt 3 (2 ^ 63) 0).perform ((Call.openPathWithFlags "/f" (O_RDWR ||| O_CREAT)).perform Fs.new)

def emptyFile : Inode := ⟨⟨0, 1, 1, 0o644, false⟩, .file .new⟩

/-- The position is not even reported. -/
theorem farReader_inexact :
    let _ : Target := ⟨64⟩
    Reachable farReader ∧ ¬ SeeksExactly farReader 3 ⟨1, 2 ^ 63, O_RDWR ||| O_CREAT⟩ .new 0 1 := by
  let _ : Target := ⟨64⟩
  refine ⟨.called (.called (.new MonotonicCounter.new) _) _, ?_⟩
  rintro ⟨-, answer, -⟩
  cases answer

theorem nearReader_exact :
    let _ : Target := ⟨64⟩
    SeeksExactly farReader 3 ⟨1, 2 ^ 63, O_RDWR ||| O_CREAT⟩ .new 5 2 ↔ ∀ base,
      seekBase ⟨1, 2 ^ 63, O_RDWR ||| O_CREAT⟩ .new 2 = some base → (base : Int) < 2 ^ 63 ∧ base + (5 : Int) < 2 ^ 63 := by
  let _ : Target := ⟨64⟩
  have reachable : Reachable farReader := .called (.called (.new MonotonicCounter.new) _) _
  exact seek_exact_iff reachable (le_refl 64) rfl (rfl : farReader.inodeTable.lookup 1 = some emptyFile) rfl ⟨by decide, by decide⟩

end MonakaFs.FsCore
