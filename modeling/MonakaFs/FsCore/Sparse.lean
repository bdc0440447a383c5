import MonakaFs.Async.Events
import MonakaFs.FsCore.Contents

/-! Block storage beside a flat array of bytes.

The flat array is what a file is meant to be: writing behind its end and extending it
put zeros into the gap, and reading gives what is there. The blocks hold the same bytes,
but a read stops where there are no more blocks.
-/

set_option autoImplicit false

namespace MonakaFs.FsCore

open Async BlockStorage

/-! ### The flat array -/

namespace Flat

/-- The array, extended with zeros up to a size. -/
def pad (bytes : Bytes) (size : Nat) : Bytes := bytes ++ List.replicate (size - bytes.length) 0

def write (bytes : Bytes) (offset : Nat) (data : Bytes) : Bytes :=
  if data = [] then bytes else (pad bytes offset).take offset ++ data ++ bytes.drop (offset + data.length)

def truncate (bytes : Bytes) (size : Nat) : Bytes := (pad bytes size).take size

def read (bytes : Bytes) (offset wanted : Nat) : Bytes := (bytes.drop offset).take wanted

variable {bytes data : Bytes} {offset size i : Nat}

theorem pad_length (bytes : Bytes) (size : Nat) : (pad bytes size).length = max bytes.length size := by
  simp only [pad, List.length_append, List.length_replicate]
  omega

theorem pad_getD (bytes : Bytes) (size i : Nat) : (pad bytes size).getD i 0 = bytes.getD i 0 := by
  simp only [pad, List.getD_eq_getElem?_getD, List.getElem?_append, List.getElem?_replicate]
  split
  · rfl
  · next behind =>
    rw [List.getElem?_eq_none (Nat.not_lt.mp behind)]
    split <;> rfl

theorem truncate_length (bytes : Bytes) (size : Nat) : (truncate bytes size).length = size := by
  rw [truncate, List.length_take, pad_length]
  omega

theorem truncate_getD (within : i < size) : (truncate bytes size).getD i 0 = bytes.getD i 0 := by
  rw [← pad_getD bytes size i, truncate, List.getD_eq_getElem?_getD, List.getElem?_take_of_lt within, ← List.getD_eq_getElem?_getD]

theorem write_length (some : data ≠ []) : (write bytes offset data).length = max bytes.length (offset + data.length) := by
  simp only [write, some, if_false, List.length_append, List.length_take, List.length_drop, pad_length]
  omega

theorem write_getD (some : data ≠ []) (i : Nat) : (write bytes offset data).getD i 0 =
    if offset ≤ i ∧ i < offset + data.length then data.getD (i - offset) 0 else bytes.getD i 0 := by
  have front : ((pad bytes offset).take offset).length = offset := by
    rw [List.length_take, pad_length]
    omega
  rw [write, if_neg some, List.getD_eq_getElem?_getD, List.append_assoc, List.getElem?_append, front]
  by_cases before : i < offset
  · rw [if_pos before, if_neg (by omega), List.getElem?_take_of_lt before, ← List.getD_eq_getElem?_getD, pad_getD]
  rw [if_neg before, List.getElem?_append]
  by_cases within : i - offset < data.length
  · rw [if_pos within, if_pos (by omega), List.getD_eq_getElem?_getD]
  · rw [if_neg within, if_neg (by omega), List.getElem?_drop, List.getD_eq_getElem?_getD]
    congr 2
    omega

theorem read_length (bytes : Bytes) (offset wanted : Nat) : (read bytes offset wanted).length = min wanted (bytes.length - offset) := by
  rw [read, List.length_take, List.length_drop]

end Flat

/-! ### The blocks hold the array's bytes -/

section
variable {storage : BlockStorage} {bytes data : Bytes} {offset wanted : Nat}

/-- The blocks hold these bytes, and zeros behind them. -/
structure Holds (storage : BlockStorage) (bytes : Bytes) : Prop where
  size : storage.size = bytes.length
  byte : ∀ i, storage.byteAt i = bytes.getD i 0

theorem new_holds : Holds .new [] := ⟨rfl, fun _ => blockByte_behind (Nat.zero_le _)⟩

theorem Holds.truncate (holds : Holds storage bytes) (size : Nat) : Holds (storage.truncate size) (Flat.truncate bytes size) := by
  refine ⟨by rw [truncate_size, Flat.truncate_length], fun i => ?_⟩
  rw [truncate_byte]
  by_cases within : i < size
  · rw [if_neg fun behind => Nat.not_le.mpr within behind.2, Flat.truncate_getD within, holds.byte]
  · have behind : (Flat.truncate bytes size).getD i 0 = 0 := by
      rw [List.getD_eq_getElem?_getD, List.getElem?_eq_none (by rw [Flat.truncate_length]; omega)]
      rfl
    rw [behind]
    by_cases shrinks : size < storage.size
    · rw [if_pos ⟨shrinks, Nat.not_lt.mp within⟩]
    · rw [if_neg fun both => shrinks both.1, holds.byte, List.getD_eq_getElem?_getD,
        List.getElem?_eq_none (by rw [← holds.size]; omega)]
      rfl

variable [target : Target]

theorem Holds.write (holds : Holds storage bytes) (whole : Whole storage) (fits : offset + data.length < 2 ^ target.usizeBits) :
    Holds (storage.write offset data) (Flat.write bytes offset data) := by
  by_cases none : data = []
  · rw [BlockStorage.write, Flat.write, if_pos none, if_pos none]
    exact holds
  · refine ⟨by rw [write_size whole fits none, Flat.write_length none, holds.size], fun i => ?_⟩
    rw [write_byte whole fits, Flat.write_getD none, holds.byte]

/-- The bytes that are to be read lie in front of the end of the last block. -/
def Covered (storage : BlockStorage) (offset wanted : Nat) : Prop :=
  min wanted (storage.size - offset) ≤ storage.blocks.length * BLOCK_SIZE - offset

/-- A write that starts at the end of the blocks or in front of it leaves no gap behind it. -/
theorem writeLoop_covers {rounds : Nat} {blocks : List (Option Bytes)} (near : offset ≤ blocks.length * BLOCK_SIZE) :
    (writeLoop rounds blocks offset data).2 ≤ (writeLoop rounds blocks offset data).1.length * BLOCK_SIZE := by
  induction rounds generalizing blocks offset data with
  | zero => exact near
  | succ rounds ih =>
    by_cases none : data = []
    · rw [none, writeLoop_nil]
      exact near
    · rw [writeLoop_cons rounds none]
      have length : offset / BLOCK_SIZE < (BlockStorage.round blocks offset (data.take (share offset data))).length := by
        rw [BlockStorage.round, List.length_set]
        exact reach_length blocks _
      have fits := share_fits offset data
      rw [share_length] at fits
      refine ih ((Nat.mod_le _ _).trans ?_)
      calc offset + share offset data
        _ = BLOCK_SIZE * (offset / BLOCK_SIZE) + (offset % BLOCK_SIZE + share offset data) := by
          rw [← Nat.add_assoc, Nat.div_add_mod]
        _ ≤ BLOCK_SIZE * (offset / BLOCK_SIZE) + BLOCK_SIZE := Nat.add_le_add_left fits _
        _ = (offset / BLOCK_SIZE + 1) * BLOCK_SIZE := by rw [Nat.succ_mul, Nat.mul_comm]
        _ ≤ _ := Nat.mul_le_mul_right _ length

theorem Holds.read_iff (holds : Holds storage bytes) (whole : Whole storage) :
    storage.read offset wanted = Flat.read bytes offset wanted ↔ Covered storage offset wanted := by
  rw [read_eq whole]
  constructor
  · intro same
    have lengths := congrArg List.length same
    rw [List.length_map, List.length_range, Flat.read_length, ← holds.size] at lengths
    simp only [readable, Covered] at lengths ⊢
    omega
  · intro covered
    have count : min wanted (storage.readable - offset) = min wanted (bytes.length - offset) := by
      rw [← holds.size]
      simp only [readable, Covered] at covered ⊢
      omega
    rw [count]
    refine List.ext_getElem (by rw [List.length_map, List.length_range, Flat.read_length]) fun i here there => ?_
    rw [List.length_map, List.length_range] at here
    simp only [List.getElem_map, List.getElem_range, Flat.read, List.getElem_take, List.getElem_drop]
    rw [holds.byte, List.getD_eq_getElem?_getD, List.getElem?_eq_getElem (by omega), Option.getD_some]

/-! ### Runs -/

/-- What is done to a file. -/
inductive Access where
  | write (offset : Nat) (data : Bytes)
  | truncate (size : Nat)
  | read (offset wanted : Nat)

/-- The arguments are machine words. -/
def Access.IsWord : Access → Prop
  | .write offset data => offset < 2 ^ target.usizeBits ∧ data.length < 2 ^ target.usizeBits
  | .truncate size => size < 2 ^ target.usizeBits
  | .read offset wanted => offset < 2 ^ target.usizeBits ∧ wanted < 2 ^ target.usizeBits

/-- The blocks, and beside them the flat array. -/
def access (both : BlockStorage × Bytes) : Access → BlockStorage × Bytes
  | .write offset data => (both.1.write offset data, Flat.write both.2 offset data)
  | .truncate size => (both.1.truncate size, Flat.truncate both.2 size)
  | .read _ _ => both

/-- Sizes agree afterwards, and a read gives what it gives on the array. -/
def Refines (both : BlockStorage × Bytes) (event : Access) : Prop :=
  (access both event).1.size = (access both event).2.length ∧
    ∀ offset wanted, event = .read offset wanted → both.1.read offset wanted = Flat.read both.2 offset wanted

/-- No write goes beyond the machine words, and no read behind the last block. -/
def Inside (both : BlockStorage × Bytes) : Access → Prop
  | .write offset data => data = [] ∨ offset + data.length < 2 ^ target.usizeBits
  | .truncate _ => True
  | .read offset wanted => Covered both.1 offset wanted

/-- Whole blocks that hold the array's bytes. -/
def Mirrors (both : BlockStorage × Bytes) : Prop := Whole both.1 ∧ Holds both.1 both.2

variable {both : BlockStorage × Bytes} {event : Access}

theorem access_mirrors (word : event.IsWord) (within : Inside both event) (mirrors : Mirrors both) : Mirrors (access both event) := by
  obtain ⟨whole, holds⟩ := mirrors
  cases event with
  | write offset data =>
    refine ⟨write_whole whole word.1, ?_⟩
    rcases within with none | fits
    · have fits : offset + data.length < 2 ^ target.usizeBits := by rw [none]; exact word.1
      exact holds.write whole fits
    · exact holds.write whole fits
  | truncate size => exact ⟨truncate_whole whole word, holds.truncate size⟩
  | read offset wanted => exact ⟨whole, holds⟩

theorem refines_event_iff (word : event.IsWord) (mirrors : Mirrors both) : Refines both event ↔ Inside both event := by
  have sizes (within : Inside both event) : (access both event).1.size = (access both event).2.length :=
    (access_mirrors word within mirrors).2.size
  obtain ⟨whole, holds⟩ := mirrors
  cases event with
  | write offset data =>
    refine ⟨fun ⟨size, _⟩ => ?_, fun within => ⟨sizes within, fun _ _ same => (by cases same)⟩⟩
    by_cases none : data = []
    · exact .inl none
    · have written : Whole (both.1.write offset data) := write_whole whole word.1
      have small := written.small
      simp only [access] at size
      rw [size, Flat.write_length none] at small
      exact .inr (lt_of_le_of_lt (Nat.le_max_right ..) small)
  | truncate size => exact ⟨fun _ => trivial, fun within => ⟨sizes within, fun _ _ same => (by cases same)⟩⟩
  | read offset wanted =>
    refine ⟨fun refines => (holds.read_iff whole).mp (refines.2 offset wanted rfl), fun within => ⟨sizes within, ?_⟩⟩
    rintro offset' wanted' same
    cases same
    exact (holds.read_iff whole).mpr within

/-- Blocks do what the flat array does all along a run exactly if every write ends within
the machine words and every read ends in front of the end of the last block. -/
theorem refines_iff {events : List Access} (words : ∀ event ∈ events, event.IsWord) :
    AtEveryEvent access Refines events (.new, []) ↔ AtEveryEvent access Inside events (.new, []) :=
  atEveryEvent_iff words (fun _ _ word mirrors => refines_event_iff word mirrors)
    (fun _ _ word within mirrors => access_mirrors word within mirrors) ⟨new_whole, new_holds⟩

end

/-- A file that was extended and never written. -/
def extended : List Access := [.truncate 3, .read 0 3]

theorem extended_short :
    let _ : Target := ⟨64⟩
    ¬ AtEveryEvent access Refines extended (.new, []) := by
  intro _ refines
  cases refines.2.1.2 0 3 rfl

theorem refines_extended :
    let _ : Target := ⟨64⟩
    AtEveryEvent access Refines extended (.new, []) ↔ AtEveryEvent access Inside extended (.new, []) := by
  let _ : Target := ⟨64⟩
  refine refines_iff fun event member => ?_
  rcases List.mem_cons.mp member with rfl | member
  · exact (by decide : 3 < 2 ^ 64)
  · obtain rfl := List.mem_singleton.mp member
    exact ⟨by decide, by decide⟩

end MonakaFs.FsCore
