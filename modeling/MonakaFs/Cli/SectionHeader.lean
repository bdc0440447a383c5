import MonakaFs.FsCore.Types

/-! Where the header of a section starts.

The header is an identifier and a length, seven bits a byte. It is looked for from the
contents backwards, since the parser only tells where the contents start.
-/

set_option autoImplicit false

namespace MonakaFs.Cli.SectionHeader

open FsCore

/-- The highest bit says that more bytes of the number follow. -/
def continued (byte : UInt8) : Bool := byte &&& 0x80 != 0

/-! ### Numbers -/

def writeLeb128 (value : Nat) : Bytes :=
  let byte := UInt8.ofNat value &&& 0x7f
  if value / 2 ^ 7 = 0 then [byte] else (byte ||| 0x80) :: writeLeb128 (value / 2 ^ 7)

/-- The number that some bytes are, lowest bits first. -/
def readLeb128 : Bytes → Option Nat
  | [] => none
  | byte :: rest =>
      if continued byte then (readLeb128 rest).map fun high => byte.toNat % 2 ^ 7 + 2 ^ 7 * high
      else if rest = [] then some byte.toNat else none

/-! ### The search -/

/-- Where the number that starts at `pos` ends, but no later than `contentStart`. -/
def skipLeb128 (bytes : Bytes) (contentStart : Nat) : Nat → Nat → Nat
  | 0, pos => pos
  | left + 1, pos =>
      if contentStart ≤ pos then pos
      else
        match bytes[pos]? with
        | none => pos
        | some byte => if continued byte then skipLeb128 bytes contentStart left (pos + 1) else pos + 1

/-- There is a header with its number up to the contents. -/
def IsHeader (bytes : Bytes) (contentStart : Nat) (sectionId : UInt8) (start : Nat) : Prop :=
  bytes[start]? = some sectionId ∧ skipLeb128 bytes contentStart (contentStart - (start + 1)) (start + 1) = contentStart

instance (bytes : Bytes) (contentStart : Nat) (sectionId : UInt8) (start : Nat) : Decidable (IsHeader bytes contentStart sectionId start) :=
  inferInstanceAs (Decidable (_ ∧ _))

/-- Look back from some distance on, as often as is said. -/
def search (bytes : Bytes) (contentStart : Nat) (sectionId : UInt8) : Nat → Nat → Option Nat
  | 0, _ => none
  | times + 1, lookback =>
      if contentStart < lookback then search bytes contentStart sectionId times (lookback + 1)
      else if IsHeader bytes contentStart sectionId (contentStart - lookback) then some (contentStart - lookback)
      else search bytes contentStart sectionId times (lookback + 1)

def findSectionHeaderStart (bytes : Bytes) (contentStart : Nat) (sectionId : UInt8) : Except String Nat :=
  match search bytes contentStart sectionId 5 2 with
  | some start => .ok start
  | none => .error ("Could not find section header start for section ID " ++ toString sectionId)

/-! ### What is found -/

section
variable {bytes encoding before after : Bytes} {contentStart n : Nat} {sectionId : UInt8}

/-- The nearest header is found. -/
theorem search_nearest {times lookback distance : Nat} (header : IsHeader bytes contentStart sectionId (contentStart - distance))
    (far : distance ≤ contentStart) (from' : lookback ≤ distance) (reached : distance < lookback + times)
    (nearest : ∀ nearer, lookback ≤ nearer → nearer < distance → ¬ IsHeader bytes contentStart sectionId (contentStart - nearer)) :
    search bytes contentStart sectionId times lookback = some (contentStart - distance) := by
  induction times generalizing lookback with
  | zero => exact absurd reached (Nat.not_lt.mpr from')
  | succ times ih =>
    unfold search
    rw [if_neg (Nat.not_lt.mpr (Nat.le_trans from' far))]
    by_cases here : lookback = distance
    · rw [here, if_pos header]
    · rw [if_neg (nearest lookback (Nat.le_refl _) (Nat.lt_of_le_of_ne from' here))]
      exact ih (by omega) (by omega) fun nearer ahead => nearest nearer (Nat.le_of_succ_le ahead)

theorem readLeb128_cons {byte : UInt8} {rest : Bytes} (read : readLeb128 (byte :: rest) = some n) :
    (continued byte = true ∧ ∃ high, readLeb128 rest = some high) ∨ (continued byte = false ∧ rest = []) := by
  unfold readLeb128 at read
  split at read
  · next goesOn =>
    obtain ⟨high, found, -⟩ := Option.map_eq_some_iff.mp read
    exact .inl ⟨goesOn, high, found⟩
  · next ends =>
    split at read
    · next last => exact .inr ⟨Bool.eq_false_iff.mpr ends, last⟩
    · cases read

/-- The end of a number is found. -/
theorem skipLeb128_number (read : readLeb128 encoding = some n) {left : Nat} (enough : encoding.length ≤ left) :
    skipLeb128 (before ++ encoding ++ after) (before.length + encoding.length) left before.length = before.length + encoding.length := by
  induction encoding generalizing before left n with
  | nil => cases read
  | cons byte rest ih =>
    cases left with
    | zero => cases enough
    | succ left =>
      have there : (before ++ byte :: rest ++ after)[before.length]? = some byte := by simp
      unfold skipLeb128
      rw [if_neg (by rw [List.length_cons]; omega), there]
      dsimp only
      rcases readLeb128_cons read with ⟨goesOn, high, found⟩ | ⟨ends, rfl⟩
      · rw [if_pos goesOn]
        have next := @ih (before ++ [byte]) high found left (Nat.le_of_succ_le_succ enough)
        rw [List.length_append, List.length_singleton] at next
        simp only [List.append_assoc, List.cons_append, List.length_cons] at next ⊢
        rw [Nat.add_assoc, Nat.add_comm 1] at next
        exact next
      · rw [if_neg (by rw [ends]; decide)]
        rfl

/-- All bytes of a number but the last are continued. -/
theorem readLeb128_continued (read : readLeb128 encoding = some n) {k : Nat} (inner : k + 1 < encoding.length) :
    ∃ byte, encoding[k]? = some byte ∧ continued byte = true := by
  induction encoding generalizing k n with
  | nil => cases read
  | cons byte rest ih =>
    rcases readLeb128_cons read with ⟨goesOn, high, found⟩ | ⟨-, rfl⟩
    · cases k with
      | zero => exact ⟨byte, rfl, goesOn⟩
      | succ k => exact ih found (Nat.lt_of_succ_lt_succ inner)
    · exact absurd inner (Nat.not_lt.mpr (Nat.succ_le_succ (Nat.zero_le _)))

/-- The identifier of a section is no byte of a number that goes on. -/
theorem not_continued (known : sectionId = 1 ∨ sectionId = 4) : continued sectionId = false := by
  rcases known with rfl | rfl <;> decide

theorem findSectionHeaderStart_number (content : Bytes) (known : sectionId = 1 ∨ sectionId = 4) (read : readLeb128 encoding = some n)
    (short : encoding.length ≤ 5) :
    findSectionHeaderStart (before ++ [sectionId] ++ encoding ++ content) (before.length + 1 + encoding.length) sectionId = .ok before.length := by
  have some' : 1 ≤ encoding.length := by
    cases encoding with
    | nil => cases read
    | cons byte rest => exact Nat.succ_le_succ (Nat.zero_le _)
  have start : before.length + 1 + encoding.length - (encoding.length + 1) = before.length := by omega
  have header : IsHeader (before ++ [sectionId] ++ encoding ++ content) (before.length + 1 + encoding.length) sectionId before.length := by
    constructor
    · simp
    · have skipped := @skipLeb128_number encoding (before ++ [sectionId]) content n read (before.length + 1 + encoding.length - (before.length + 1)) (by omega)
      rw [List.length_append, List.length_singleton] at skipped
      exact skipped
  have nearest (nearer : Nat) (two : 2 ≤ nearer) (near : nearer < encoding.length + 1) :
      ¬ IsHeader (before ++ [sectionId] ++ encoding ++ content) (before.length + 1 + encoding.length) sectionId
        (before.length + 1 + encoding.length - nearer) := by
    -- Such a place is inside the number, where all bytes are continued.
    rintro ⟨there, -⟩
    obtain ⟨byte, found, goesOn⟩ := @readLeb128_continued encoding n read (encoding.length - nearer) (by omega)
    have length : (before ++ [sectionId]).length = before.length + 1 := by rw [List.length_append, List.length_singleton]
    have place : before.length + 1 + encoding.length - nearer - (before ++ [sectionId]).length = encoding.length - nearer := by omega
    rw [List.getElem?_append_left (by rw [List.length_append]; omega), List.getElem?_append_right (by omega), place, found] at there
    rw [Option.some.inj there, not_continued known] at goesOn
    cases goesOn
  have found := @search_nearest _ _ sectionId 5 2 (encoding.length + 1) (by rw [start]; exact header) (by omega) (by omega) (by omega) nearest
  unfold findSectionHeaderStart
  rw [found, start]

end

/-! ### What is written -/

theorem low_bits (i : Fin 256) : continued (UInt8.ofNat i &&& 0x7f) = false ∧ (UInt8.ofNat i &&& 0x7f).toNat = i % 2 ^ 7 ∧
    continued ((UInt8.ofNat i &&& 0x7f) ||| 0x80) = true ∧ ((UInt8.ofNat i &&& 0x7f) ||| 0x80).toNat % 2 ^ 7 = i % 2 ^ 7 := by
  revert i
  decide +kernel

theorem ofNat_mod (value : Nat) : UInt8.ofNat value = UInt8.ofNat (value % 256) := by
  apply UInt8.toNat_inj.mp
  rw [UInt8.toNat_ofNat', UInt8.toNat_ofNat', Nat.mod_mod]

theorem readLeb128_writeLeb128 (value : Nat) : readLeb128 (writeLeb128 value) = some value := by
  induction value using Nat.strongRecOn with
  | ind value ih =>
    obtain ⟨last, low, goesOn, high⟩ := low_bits ⟨value % 256, Nat.mod_lt _ (by decide)⟩
    dsimp only at last low goesOn high
    rw [← ofNat_mod] at last low goesOn high
    rw [writeLeb128]
    split
    · next small =>
      rw [readLeb128, last, if_neg Bool.false_ne_true, if_pos rfl, low]
      congr 1
      omega
    · next large =>
      rw [readLeb128, if_pos goesOn, ih (value / 2 ^ 7) (by omega), Option.map_some, high]
      congr 1
      omega

/-- Seven bits a byte. -/
theorem length_writeLeb128 {value k : Nat} (small : value < 2 ^ (7 * (k + 1))) : (writeLeb128 value).length ≤ k + 1 := by
  induction k generalizing value with
  | zero =>
    rw [writeLeb128, if_pos (Nat.div_eq_of_lt small)]
    exact Nat.le_refl 1
  | succ k ih =>
    rw [writeLeb128]
    split
    · exact Nat.succ_le_succ (Nat.zero_le _)
    · refine Nat.succ_le_succ (ih (Nat.div_lt_of_lt_mul ?_))
      rw [← Nat.pow_add, Nat.add_comm]
      exact small

/-- A header is found, whatever its number is made of and whatever is before it. The number
that is written is such a number. -/
theorem findSectionHeaderStart_exact :
    (∀ (before encoding content : Bytes) (sectionId : UInt8) (n : Nat), sectionId = 1 ∨ sectionId = 4 → n < 2 ^ 32 → readLeb128 encoding = some n →
      encoding.length ≤ 5 →
      findSectionHeaderStart (before ++ [sectionId] ++ encoding ++ content) (before.length + 1 + encoding.length) sectionId = .ok before.length) ∧
    ∀ n < 2 ^ 32, readLeb128 (writeLeb128 n) = some n ∧ (writeLeb128 n).length ≤ 5 := by
  constructor
  · exact fun before encoding content sectionId n known _ read short => findSectionHeaderStart_number content known read short
  · exact fun n word => ⟨readLeb128_writeLeb128 n, length_writeLeb128 (Nat.lt_of_lt_of_le word (by decide))⟩

/-- A length whose first byte is like the identifier but for the highest bit, after a prefix that looks like a header. -/
theorem header_after_header : findSectionHeaderStart [4, 1, 1, 4, 0x81, 0x01, 9] 6 4 = .ok 3 :=
  findSectionHeaderStart_exact.1 [4, 1, 1] [0x81, 0x01] [9] 4 129 (.inr rfl) (by decide) (by decide) (by decide)

end MonakaFs.Cli.SectionHeader
