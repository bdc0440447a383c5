import Mathlib

/-! Rust `str` operations on the list of scalar values of a text. -/

set_option autoImplicit false

namespace MonakaFs.Text

def trimStartMatches (c : Char) (text : String) : String :=
  String.ofList (text.toList.dropWhile (· == c))

def trimEndMatches (c : Char) (text : String) : String :=
  String.ofList (text.toList.rdropWhile (· == c))

def trimMatches (c : Char) (text : String) : String := trimEndMatches c (trimStartMatches c text)

/-- The Unicode property White_Space, which `str::trim` removes. -/
def isWhiteSpace (c : Char) : Bool :=
  let n := c.toNat
  (9 ≤ n && n ≤ 13) || n == 32 || n == 0x85 || n == 0xA0 || n == 0x1680 ||
    (0x2000 ≤ n && n ≤ 0x200A) || n == 0x2028 || n == 0x2029 || n == 0x202F || n == 0x205F || n == 0x3000

def trim (text : List Char) : List Char :=
  (text.dropWhile isWhiteSpace).rdropWhile isWhiteSpace

/-- One terminated line, read backwards: a carriage return before the line feed
belongs to the terminator. -/
def closeLine : List Char → List Char
  | '\r' :: before => before.reverse
  | line => line.reverse

/-- `str::lines`, with the current line kept in reverse. -/
def linesFrom : List Char → List Char → List (List Char)
  | [], [] => []
  | current, [] => [current.reverse]
  | current, c :: rest =>
      if c = '\n' then closeLine current :: linesFrom [] rest else linesFrom (c :: current) rest

def lines (text : List Char) : List (List Char) := linesFrom [] text

/-- `str::split_once`: the parts around the first separator. -/
def splitOnce (separator : Char) : List Char → Option (List Char × List Char)
  | [] => none
  | c :: rest =>
      if c = separator then some ([], rest)
      else (splitOnce separator rest).map fun parts => (c :: parts.1, parts.2)

def digit? (c : Char) : Option Nat :=
  if '0' ≤ c ∧ c ≤ '9' then some (c.toNat - '0'.toNat) else none

def digitsFrom (value : Nat) : List Char → Option Nat
  | [] => some value
  | c :: rest => (digit? c).bind fun d => digitsFrom (10 * value + d) rest

def stripPlus : List Char → List Char
  | '+' :: rest => rest
  | text => text

/-- `str::parse::<u64>`: an optional plus sign, at least one digit, no overflow. -/
def parseU64 (text : List Char) : Option Nat :=
  if stripPlus text = [] then none
  else (digitsFrom 0 (stripPlus text)).bind fun value => if value < 2 ^ 64 then some value else none

/-- `str::parse` for an unsigned integer of this width. -/
def parseUnsigned (bits : Nat) (text : List Char) : Option Nat :=
  if stripPlus text = [] then none
  else (digitsFrom 0 (stripPlus text)).bind fun value => if value < 2 ^ bits then some value else none

theorem linesFrom_line (current line rest : List Char) (one : '\n' ∉ line) :
    linesFrom current (line ++ '\n' :: rest) =
      closeLine (line.reverse ++ current) :: linesFrom [] rest := by
  induction line generalizing current with
  | nil => cases current <;> simp [linesFrom]
  | cons c line ih =>
    have step : c ≠ '\n' := fun same => one (same ▸ List.mem_cons_self)
    have tail : '\n' ∉ line := fun member => one (List.mem_cons_of_mem c member)
    cases current <;> simp [linesFrom, step, ih _ tail]

theorem lines_line (line rest : List Char) (one : '\n' ∉ line) :
    lines (line ++ '\n' :: rest) = closeLine line.reverse :: lines rest := by
  simpa [lines] using linesFrom_line [] line rest one

/-- The first line of a text is determined by it. -/
theorem line_inj {first second rest rest' : List Char} (one : '\n' ∉ first) (one' : '\n' ∉ second)
    (same : first ++ '\n' :: rest = second ++ '\n' :: rest') : first = second ∧ rest = rest' := by
  induction first generalizing second with
  | nil =>
    cases second with
    | nil => exact ⟨rfl, (List.cons.inj same).2⟩
    | cons c second => exact absurd (List.cons.inj same).1 fun equal => one' (equal ▸ List.mem_cons_self)
  | cons c first ih =>
    cases second with
    | nil => exact absurd (List.cons.inj same).1 fun equal => one (equal ▸ List.mem_cons_self)
    | cons d second =>
      obtain ⟨rfl, tail⟩ := List.cons.inj same
      have ⟨front, back⟩ := ih (fun member => one (by simp [member])) (fun member => one' (by simp [member])) tail
      exact ⟨by rw [front], back⟩

theorem toDigits_inj {m n : Nat} (same : Nat.toDigits 10 m = Nat.toDigits 10 n) : m = n := by
  rw [← Nat.ofDigitChars_ten_toDigits (n := m), same, Nat.ofDigitChars_ten_toDigits]

theorem closeLine_reverse (line : List Char) (plain : '\r' ∉ line) :
    closeLine line.reverse = line := by
  unfold closeLine
  split
  · next before same =>
    have member : '\r' ∈ line.reverse := by rw [same]; exact List.mem_cons_self
    exact absurd (List.mem_reverse.mp member) plain
  · simp

theorem closeLine_append (front back : List Char) (plain : '\r' ∉ front) :
    closeLine (front ++ back).reverse = front ++ closeLine back.reverse := by
  rw [List.reverse_append]
  cases reversed : back.reverse with
  | nil =>
    rw [List.nil_append, closeLine_reverse _ plain]
    simp [closeLine]
  | cons c rest =>
    rw [List.cons_append]
    by_cases carriage : c = '\r'
    · subst carriage
      simp [closeLine]
    · simp [closeLine, carriage]

theorem lines_last (line : List Char) (one : '\n' ∉ line) : lines (line ++ ['\n']) = [closeLine line.reverse] := by
  rw [lines_line line [] one]
  rfl

theorem splitOnce_append (separator : Char) (key value : List Char) (clean : separator ∉ key) :
    splitOnce separator (key ++ separator :: value) = some (key, value) := by
  induction key with
  | nil => simp [splitOnce]
  | cons c key ih =>
    have step : c ≠ separator := fun same => clean (same ▸ List.mem_cons_self)
    have tail : separator ∉ key := fun member => clean (List.mem_cons_of_mem c member)
    simp [splitOnce, step, ih tail]

theorem digitsFrom_digits (text : List Char) (value : Nat) (digits : ∀ c ∈ text, c.isDigit) :
    digitsFrom value text = some (Nat.ofDigitChars 10 text value) := by
  induction text generalizing value with
  | nil => simp [digitsFrom]
  | cons c rest ih =>
    have range : '0' ≤ c ∧ c ≤ '9' := by
      have digit := digits c (by simp)
      simp only [Char.isDigit, Bool.and_eq_true, decide_eq_true_eq] at digit
      exact digit
    simp [digitsFrom, digit?, range, Nat.ofDigitChars_cons, ih _ fun d member => digits d (by simp [member])]

theorem stripPlus_digits (text : List Char) (digits : ∀ c ∈ text, c.isDigit) : stripPlus text = text := by
  unfold stripPlus
  split
  · have plus := digits '+' (by simp)
    exact absurd plus (by decide)
  · rfl

theorem parseU64_toDigits (n : Nat) (bounded : n < 2 ^ 64) : parseU64 (Nat.toDigits 10 n) = some n := by
  have digits : ∀ c ∈ Nat.toDigits 10 n, c.isDigit := fun c member =>
    Nat.isDigit_of_mem_toDigits (by decide) (by decide) member
  have parsed : digitsFrom 0 (Nat.toDigits 10 n) = some n := by
    rw [digitsFrom_digits _ _ digits, Nat.ofDigitChars_ten_toDigits]
  simp only [parseU64, stripPlus_digits _ digits, Nat.toDigits_ne_nil, if_false, parsed,
    Option.bind_some, bounded, if_true]

theorem isWhiteSpace_digit {c : Char} (digit : c.isDigit) : isWhiteSpace c = false := by
  have range : 48 ≤ c.toNat ∧ c.toNat ≤ 57 := by
    simp only [Char.isDigit, Bool.and_eq_true, decide_eq_true_eq] at digit
    exact digit
  rw [Bool.eq_false_iff]
  intro space
  simp only [isWhiteSpace, Bool.or_eq_true, Bool.and_eq_true, decide_eq_true_eq, beq_iff_eq] at space
  omega

theorem trim_eq_self (text : List Char) (clean : ∀ c ∈ text, isWhiteSpace c = false) :
    trim text = text := by
  have front : text.dropWhile isWhiteSpace = text := by
    cases text with
    | nil => rfl
    | cons c rest => simp [List.dropWhile, clean c (by simp)]
  unfold trim
  rw [front, List.rdropWhile_eq_self_iff]
  intro nonempty
  simp [clean _ (List.getLast_mem nonempty)]

end MonakaFs.Text
