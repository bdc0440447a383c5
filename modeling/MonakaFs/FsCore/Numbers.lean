import MonakaFs.FsCore.Isolation

/-! The numbers of descriptors.

Numbers come from a 32-bit counter that starts behind the reserved ones and wraps around.
How many opens there were before tells where it stands.
-/

set_option autoImplicit false

namespace MonakaFs.FsCore

open Fs

variable {T : Type} [TimeProvider T]

/-- The descriptor that a call returns. -/
def Call.Returns (call : Call) (fs : Fs T) (fd : Fd) : Prop :=
  match call with
  | .openPathWithFlags path flags => (fs.openPathWithFlags path flags).1 = .ok fd
  | .openAt dirFd path flags => (fs.openAt dirFd path flags).1 = .ok fd
  | _ => False

/-- A descriptor that is returned is not open, and not reserved. -/
def Fresh (fs : Fs T) (call : Call) : Prop := ∀ fd, call.Returns fs fd → fs.holder fd = none ∧ fd ∉ [0, 1, 2]

/-- The number that an open gets after so many opens. -/
def numberAfter (opens : Nat) : Nat := (opens + 3) % 2 ^ 32

/-- So many opens leave the counter at a number that is neither reserved nor in use. -/
def Unused (opens : Nat) (fs : Fs T) : Prop := opens % 2 ^ 32 < 2 ^ 32 - 3 ∧ fs.holder (numberAfter opens) = none

variable {fs : Fs T} {call : Call} {fd : Fd} {opens n : Nat}

theorem numberAfter_next (opens : Nat) : (numberAfter opens + 1) % 2 ^ 32 = numberAfter (opens + 1) := by
  unfold numberAfter
  omega

theorem numberAfter_reserved : numberAfter opens ∉ [0, 1, 2] ↔ opens % 2 ^ 32 < 2 ^ 32 - 3 := by
  simp only [numberAfter, List.mem_cons, List.not_mem_nil, or_false]
  omega

theorem numberAfter_first (small : n + 1 < 2 ^ 32) : 3 ≠ numberAfter (n + 1) := by
  unfold numberAfter
  omega

omit [TimeProvider T] in
theorem Handed.next {flags : Nat} {outcome : Outcome T Fd} (handed : Handed fs flags outcome) (ok : outcome.1 = .ok fd) :
    fd = fs.nextFd := by
  cases handed with
  | refused e beside => cases ok
  | opened id table next => exact (Except.ok.inj ok).symm

/-- A descriptor that is returned is the one that the counter stands at. -/
theorem returns_next (returns : call.Returns fs fd) : fd = fs.nextFd := by
  cases call with
  | openPathWithFlags path flags => exact (openPath_handed fs path flags).next returns
  | openAt dirFd path flags => exact (openAt_handed fs dirFd path flags).next returns
  | _ => exact returns.elim

/-- The root can always be opened. -/
theorem openRoot (fs : Fs T) : fs.openPathWithFlags "/" 0 = fs.insertFd fs.rootInode 0 := by
  have last : (components "/").getLast? = none := by decide
  rw [openPathWithFlags, if_neg (by decide), last]

/-- Whatever is opened is fresh if the counter stands at a number that is unused, and otherwise the root is not. -/
theorem fresh_unused (here : fs.nextFd = numberAfter opens) : (∀ call, Fresh fs call) ↔ Unused opens fs := by
  constructor
  · intro fresh
    have returns : Call.Returns (.openPathWithFlags "/" 0) fs fs.nextFd := congrArg Prod.fst (openRoot fs)
    obtain ⟨unused, free⟩ := fresh _ _ returns
    rw [here] at unused free
    exact ⟨numberAfter_reserved.mp free, unused⟩
  · intro unused call fd returns
    rw [returns_next returns, here]
    exact ⟨unused.2, numberAfter_reserved.mpr unused.1⟩

section
variable [Target] {run : Nat × Fs T}

/-- A filesystem that was just set up, new or from a snapshot. -/
def SetUp (fs : Fs T) : Prop := (∃ clock, fs = withTimeProvider clock) ∨ ∃ snapshot clock, fs = fromSnapshot snapshot clock

theorem SetUp.nextFd (setUp : SetUp fs) : fs.nextFd = numberAfter 0 := by
  rcases setUp with ⟨clock, rfl⟩ | ⟨snapshot, clock, rfl⟩
  · rfl
  · rfl

/-- A call, with the number of opens so far. -/
def count (run : Nat × Fs T) (call : Call) : Nat × Fs T := (run.1 + call.descriptors run.2, call.perform run.2)

/-- A call takes the counter as far as the opens it makes. -/
theorem perform_nextFd (here : fs.nextFd = numberAfter opens) (call : Call) :
    (call.perform fs).nextFd = numberAfter (opens + call.descriptors fs) := by
  by_cases closes : ∃ fd, call = .close fd
  · obtain ⟨fd, rfl⟩ := closes
    have none : Call.descriptors (.close fd) fs = 0 := if_pos (close_nextFd fs fd)
    rw [none]
    exact (close_nextFd fs fd).trans here
  · cases perform_turn fs call fun fd same => closes ⟨fd, same⟩ with
    | same held next =>
      have none : call.descriptors fs = 0 := if_pos next
      rw [none]
      exact next.trans here
    | opened id held next =>
      have one : call.descriptors fs = 1 := if_neg (by rw [next]; exact nextFd_ne _)
      rw [one, next, here]
      exact numberAfter_next opens

/-- The number of opens tells where the counter stands, all along. -/
theorem count_nextFd {calls : List Call} (here : run.2.nextFd = numberAfter run.1) :
    (calls.foldl count run).2.nextFd = numberAfter (calls.foldl count run).1 := by
  induction calls generalizing run with
  | nil => exact here
  | cons call calls ih =>
    apply ih
    exact perform_nextFd here call

/-- In every state of every run, opens return fresh descriptors exactly if the counter stands at an unused number. -/
theorem fresh_iff (calls : List Call) (setUp : SetUp fs) :
    (∀ call, Fresh (calls.foldl count (0, fs)).2 call) ↔ Unused (calls.foldl count (0, fs)).1 (calls.foldl count (0, fs)).2 :=
  fresh_unused (count_nextFd setUp.nextFd)

end

/-- Two opens, and one close. -/
theorem fresh_twice :
    let _ : Target := .wasm32
    let calls : List Call := [.openPathWithFlags "/" 0, .openPathWithFlags "/" 0, .close 3]
    let run := calls.foldl count (0, withTimeProvider MonotonicCounter.new)
    (∀ call, Fresh run.2 call) ↔ Unused run.1 run.2 :=
  let _ : Target := .wasm32
  fresh_iff _ (.inl ⟨_, rfl⟩)

/-! ### When the counter wraps around -/

/-- Open the root and close it, several times, behind a descriptor that stays open. -/
def cycles : Nat → List Call
  | 0 => [.openPathWithFlags "/" 0]
  | n + 1 => cycles n ++ [.openPathWithFlags "/" 0, .close (numberAfter (n + 1))]

/-- After so many cycles the first descriptor is still open. -/
structure Cycled (n : Nat) (fs : Fs T) : Prop where
  next : fs.nextFd = numberAfter (n + 1)
  first : (fs.holder 3).isSome

theorem Cycled.first_open (cycled : Cycled n fs) (wraps : n + 1 = 2 ^ 32) : ¬ Fresh fs (.openPathWithFlags "/" 0) := by
  intro fresh
  have number : fs.nextFd = 3 := by rw [cycled.next, wraps]; rfl
  have returns : Call.Returns (.openPathWithFlags "/" 0) fs fs.nextFd := congrArg Prod.fst (openRoot fs)
  have unused := (fresh _ returns).1
  have first := cycled.first
  rw [← number, unused] at first
  cases first

omit [TimeProvider T] in
/-- A cycle only takes a number, as long as it is not the first one again. -/
theorem Cycled.cycle (cycled : Cycled n fs) (small : n + 1 < 2 ^ 32) :
    Cycled (n + 1) ((fs.insertFd fs.rootInode 0).2.close (numberAfter (n + 1))).2 := by
  have other := numberAfter_first small
  constructor
  · rw [close_nextFd, ← numberAfter_next, ← cycled.next]
    rfl
  · rw [(close_effect _ _).2, Function.update_of_ne other, (insertFd_effect fs fs.rootInode 0).2, cycled.next,
      Function.update_of_ne other]
    exact cycled.first

section
variable [Target]

theorem performRoot (fs : Fs T) : Call.perform (.openPathWithFlags "/" 0) fs = (fs.insertFd fs.rootInode 0).2 :=
  congrArg Prod.snd (openRoot fs)

theorem cycles_cycled (clock : T) (small : n < 2 ^ 32) : Cycled n ((cycles n).foldl count (0, withTimeProvider clock)).2 := by
  induction n with
  | zero =>
    have opened : ((cycles 0).foldl count (0, withTimeProvider clock)).2 = Call.perform (.openPathWithFlags "/" 0) (withTimeProvider clock) := rfl
    rw [opened, performRoot]
    exact ⟨rfl, rfl⟩
  | succ n ih =>
    have cycled := ih (Nat.lt_of_succ_lt small)
    rw [cycles, List.foldl_append]
    generalize (cycles n).foldl count (0, withTimeProvider clock) = run at cycled ⊢
    have performed : (List.foldl count run [.openPathWithFlags "/" 0, .close (numberAfter (n + 1))]).2 =
        Call.perform (.close (numberAfter (n + 1))) (Call.perform (.openPathWithFlags "/" 0) run.2) := rfl
    rw [performed, performRoot]
    exact cycled.cycle small

theorem cycles_return (clock : T) (wraps : n + 1 = 2 ^ 32) :
    ¬ Fresh ((cycles n).foldl count (0, withTimeProvider clock)).2 (.openPathWithFlags "/" 0) :=
  (cycles_cycled clock (by omega)).first_open wraps

end

/-- After 2 ^ 32 - 1 opens that were closed again, the first descriptor is returned once more, although it is still open. -/
theorem first_returned :
    let _ : Target := .wasm32
    ¬ ∀ (fs : Fs MonotonicCounter) (calls : List Call) (call : Call), SetUp fs → Fresh (calls.foldl count (0, fs)).2 call :=
  let _ : Target := .wasm32
  fun all => @cycles_return _ _ (2 ^ 32 - 1) _ .new (by norm_num) (all _ _ _ (.inl ⟨_, rfl⟩))

end MonakaFs.FsCore
