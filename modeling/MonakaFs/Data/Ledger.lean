import Mathlib.Data.List.Infix
import Mathlib.Logic.Function.Basic
import Mathlib.Logic.Relation

/-! Several writers that append chunks to one list.

A writer may hold chunks back and append them later, all at once. Whatever the writers
do, the list only grows, and what was put behind its start are whole chunks, those of
each writer in order.
-/

set_option autoImplicit false

namespace MonakaFs.Ledger

variable {A : Type} {initial : List A} {writer : Nat} {chunk : List A}

/-- The chunks of one writer. -/
def chunksOf (writer : Nat) (chunks : List (Nat × List A)) : List (List A) := (chunks.filter (·.1 = writer)).map (·.2)

def joined (chunks : List (Nat × List A)) : List A := (chunks.map (·.2)).flatten

theorem chunksOf_append (front back : List (Nat × List A)) :
    chunksOf writer (front ++ back) = chunksOf writer front ++ chunksOf writer back := by
  rw [chunksOf, List.filter_append, List.map_append]
  rfl

theorem joined_append (front back : List (Nat × List A)) : joined (front ++ back) = joined front ++ joined back := by
  rw [joined, List.map_append, List.flatten_append]
  rfl

theorem chunksOf_own (chunks : List (List A)) : chunksOf writer (chunks.map (Prod.mk writer)) = chunks := by
  induction chunks with
  | nil => rfl
  | cons chunk chunks ih =>
    rw [chunksOf, List.map_cons, List.filter_cons_of_pos (by simp), List.map_cons]
    exact congrArg _ ih

theorem chunksOf_other {other : Nat} (different : other ≠ writer) (chunks : List (List A)) :
    chunksOf other (chunks.map (Prod.mk writer)) = [] := by
  rw [chunksOf, List.map_eq_nil_iff, List.filter_eq_nil_iff]
  intro entry member
  obtain ⟨chunk, -, rfl⟩ := List.mem_map.mp member
  simpa using different.symm

theorem joined_own (chunks : List (List A)) : joined (chunks.map (Prod.mk writer)) = chunks.flatten := by
  rw [joined, List.map_map]
  exact congrArg _ (List.map_id chunks)

/-- The list, what each writer holds back, and all chunks that were taken from writers. -/
structure State (A : Type) where
  content : List A
  held : Nat → List A
  taken : List (Nat × List A)

/-- A writer gives a chunk, or what it holds back is appended. -/
inductive Move : State A → State A → Prop where
  | take (content : List A) (held : Nat → List A) (taken : List (Nat × List A)) (writer : Nat) (chunk : List A) :
      Move ⟨content, held, taken⟩ ⟨content, Function.update held writer (held writer ++ chunk), taken ++ [(writer, chunk)]⟩
  | push (content : List A) (held : Nat → List A) (taken : List (Nat × List A)) (writer : Nat) :
      Move ⟨content, held, taken⟩ ⟨content ++ held writer, Function.update held writer [], taken⟩

/-- Each chunk that was taken is behind the initial list, once and in its writer's order,
or its writer holds it back. -/
def Accounts (initial : List A) (state : State A) : Prop :=
  ∃ (pushed : List (Nat × List A)) (waiting : Nat → List (List A)), state.content = initial ++ joined pushed ∧
    ∀ writer, (waiting writer).flatten = state.held writer ∧
      chunksOf writer pushed ++ waiting writer = chunksOf writer state.taken

theorem accounts_start (initial : List A) : Accounts initial ⟨initial, fun _ => [], []⟩ :=
  ⟨[], fun _ => [], (List.append_nil initial).symm, fun _ => ⟨rfl, rfl⟩⟩

variable {state later : State A}

theorem Move.accounts (move : Move state later) (accounts : Accounts initial state) : Accounts initial later := by
  obtain ⟨pushed, waiting, content, writers⟩ := accounts
  cases move with
  | take _ held taken writer chunk =>
    refine ⟨pushed, Function.update waiting writer (waiting writer ++ [chunk]), content, fun other => ?_⟩
    obtain ⟨holds, order⟩ := writers other
    dsimp only at holds order ⊢
    rw [Function.update_apply, Function.update_apply, chunksOf_append]
    have one : [(writer, chunk)] = [chunk].map (Prod.mk writer) := rfl
    by_cases same : other = writer
    · subst same
      rw [if_pos rfl, if_pos rfl, one, chunksOf_own, ← List.append_assoc, order, List.flatten_append, holds]
      exact ⟨congrArg _ (List.append_nil chunk), rfl⟩
    · rw [if_neg same, if_neg same, one, chunksOf_other same, List.append_nil]
      exact ⟨holds, order⟩
  | push _ held taken writer =>
    refine ⟨pushed ++ (waiting writer).map (Prod.mk writer), Function.update waiting writer [], ?_, fun other => ?_⟩
    · dsimp only at content ⊢
      rw [content, joined_append, joined_own, (writers writer).1, List.append_assoc]
    · obtain ⟨holds, order⟩ := writers other
      dsimp only at holds order ⊢
      rw [Function.update_apply, Function.update_apply, chunksOf_append]
      by_cases same : other = writer
      · subst same
        rw [if_pos rfl, if_pos rfl, chunksOf_own, List.append_nil]
        exact ⟨rfl, order⟩
      · rw [if_neg same, if_neg same, chunksOf_other same, List.append_nil]
        exact ⟨holds, order⟩

theorem Move.grows (move : Move state later) : state.content <+: later.content := by
  cases move with
  | take => exact List.prefix_rfl
  | push => exact List.prefix_append ..

/-- What writers do, one move after the other. -/
abbrev Moves : State A → State A → Prop := Relation.ReflTransGen Move

theorem Moves.accounts (moves : Moves state later) (accounts : Accounts initial state) : Accounts initial later := by
  induction moves with
  | refl => exact accounts
  | tail _ move ih => exact move.accounts ih

theorem Moves.grows (moves : Moves state later) : state.content <+: later.content := by
  induction moves with
  | refl => exact List.prefix_rfl
  | tail _ move ih => exact ih.trans move.grows

/-- A writer that holds nothing back and has its chunk appended at once. -/
theorem moves_through {content : List A} {held : Nat → List A} {taken : List (Nat × List A)} (none : held writer = []) :
    Moves ⟨content, held, taken⟩ ⟨content ++ chunk, held, taken ++ [(writer, chunk)]⟩ := by
  have push := Move.push content (Function.update held writer (held writer ++ chunk)) (taken ++ [(writer, chunk)]) writer
  rw [Function.update_self, Function.update_idem, none, List.nil_append, ← none, Function.update_eq_self] at push
  have take := Move.take content held taken writer chunk
  rw [none, List.nil_append] at take
  exact .tail (.single take) push

end MonakaFs.Ledger
