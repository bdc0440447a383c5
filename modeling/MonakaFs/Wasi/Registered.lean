import MonakaFs.Wasi.RpcState

/-! The registry against the descriptors that it is about.

The registry maps numbers to server descriptors and back. Here it is compared with a list of
descriptors in which nothing can get out of step.
-/

set_option autoImplicit false

namespace MonakaFs.Wasi.RpcAdapter

open FsCore Fs

/-- Descriptors that were opened: their numbers, what the server calls them, whether they are
still registered, and whether they wait for their streams. -/
structure Registered (state : RpcState) (number : Nat → Nat) (fdOf : Nat → Fd) (kept waits : Nat → Prop) : Prop where
  known : ∀ i, kept i → number i ≠ 0 ∧ state.descriptorToFd (number i) = some (fdOf i)
  apart : ∀ i j, kept i → kept j → number i = number j → i = j
  waiting : ∀ d, d ∈ state.closePending ↔ ∃ i, kept i ∧ waits i ∧ number i = d
  forgotten : ∀ d, d ≠ 0 → state.Mentions d → ∃ i, kept i ∧ number i = d
  back : ∀ fd d, state.fdToDescriptor fd = some d → state.descriptorToFd d = some fd
  root : (state.descriptorToFd 0).isSome

namespace Registered

variable {state : RpcState} {number : Nat → Nat} {fdOf : Nat → Fd} {kept waits : Nat → Prop} {i : Nat}
variable (registered : Registered state number fdOf kept waits)
include registered

theorem next_ne_zero (fresh : state.descriptorToFd state.nextDescriptor = none) : state.nextDescriptor ≠ 0 := by
  intro same
  have root := registered.root
  rw [← same, fresh] at root
  cases root

/-- What is said of other descriptors does not matter. -/
theorem congr {number' : Nat → Nat} {fdOf' : Nat → Fd} {kept' waits' : Nat → Prop} (same : ∀ j, kept' j ↔ kept j)
    (agree : ∀ j, kept j → number' j = number j ∧ fdOf' j = fdOf j ∧ (waits' j ↔ waits j)) :
    Registered state number' fdOf' kept' waits' where
  known j here := by
    have kept := (same j).mp here
    rw [(agree j kept).1, (agree j kept).2.1]
    exact registered.known j kept
  apart j k first second equal := by
    have one := (same j).mp first
    have two := (same k).mp second
    rw [(agree j one).1, (agree k two).1] at equal
    exact registered.apart j k one two equal
  waiting d := by
    rw [registered.waiting d]
    refine exists_congr fun j => ?_
    rw [same j]
    refine and_congr_right fun kept => ?_
    rw [(agree j kept).1, (agree j kept).2.2]
  forgotten d apart mentions := by
    obtain ⟨j, kept, equal⟩ := registered.forgotten d apart mentions
    exact ⟨j, (same j).mpr kept, (agree j kept).1.trans equal⟩
  back := registered.back
  root := registered.root

/-- A new descriptor takes a number that is not in use. -/
theorem allocate (fresh : state.descriptorToFd state.nextDescriptor = none) (fd : Fd) (flags : Nat) {kept' : Nat → Prop} (new : ¬ kept i)
    (more : ∀ j, kept' j ↔ kept j ∨ j = i) (here : ¬ waits i) :
    Registered (state.allocateDescriptor fd flags).2 (Function.update number i state.nextDescriptor) (Function.update fdOf i fd) kept' waits := by
  have root := registered.next_ne_zero fresh
  have old {j : Nat} (kept : kept j) : j ≠ i := fun same => new (same ▸ kept)
  have unused {d : Nat} (used : (state.descriptorToFd d).isSome) : d ≠ state.nextDescriptor := by
    rintro rfl
    rw [fresh] at used
    cases used
  have used {j : Nat} (kept : kept j) : number j ≠ state.nextDescriptor := unused (by rw [(registered.known j kept).2]; rfl)
  dsimp only [RpcState.allocateDescriptor]
  constructor
  · intro j now
    dsimp only
    rcases (more j).mp now with kept | rfl
    · rw [Function.update_of_ne (old kept), Function.update_of_ne (old kept)]
      exact ⟨(registered.known j kept).1, by rw [Function.update_of_ne (used kept)]; exact (registered.known j kept).2⟩
    · rw [Function.update_self, Function.update_self, Function.update_self]
      exact ⟨root, rfl⟩
  · intro j k first second same
    -- Two of the kept are told apart as before, and no kept one has the next number.
    rcases (more j).mp first with kept | rfl <;> rcases (more k).mp second with also | rfl
    · rw [Function.update_of_ne (old kept), Function.update_of_ne (old also)] at same
      exact registered.apart j k kept also same
    · rw [Function.update_of_ne (old kept), Function.update_self] at same
      exact absurd same (used kept)
    · rw [Function.update_self, Function.update_of_ne (old also)] at same
      exact absurd same.symm (used also)
    · rfl
  · intro d
    rw [registered.waiting d]
    constructor
    · rintro ⟨j, kept, waits, same⟩
      exact ⟨j, (more j).mpr (.inl kept), waits, by rw [Function.update_of_ne (old kept)]; exact same⟩
    · rintro ⟨j, now, waits, same⟩
      rcases (more j).mp now with kept | rfl
      · rw [Function.update_of_ne (old kept)] at same
        exact ⟨j, kept, waits, same⟩
      · exact absurd waits here
  · intro d apart mentions
    by_cases last : d = state.nextDescriptor
    · exact ⟨i, (more i).mpr (.inr rfl), by rw [Function.update_self, last]⟩
    -- A number that is not the new one was mentioned before.
    have before : state.Mentions d := by
      unfold RpcState.Mentions at mentions
      dsimp only at mentions
      rw [Function.update_of_ne last, Function.update_of_ne last] at mentions
      refine mentions.imp_right fun mentions => mentions.imp_left fun ⟨fd', there⟩ => ?_
      by_cases same : fd' = fd
      · rw [same, Function.update_self] at there
        exact absurd (Option.some.inj there).symm last
      · rw [Function.update_of_ne same] at there
        exact ⟨fd', there⟩
    obtain ⟨j, kept, same⟩ := registered.forgotten d apart before
    exact ⟨j, (more j).mpr (.inl kept), by rw [Function.update_of_ne (old kept)]; exact same⟩
  · intro fd' d there
    dsimp only at there ⊢
    by_cases same : fd' = fd
    · rw [same, Function.update_self] at there
      -- The file descriptor may have been reused, and then stands for the new number.
      rw [← Option.some.inj there, Function.update_self, same]
    · rw [Function.update_of_ne same] at there
      have back := registered.back fd' d there
      rw [Function.update_of_ne (unused (by rw [back]; rfl))]
      exact back
  · dsimp only
    rw [Function.update_of_ne root.symm]
    exact registered.root

/-- A descriptor is forgotten, and its server descriptor is to be closed. -/
theorem release (here : kept i) {kept' : Nat → Prop} (fewer : ∀ j, kept' j ↔ kept j ∧ j ≠ i) :
    (state.release (number i)).1 = some (fdOf i) ∧ Registered (state.release (number i)).2 number fdOf kept' waits := by
  obtain ⟨root, known⟩ := registered.known i here
  have other {j : Nat} (left : kept' j) : number j ≠ number i := fun same =>
    ((fewer j).mp left).2 (registered.apart j i ((fewer j).mp left).1 here same)
  unfold RpcState.release
  rw [known]
  refine ⟨rfl, ?_⟩
  dsimp only
  constructor
  · intro j left
    have before := registered.known j ((fewer j).mp left).1
    dsimp only
    rw [Function.update_of_ne (other left)]
    exact before
  · exact fun j k first second same => registered.apart j k ((fewer j).mp first).1 ((fewer k).mp second).1 same
  · intro d
    rw [Finset.mem_erase, registered.waiting d]
    constructor
    · rintro ⟨apart, j, kept, waits, rfl⟩
      exact ⟨j, (fewer j).mpr ⟨kept, fun same => apart (by rw [same])⟩, waits, rfl⟩
    · rintro ⟨j, left, waits, rfl⟩
      exact ⟨other left, j, ((fewer j).mp left).1, waits, rfl⟩
  · intro d apart mentions
    unfold RpcState.Mentions at mentions
    dsimp only at mentions
    -- The number is erased everywhere. No other file descriptor stands for it.
    have alone : d ≠ number i := by
      rintro rfl
      simp only [Function.update_self, Option.isSome_none, Bool.false_eq_true, false_or, or_false, Finset.notMem_erase] at mentions
      obtain ⟨fd, there⟩ := mentions
      by_cases same : fd = fdOf i
      · rw [same, Function.update_self] at there
        cases there
      · rw [Function.update_of_ne same] at there
        have back := registered.back fd _ there
        rw [known] at back
        exact same (Option.some.inj back).symm
    have before : state.Mentions d := by
      rw [Function.update_of_ne alone, Function.update_of_ne alone, Function.update_of_ne alone, Finset.mem_erase] at mentions
      refine mentions.imp_right (.imp (fun ⟨fd, there⟩ => ?_) (.imp_right (.imp_right And.right)))
      by_cases same : fd = fdOf i
      · rw [same, Function.update_self] at there
        cases there
      · rw [Function.update_of_ne same] at there
        exact ⟨fd, there⟩
    obtain ⟨j, kept, same⟩ := registered.forgotten d apart before
    exact ⟨j, (fewer j).mpr ⟨kept, fun equal => alone (by rw [← same, equal])⟩, same⟩
  · intro fd d there
    dsimp only at there ⊢
    by_cases same : fd = fdOf i
    · rw [same, Function.update_self] at there
      cases there
    · rw [Function.update_of_ne same] at there
      have back := registered.back fd d there
      have apart : d ≠ number i := by
        rintro rfl
        rw [known] at back
        exact same (Option.some.inj back).symm
      rw [Function.update_of_ne apart]
      exact back
  · dsimp only
    rw [Function.update_of_ne root.symm]
    exact registered.root

/-- A descriptor is dropped before its streams. -/
theorem wait (here : kept i) {waits' : Nat → Prop} (more : ∀ j, waits' j ↔ waits j ∨ j = i) :
    Registered { state with closePending := insert (number i) state.closePending } number fdOf kept waits' := by
  refine { known := registered.known, apart := registered.apart, back := registered.back, root := registered.root, waiting := ?_, forgotten := ?_ }
  · intro d
    rw [Finset.mem_insert, registered.waiting d]
    constructor
    · rintro (rfl | ⟨j, kept, waits, rfl⟩)
      · exact ⟨i, here, (more i).mpr (.inr rfl), rfl⟩
      · exact ⟨j, kept, (more j).mpr (.inl waits), rfl⟩
    · rintro ⟨j, kept, now, rfl⟩
      rcases (more j).mp now with waits | rfl
      · exact .inr ⟨j, kept, waits, rfl⟩
      · exact .inl rfl
  · intro d apart mentions
    by_cases same : d = number i
    · exact ⟨i, here, same.symm⟩
    refine registered.forgotten d apart (mentions.imp_right (.imp_right (.imp_right (.imp_right fun waits => ?_))))
    exact (Finset.mem_insert.mp waits).resolve_left same

/-- The streams of the descriptors that are registered, and of the root, may change. -/
theorem relist {liveStreams : Nat → Option (List Nat)}
    (listed : ∀ d, d ≠ 0 → (liveStreams d).isSome → (state.liveStreams d).isSome ∨ ∃ i, kept i ∧ number i = d) :
    Registered { state with liveStreams := liveStreams } number fdOf kept waits := by
  refine { registered with forgotten := fun d apart mentions => ?_ }
  rcases mentions with known | back | flags | streams | waits
  · exact registered.forgotten d apart (.inl known)
  · exact registered.forgotten d apart (.inr (.inl back))
  · exact registered.forgotten d apart (.inr (.inr (.inl flags)))
  · rcases listed d apart streams with streams | here
    · exact registered.forgotten d apart (.inr (.inr (.inr (.inl streams))))
    · exact here
  · exact registered.forgotten d apart (.inr (.inr (.inr (.inr waits))))

end Registered

end MonakaFs.Wasi.RpcAdapter
