import MonakaFs.Async.Contract

/-! Futures that are joined.

The futures of one `join_all` are under way together, and one does not wait for another.
Each of them asks the surroundings for one thing, so what matters is the order in which these
requests arrive. The surroundings choose it, and the results come back in the order of the
futures whatever it was.
-/

set_option autoImplicit false

namespace MonakaFs.Async

variable {I : Signature} {S A : Type}

namespace Prog

/-- Run the futures that an order names, each result under its index. -/
def inOrder (futures : List (Prog I A)) : List Nat → Prog I (List (Nat × A))
  | [] => .done []
  | index :: rest =>
      match futures[index]? with
      | some future => do
          let result ← future
          let others ← inOrder futures rest
          return (index, result) :: others
      | none => inOrder futures rest

def joinAll (arrange : Nat → Prog I (List Nat)) (futures : List (Prog I A)) : Prog I (List A) := do
  let order ← arrange futures.length
  let results ← inOrder futures order
  return (List.range futures.length).filterMap fun index => results.lookup index

end Prog

theorem map_some_filterMap {X Y : Type} {f : X → Option Y} {xs : List X} (found : ∀ x ∈ xs, ∃ y, f x = some y) :
    (xs.filterMap f).map some = xs.map f := by
  induction xs with
  | nil => rfl
  | cons x xs ih =>
    obtain ⟨y, here⟩ := found x (by simp)
    rw [List.filterMap_cons_some here, List.map_cons, List.map_cons, ih fun other member => found other (by simp [member]), here]

namespace Contract

variable {C : Contract I S} (inv : List (Nat × A) → S → Prop) {futures : List (Prog I A)}

/-- What each future adds to the results, in any order of them. -/
theorem safe_inOrder (stable : ∀ {done s t}, inv done s → C.rely s t → inv done t)
    (step : ∀ index future done s, futures[index]? = some future → index ∉ done.map Prod.fst → inv done s →
      C.Safe (fun result t => inv (done ++ [(index, result)]) t) future s)
    (order : List Nat) (there : ∀ index ∈ order, index < futures.length) (distinct : order.Nodup)
    (done : List (Nat × A)) (fresh : ∀ index ∈ order, index ∉ done.map Prod.fst) (s : S) (holds : inv done s) :
    C.Safe (fun results t => inv (done ++ results) t ∧ results.map Prod.fst = order) (Prog.inOrder futures order) s := by
  induction order generalizing done s with
  | nil => exact safe_done fun t moves => ⟨by simpa using stable holds moves, rfl⟩
  | cons index rest ih =>
    obtain ⟨here, later⟩ := List.nodup_cons.mp distinct
    have found := List.getElem?_eq_getElem (there index (by simp))
    simp only [Prog.inOrder, found]
    refine (step index _ done s found (fresh index (by simp)) holds).bind fun result t reached => ?_
    have unused : ∀ other ∈ rest, other ∉ (done ++ [(index, result)]).map Prod.fst := fun other member taken => by
      simp only [List.map_append, List.mem_append, List.map_cons, List.map_nil, List.mem_singleton] at taken
      rcases taken with taken | rfl
      · exact fresh other (by simp [member]) taken
      · exact here member
    refine (ih (fun other member => there other (by simp [member])) later _ unused t reached).bind fun results u both => ?_
    exact safe_done fun v moves => ⟨by simpa using stable both.1 moves, by simp [both.2]⟩

/-- The results of a join, by index, and what holds with all of them. -/
theorem safe_joinAll {arrange : Nat → Prog I (List Nat)} {s : S}
    (stable : ∀ {done s t}, inv done s → C.rely s t → inv done t)
    (step : ∀ index future done s, futures[index]? = some future → index ∉ done.map Prod.fst → inv done s →
      C.Safe (fun result t => inv (done ++ [(index, result)]) t) future s)
    (arranged : C.Safe (fun order t => order.Perm (List.range futures.length) ∧ inv [] t) (arrange futures.length) s) :
    C.Safe (fun results t => ∃ done, inv done t ∧ results.length = futures.length ∧
      ∀ index result, results[index]? = some result → (index, result) ∈ done) (Prog.joinAll arrange futures) s := by
  refine arranged.bind fun order t ordered => ?_
  obtain ⟨perm, start⟩ := ordered
  have distinct : order.Nodup := perm.nodup_iff.mpr List.nodup_range
  refine (safe_inOrder inv stable step order (fun index member => List.mem_range.mp (perm.mem_iff.mp member))
    distinct [] (fun index member => by simp) t start).bind fun done u both => ?_
  obtain ⟨holds, names⟩ := both
  -- Every index has come, so the walk over the indices finds a result for each.
  have found : ∀ index ∈ List.range futures.length, ∃ result, done.lookup index = some result := fun index member => by
    have named : index ∈ done.map Prod.fst := by rw [names]; exact perm.mem_iff.mpr member
    obtain ⟨entry, there, rfl⟩ := List.mem_map.mp named
    have some_ := List.lookup_isSome_iff.mpr ⟨entry, there, beq_self_eq_true _⟩
    exact Option.isSome_iff_exists.mp some_
  have all := map_some_filterMap found
  refine safe_done fun v moves => ⟨done, by simpa using stable holds moves, ?_, fun index result there => ?_⟩
  · simpa using congrArg List.length all
  · have inRange : index < futures.length := by
      have bounded := (List.getElem?_eq_some_iff.mp there).1
      have lengths := congrArg List.length all
      simp only [List.length_map, List.length_range] at lengths
      omega
    have entry := congrArg (·[index]?) all
    simp only [List.getElem?_map, there, Option.map_some, List.getElem?_range inRange, Option.some.injEq] at entry
    obtain ⟨front, back, rfl, -⟩ := List.lookup_eq_some_iff.mp entry.symm
    simp

end Contract
end MonakaFs.Async
