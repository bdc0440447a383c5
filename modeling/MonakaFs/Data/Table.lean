import Mathlib

/-! Finite tables: what a lookup finds after an update. -/

set_option autoImplicit false

namespace MonakaFs

abbrev Table (K V : Type) := AList (fun _ : K => V)

namespace Table

variable {K V : Type} [DecidableEq K]

@[simp] theorem lookup_insert (key other : K) (value : V) (table : Table K V) :
    (AList.insert key value table).lookup other = if other = key then some value else table.lookup other := by
  split
  · next same => subst same; exact AList.lookup_insert table
  · next different => exact AList.lookup_insert_ne different

@[simp] theorem lookup_erase (key other : K) (table : Table K V) :
    (AList.erase key table).lookup other = if other = key then none else table.lookup other := by
  split
  · next same => subst same; exact AList.lookup_erase _ table
  · next different => exact AList.lookup_erase_ne different

theorem keys_eq_nil {table : Table K V} : table.keys = [] ↔ ∀ key, table.lookup key = none := by
  rw [List.eq_nil_iff_forall_not_mem]
  exact forall_congr' fun key => AList.lookup_eq_none.symm

end Table
end MonakaFs
