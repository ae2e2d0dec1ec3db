import Mathlib.Data.String.Basic
import Std.Data.ExtTreeMap

/-!
# Finite tables keyed by strings

Lookups in updated tables, with the key comparison stated as equality.
-/
namespace MeridianOci.Data

set_option autoImplicit false

abbrev Table (V : Type) := Std.ExtTreeMap String V compare

namespace Table

variable {V : Type} (table : Table V) (key other : String) (value : V)

theorem get?_insert :
    (table.insert key value)[other]? = if key = other then some value else table[other]? := by
  rw [Std.ExtTreeMap.getElem?_insert]
  simp only [Std.compare_eq_iff_eq]

theorem get?_erase : (table.erase key)[other]? = if key = other then none else table[other]? := by
  rw [Std.ExtTreeMap.getElem?_erase]
  simp only [Std.compare_eq_iff_eq]

variable {table key value}

theorem get?_filter {keep : String → V → Bool} :
    (table.filter keep)[key]? = some value ↔ table[key]? = some value ∧ keep key value = true := by
  rw [Std.ExtTreeMap.getElem?_filter']
  simp [Option.filter_eq_some_iff]

theorem insert_self (h : table[key]? = some value) : table.insert key value = table := by
  apply Std.ExtTreeMap.ext_getElem?
  intro other
  rw [get?_insert]
  split
  · rename_i heq
    rw [← heq, h]
  · rfl

theorem insert_insert {value' : V} : (table.insert key value).insert key value' = table.insert key value' := by
  apply Std.ExtTreeMap.ext_getElem?
  intro other
  simp only [get?_insert]
  split <;> rfl

theorem erase_insert (h : table[key]? = none) : (table.insert key value).erase key = table := by
  apply Std.ExtTreeMap.ext_getElem?
  intro other
  rw [get?_erase, get?_insert]
  split
  · rename_i heq
    rw [← heq, h]
  · rfl

end Table

end MeridianOci.Data
