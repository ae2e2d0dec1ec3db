import Mathlib.Data.String.Basic

/-!
# JSON values

Values of Python's `json` module. An object is the list of its items in insertion
order; `sortKeys` is the value that `sort_keys=True` writes. A float is kept as its
literal, which is what `repr` writes and `float` reads back.
-/
namespace MeridianOci.Data

set_option autoImplicit false

inductive Json where
  | null
  | bool (value : Bool)
  | int (value : Int)
  | float (literal : List Char)
  | str (value : String)
  | arr (items : List Json)
  | obj (fields : List (String × Json))
  deriving Inhabited

abbrev JsonObject := List (String × Json)

namespace Json

/-- Whether the double nearest to a literal is `2.0`: its value `m * 10 ^ scale` lies between
the two midpoints `2 - 2 ^ -53` and `2 + 2 ^ -52`, which both round to even. -/
def roundsToTwo (literal : List Char) : Bool :=
  let mantissa := literal.takeWhile fun c => c ≠ 'e' && c ≠ 'E'
  let exponent := (literal.dropWhile fun c => c ≠ 'e' && c ≠ 'E').tail
  let m := Nat.ofDigitChars 10 (mantissa.filter Char.isDigit) 0
  let e := Nat.ofDigitChars 10 (exponent.filter Char.isDigit) 0
  let scale := (if exponent.head? = some '-' then -(e : Int) else e) -
    ((mantissa.dropWhile (· ≠ '.')).tail.length : Int)
  let numerator := m * 10 ^ scale.toNat
  let denominator := 10 ^ (-scale).toNat
  literal.head? ≠ some '-' && decide ((2 ^ 54 - 1) * denominator ≤ numerator * 2 ^ 53) &&
    decide (numerator * 2 ^ 52 ≤ (2 ^ 53 + 1) * denominator)

/-- `value == 2`, for any JSON value; Python compares `2.0` equal to `2`. -/
def isTwo : Json → Bool
  | .int value => value = 2
  | .float literal => roundsToTwo literal
  | _ => false

example : isTwo (.float ['2', '0', 'e', '-', '1']) = true := by decide

/-- `value.get(key)` of a `dict`. -/
def get? (fields : JsonObject) (key : String) : Option Json :=
  (fields.find? fun field => field.1 = key).map (·.2)

def keys (fields : JsonObject) : List String := fields.map (·.1)

/-- `set(value) == names`. -/
def keysAre (fields : JsonObject) (names : List String) : Bool :=
  (keys fields).all (names.contains ·) && names.all ((keys fields).contains ·)

/-- `value[key] = item`: the position of an existing key is kept. -/
def set (fields : JsonObject) (key : String) (item : Json) : JsonObject :=
  match fields with
  | [] => [(key, item)]
  | field :: rest => if field.1 = key then (key, item) :: rest else field :: set rest key item

/-- `value.pop(key, None)`, without the popped item. -/
def pop (fields : JsonObject) (key : String) : JsonObject := fields.filter fun field => field.1 ≠ key

def insertField (field : String × Json) : JsonObject → JsonObject
  | [] => [field]
  | other :: rest =>
      if other.1 < field.1 then other :: insertField field rest else field :: other :: rest

mutual
/-- The same value with the items of every object in key order. -/
def sortKeys : Json → Json
  | .arr items => .arr (sortItems items)
  | .obj fields => .obj (sortFields fields)
  | value => value

def sortItems : List Json → List Json
  | [] => []
  | item :: rest => item.sortKeys :: sortItems rest

def sortFields : JsonObject → JsonObject
  | [] => []
  | (key, item) :: rest => insertField (key, item.sortKeys) (sortFields rest)
end

theorem get?_cons (field : String × Json) (rest : JsonObject) (key : String) :
    get? (field :: rest) key = if field.1 = key then some field.2 else get? rest key := by
  by_cases h : field.1 = key <;> simp [get?, h]

theorem get?_set (fields : JsonObject) (key other : String) (item : Json) :
    get? (set fields key item) other = if key = other then some item else get? fields other := by
  induction fields with
  | nil => simp [set, get?]
  | cons field rest ih =>
    rw [set]
    split
    · rename_i hkey
      rw [get?_cons, get?_cons]
      by_cases hother : key = other <;> simp [hkey, hother]
    · rename_i hkey
      rw [get?_cons, ih, get?_cons]
      by_cases hother : key = other
      · simp [← hother, hkey]
      · simp [hother]

theorem get?_pop (fields : JsonObject) (key other : String) :
    get? (pop fields key) other = if key = other then none else get? fields other := by
  induction fields with
  | nil => simp [pop, get?]
  | cons field rest ih =>
    have hpop : pop (field :: rest) key = if field.1 = key then pop rest key else field :: pop rest key := by
      by_cases hkey : field.1 = key <;> simp [pop, hkey]
    rw [hpop, get?_cons]
    by_cases hkey : field.1 = key
    · rw [if_pos hkey, ih, hkey]
      by_cases hother : key = other <;> simp [hother]
    · rw [if_neg hkey, get?_cons, ih]
      by_cases hother : key = other
      · simp [← hother, hkey]
      · simp [hother]

theorem get?_insertField (field : String × Json) (fields : JsonObject) (key : String) :
    get? (insertField field fields) key =
      if field.1 = key then some field.2 else get? fields key := by
  induction fields with
  | nil => simp [insertField, get?_cons]
  | cons other rest ih =>
    by_cases hlt : other.1 < field.1
    · rw [insertField, if_pos hlt, get?_cons, ih, get?_cons]
      by_cases hk : field.1 = key
      · have hne : other.1 ≠ key := fun h => lt_irrefl _ ((h.trans hk.symm) ▸ hlt)
        simp [hk, hne]
      · simp [hk]
    · rw [insertField, if_neg hlt, get?_cons]

/-- Sorting keys does not change what a lookup finds, except that it is sorted itself. -/
theorem get?_sortFields (fields : JsonObject) (key : String) :
    get? (sortFields fields) key = (get? fields key).map sortKeys := by
  induction fields with
  | nil => rfl
  | cons field rest ih =>
    obtain ⟨name, item⟩ := field
    rw [sortFields, get?_insertField, get?_cons, ih]
    by_cases h : name = key <;> simp [h]

theorem keys_insertField_perm (field : String × Json) (fields : JsonObject) :
    (keys (insertField field fields)).Perm (field.1 :: keys fields) := by
  induction fields with
  | nil => exact List.Perm.refl _
  | cons other rest ih =>
    by_cases hlt : other.1 < field.1
    · rw [insertField, if_pos hlt]
      exact (ih.cons other.1).trans (List.Perm.swap _ _ _)
    · rw [insertField, if_neg hlt]
      exact List.Perm.refl _

theorem keys_sortFields_perm (fields : JsonObject) :
    (keys (sortFields fields)).Perm (keys fields) := by
  induction fields with
  | nil => exact List.Perm.refl _
  | cons field rest ih => exact (keys_insertField_perm _ _).trans (ih.cons _)

theorem keysAre_sortFields (fields : JsonObject) (names : List String) :
    keysAre (sortFields fields) names = keysAre fields names := by
  have hmem := fun name => (keys_sortFields_perm fields).mem_iff (a := name)
  rw [Bool.eq_iff_iff]
  simp only [keysAre, Bool.and_eq_true, List.all_eq_true, List.contains_iff_mem, hmem]

end Json

end MeridianOci.Data
