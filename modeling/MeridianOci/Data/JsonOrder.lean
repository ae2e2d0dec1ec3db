import MeridianOci.Data.JsonText

/-!
# Objects in key order

A value whose objects all are in key order is what `sortKeys` leaves alone, and sorting
gives such a value.
-/
namespace MeridianOci.Data

set_option autoImplicit false

namespace Json

/-- Items in key order, each a value that sorting leaves alone. -/
structure Ordered (fields : JsonObject) : Prop where
  keys : fields.Pairwise fun field other => ¬other.1 < field.1
  items : ∀ field ∈ fields, field.2.sortKeys = field.2

theorem ordered_nil : Ordered [] := ⟨.nil, fun _ h => by cases h⟩

theorem Ordered.sortFields {fields : JsonObject} (h : Ordered fields) : sortFields fields = fields := by
  induction fields with
  | nil => rfl
  | cons field rest ih =>
    obtain ⟨name, item⟩ := field
    obtain ⟨hhead, hkeys⟩ := List.pairwise_cons.mp h.keys
    have hrest := ih ⟨hkeys, fun field hfield => h.items field (List.mem_cons_of_mem _ hfield)⟩
    have hitem : item.sortKeys = item := h.items (name, item) List.mem_cons_self
    rw [Json.sortFields, hrest, hitem]
    cases rest with
    | nil => rfl
    | cons other rest => rw [insertField, if_neg (hhead other List.mem_cons_self)]

theorem Ordered.insertField {fields : JsonObject} (h : Ordered fields) {field : String × Json}
    (hfield : field.2.sortKeys = field.2) : Ordered (insertField field fields) := by
  refine ⟨?_, fun other hother => ?_⟩
  · have hsorted := h.keys
    clear h
    induction fields with
    | nil => exact List.pairwise_singleton _ _
    | cons other rest ih =>
      obtain ⟨hhead, hrest⟩ := List.pairwise_cons.mp hsorted
      rw [Json.insertField]
      split
      · rename_i hlt
        refine List.pairwise_cons.mpr ⟨fun third hthird => ?_, ih hrest⟩
        rcases mem_insertField.mp hthird with rfl | hmem
        · exact not_lt_of_gt hlt
        · exact hhead third hmem
      · rename_i hnot
        refine List.pairwise_cons.mpr ⟨fun third hthird => ?_, hsorted⟩
        rcases List.mem_cons.mp hthird with rfl | hmem
        · exact hnot
        · exact fun hlt => hhead third hmem (lt_of_lt_of_le hlt (not_lt.mp hnot))
  · rcases mem_insertField.mp hother with rfl | hmem
    · exact hfield
    · exact h.items other hmem

mutual
/-- Sorting twice is sorting once. -/
theorem sortKeys_sortKeys : ∀ value : Json, value.sortKeys.sortKeys = value.sortKeys
  | .null | .bool _ | .int _ | .float _ | .str _ => rfl
  | .arr items => by rw [sortKeys, sortKeys, sortItems_sortItems items]
  | .obj fields => by rw [sortKeys, sortKeys, (ordered_sortFields fields).sortFields]

theorem sortItems_sortItems : ∀ items : List Json, sortItems (sortItems items) = sortItems items
  | [] => rfl
  | item :: rest => by rw [sortItems, sortItems, sortKeys_sortKeys item, sortItems_sortItems rest]

theorem ordered_sortFields : ∀ fields : JsonObject, Ordered (sortFields fields)
  | [] => ordered_nil
  | (_, item) :: rest => (ordered_sortFields rest).insertField (sortKeys_sortKeys item)
end

mutual
/-- Values that are made of text only. -/
def isText : Json → Bool
  | .str _ => true
  | .obj fields => decide (keys fields).Nodup && fieldsAreText fields
  | _ => false

def fieldsAreText : JsonObject → Bool
  | [] => true
  | (_, item) :: rest => item.isText && fieldsAreText rest
end

mutual
theorem writable_of_isText : ∀ {value : Json}, value.isText = true → value.Writable
  | .str _, _ => trivial
  | .obj fields, h => by
    rw [isText, Bool.and_eq_true, decide_eq_true_iff] at h
    exact ⟨h.1, writableFields_of_text h.2⟩

theorem writableFields_of_text : ∀ {fields : JsonObject}, fieldsAreText fields = true →
    WritableFields fields
  | [], _ => trivial
  | (_, _) :: _, h => by
    rw [fieldsAreText, Bool.and_eq_true] at h
    exact ⟨writable_of_isText h.1, writableFields_of_text h.2⟩
end

end Json

end MeridianOci.Data
