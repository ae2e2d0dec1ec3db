import Mathlib.Data.List.Basic
import Mathlib.Tactic.Common

/-!
# Reading a list piece by piece

A read takes a number of elements from what is left of a list, all of it for a negative
number. The pieces that reads take are the list again, in order.
-/
namespace MeridianOci.Data

set_option autoImplicit false

variable {α : Type} {size : Int} {sizes : List Int} {left : List α}

def takePiece (size : Int) (left : List α) : List α := if size < 0 then left else left.take size.toNat

def dropPiece (size : Int) (left : List α) : List α := if size < 0 then [] else left.drop size.toNat

/-- The pieces that reads of these sizes take. -/
def pieces : List Int → List α → List (List α)
  | [], _ => []
  | size :: sizes, left => takePiece size left :: pieces sizes (dropPiece size left)

/-- What they leave. -/
def leftover : List Int → List α → List α
  | [], left => left
  | size :: sizes, left => leftover sizes (dropPiece size left)

theorem takePiece_append (size : Int) (left : List α) : takePiece size left ++ dropPiece size left = left := by
  unfold takePiece dropPiece
  split
  · exact List.append_nil left
  · exact List.take_append_drop _ _

theorem takePiece_ofNat (n : Nat) (left : List α) : takePiece n left = left.take n := by
  rw [takePiece, if_neg (by omega), Int.toNat_natCast]

theorem dropPiece_ofNat (n : Nat) (left : List α) : dropPiece n left = left.drop n := by
  rw [dropPiece, if_neg (by omega), Int.toNat_natCast]

theorem dropPiece_neg (h : size < 0) (left : List α) : dropPiece size left = [] := if_pos h

/-- A piece shorter than was asked for is all that was left. -/
theorem dropPiece_of_short {n : Nat} (h : (takePiece n left).length < n) : dropPiece n left = [] := by
  rw [takePiece_ofNat, List.length_take] at h
  rw [dropPiece_ofNat, List.drop_eq_nil_iff]
  omega

theorem pieces_length (sizes : List Int) (left : List α) : (pieces sizes left).length = sizes.length := by
  induction sizes generalizing left with
  | nil => rfl
  | cons size sizes ih => rw [pieces, List.length_cons, ih, List.length_cons]

theorem pieces_leftover (sizes : List Int) (left : List α) :
    (pieces sizes left).flatten ++ leftover sizes left = left := by
  induction sizes generalizing left with
  | nil => rfl
  | cons size sizes ih =>
    rw [pieces, leftover, List.flatten_cons, List.append_assoc, ih, takePiece_append]

theorem pieces_append (front rest : List Int) (left : List α) :
    pieces (front ++ rest) left = pieces front left ++ pieces rest (leftover front left) := by
  induction front generalizing left with
  | nil => rfl
  | cons size front ih => rw [List.cons_append, pieces, ih, pieces, leftover, List.cons_append]

/-- A sequence of results is a faithful reading of some content. -/
structure Faithful (content : List α) (sizes : List Int) (results : List (List α)) : Prop where
  length : results.length = sizes.length
  begins : results.flatten <+: content
  zero : ∀ i : Nat, sizes[i]? = some 0 → results[i]? = some []
  sized : ∀ (i n : Nat) (result : List α), sizes[i]? = some (n : Int) → results[i]? = some result →
    result.length = n ∨ (result.length < n ∧ (results.take (i + 1)).flatten = content)
  empty : ∀ (i : Nat) (size : Int), sizes[i]? = some size → 0 < size → results[i]? = some [] →
    (results.take i).flatten = content
  ended : ∀ (i : Nat) (size : Int) (result : List α), sizes[i]? = some size → results[i]? = some result →
    (size < 0 ∨ (0 < size ∧ result = [])) → (results.take (i + 1)).flatten = content ∧ results.flatten = content

/-- The read at a position takes its piece from what the reads before it left. -/
theorem pieces_at (content : List α) {i : Nat} (h : sizes[i]? = some size) : ∃ left,
    ((pieces sizes content).take i).flatten ++ left = content ∧ (pieces sizes content)[i]? = some (takePiece size left) ∧
      (pieces sizes content).take (i + 1) = (pieces sizes content).take i ++ [takePiece size left] := by
  obtain ⟨hi, hget⟩ := List.getElem?_eq_some_iff.mp h
  have hsplit : sizes = sizes.take i ++ size :: sizes.drop (i + 1) := by
    rw [← hget, List.getElem_cons_drop, List.take_append_drop]
  have hlength : (pieces (sizes.take i) content).length = i := by
    rw [pieces_length, List.length_take]
    omega
  have hpieces : pieces sizes content = pieces (sizes.take i) content ++
      takePiece size (leftover (sizes.take i) content) ::
        pieces (sizes.drop (i + 1)) (dropPiece size (leftover (sizes.take i) content)) := by
    conv_lhs => rw [hsplit]
    rw [pieces_append, pieces]
  have htake : (pieces sizes content).take i = pieces (sizes.take i) content := by
    rw [hpieces, List.take_left' hlength]
  have hpiece : (pieces sizes content)[i]? = some (takePiece size (leftover (sizes.take i) content)) := by
    rw [hpieces, List.getElem?_append_right (Nat.le_of_eq hlength), hlength, Nat.sub_self]
    rfl
  refine ⟨leftover (sizes.take i) content, ?_, hpiece, ?_⟩
  · rw [htake]
    exact pieces_leftover _ _
  · rw [List.take_add_one, hpiece]
    rfl

theorem faithful_pieces (content : List α) (sizes : List Int) : Faithful content sizes (pieces sizes content) := by
  have hbegins : (pieces sizes content).flatten <+: content := ⟨leftover sizes content, pieces_leftover sizes content⟩
  -- what has been read can only grow to the whole content
  have hwhole : ∀ i, ((pieces sizes content).take i).flatten = content → (pieces sizes content).flatten = content := by
    intro i h
    obtain ⟨rest, hrest⟩ := hbegins
    have hsplit : ((pieces sizes content).take i).flatten ++ ((pieces sizes content).drop i).flatten =
        (pieces sizes content).flatten := by
      rw [← List.flatten_append, List.take_append_drop]
    rw [h] at hsplit
    have hlength := congrArg List.length hrest
    have hlength' := congrArg List.length hsplit
    rw [List.length_append] at hlength hlength'
    have hnil : ((pieces sizes content).drop i).flatten = [] := List.eq_nil_of_length_eq_zero (by omega)
    rw [← hsplit, hnil, List.append_nil]
  have hlast : ∀ (i : Nat) (size : Int) (left : List α), ((pieces sizes content).take i).flatten ++ left = content →
      (pieces sizes content).take (i + 1) = (pieces sizes content).take i ++ [takePiece size left] →
      dropPiece size left = [] → ((pieces sizes content).take (i + 1)).flatten = content := by
    intro i size left hleft hnext hdrop
    have hall := takePiece_append size left
    rw [hdrop, List.append_nil] at hall
    rw [hnext, List.flatten_append, List.flatten_singleton, hall, hleft]
  refine ⟨pieces_length sizes content, hbegins, ?_, ?_, ?_, ?_⟩
  · intro i h
    obtain ⟨left, -, hpiece, -⟩ := pieces_at content h
    rw [hpiece, show (0 : Int) = ((0 : Nat) : Int) from rfl, takePiece_ofNat, List.take_zero]
  · intro i n result h hresult
    obtain ⟨left, hleft, hpiece, hnext⟩ := pieces_at content h
    obtain rfl := Option.some.inj (hpiece.symm.trans hresult)
    by_cases hshort : (takePiece n left).length < n
    · exact .inr ⟨hshort, hlast i n left hleft hnext (dropPiece_of_short hshort)⟩
    · refine .inl ?_
      rw [takePiece_ofNat, List.length_take] at hshort ⊢
      omega
  · intro i size h hpos hresult
    obtain ⟨left, hleft, hpiece, -⟩ := pieces_at content h
    have hnil : takePiece size left = [] := Option.some.inj (hpiece.symm.trans hresult)
    obtain ⟨n, rfl⟩ := Int.eq_ofNat_of_zero_le (Int.le_of_lt hpos)
    rw [takePiece_ofNat, List.take_eq_nil_iff] at hnil
    have hempty : left = [] := hnil.resolve_left (by omega)
    rw [hempty, List.append_nil] at hleft
    exact hleft
  · intro i size result h hresult hend
    obtain ⟨left, hleft, hpiece, hnext⟩ := pieces_at content h
    have hdrop : dropPiece size left = [] := by
      rcases hend with hneg | ⟨hpos, rfl⟩
      · exact dropPiece_neg hneg left
      · obtain ⟨n, rfl⟩ := Int.eq_ofNat_of_zero_le (Int.le_of_lt hpos)
        refine dropPiece_of_short ?_
        rw [Option.some.inj (hpiece.symm.trans hresult)]
        simpa using hpos
    have hdone := hlast i size left hleft hnext hdrop
    exact ⟨hdone, hwhole _ hdone⟩

end MeridianOci.Data
