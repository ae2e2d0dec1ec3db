import Mathlib.Data.Finset.Card
import Mathlib.Data.List.Dedup
import Mathlib.Order.Basic

/-!
# Paged walks over a changing ordered set

A walk looks at an ordered set page by page. A page covers an initial part of what lies
after a bound, in order, and the next page is bounded by the last element of this one. The
set may change between two pages: what stays in it is met exactly once.
-/
namespace MeridianOci.Data.Paging

set_option autoImplicit false

variable {α : Type} [LinearOrder α]

/-- An element lies after a bound, if there is one. -/
def After (bound : Option α) (x : α) : Prop := ∀ b, bound = some b → b < x

/-- A page over the present elements: what was looked at, and the bound of the next page. -/
structure Page (present : Set α) (bound : Option α) (scanned : List α) (next : Option α) : Prop where
  sorted : scanned.Pairwise (· < ·)
  mem : ∀ x ∈ scanned, x ∈ present ∧ After bound x
  initial : ∀ x ∈ present, After bound x → ∀ y ∈ scanned, x ≤ y → x ∈ scanned
  last : ∀ b, next = some b → scanned.getLast? = some b
  exhausted : next = none → ∀ x ∈ present, After bound x → x ∈ scanned

/-- Pages in a row, from a first bound to the bound that is left; only the last one leaves none. -/
inductive Walk : Option α → List (Set α × List α) → Option α → Prop where
  | stop (bound) : Walk bound [] bound
  | page (present bound scanned next rest final) : Page present bound scanned next →
      (next = none → rest = []) → Walk next rest final → Walk bound ((present, scanned) :: rest) final

variable {present : Set α} {bound next final : Option α} {scanned : List α} {x y : α}
variable {pages early late : List (Set α × List α)}

theorem after_none (x : α) : After none x := fun _ h => by cases h

theorem after_some {b : α} : After (some b) x ↔ b < x :=
  ⟨fun h => h b rfl, fun h b' heq => by rw [← Option.some.inj heq]; exact h⟩

theorem Page.last_mem {b : α} (h : Page present bound scanned (some b)) : b ∈ scanned :=
  List.mem_of_getLast? (h.last b rfl)

/-- Nothing on a page lies after the next bound. -/
theorem Page.le_last {b : α} (h : Page present bound scanned (some b)) (hx : x ∈ scanned) : x ≤ b := by
  obtain ⟨front, rfl⟩ := List.getLast?_eq_some_iff.mp (h.last b rfl)
  rcases List.mem_append.mp hx with hfront | hlast
  · exact ((List.pairwise_append.mp h.sorted).2.2 x hfront b List.mem_cons_self).le
  · exact (List.mem_singleton.mp hlast).le

theorem Page.after_next {b : α} (h : Page present bound scanned (some b)) (hx : After (some b) x) :
    After bound x := by
  intro b' hb'
  exact ((h.mem b h.last_mem).2 b' hb').trans (after_some.mp hx)

/-- What a walk meets was present at its page, after the bound. -/
theorem Walk.mem (h : Walk bound pages final) (hx : x ∈ pages.flatMap (·.2)) :
    After bound x ∧ ∃ page ∈ pages, x ∈ page.1 := by
  induction h with
  | stop bound => cases hx
  | page present bound scanned next rest final hpage hrest _ ih =>
    rcases List.mem_append.mp hx with hscanned | hlater
    · exact ⟨(hpage.mem x hscanned).2, _, List.mem_cons_self, (hpage.mem x hscanned).1⟩
    · obtain ⟨hafter, page, hmem, hpresent⟩ := ih hlater
      refine ⟨?_, page, List.mem_cons_of_mem _ hmem, hpresent⟩
      cases next with
      | none =>
        rw [hrest rfl] at hlater
        cases hlater
      | some b => exact hpage.after_next hafter

/-- A walk meets its elements in order, so none of them twice. -/
theorem Walk.sorted (h : Walk bound pages final) : (pages.flatMap (·.2)).Pairwise (· < ·) := by
  induction h with
  | stop bound => exact .nil
  | page present bound scanned next rest final hpage hrest hwalk ih =>
    refine List.pairwise_append.mpr ⟨hpage.sorted, ih, fun x hx y hy => ?_⟩
    cases next with
    | none =>
      rw [hrest rfl] at hy
      cases hy
    | some b => exact (hpage.le_last hx).trans_lt (after_some.mp (hwalk.mem hy).1)

theorem Walk.nodup (h : Walk bound pages final) : (pages.flatMap (·.2)).Nodup :=
  h.sorted.imp ne_of_lt

/-- A finished walk meets everything after its bound that was present at every page. -/
theorem Walk.complete (h : Walk bound pages none) (hpages : pages ≠ []) (hafter : After bound x)
    (hx : ∀ page ∈ pages, x ∈ page.1) : x ∈ pages.flatMap (·.2) := by
  obtain ⟨final, hfinal⟩ : ∃ final : Option α, final = none := ⟨none, rfl⟩
  rw [← hfinal] at h
  induction h with
  | stop bound => exact absurd rfl hpages
  | page present bound scanned next rest final hpage _ hwalk ih =>
    have hpresent : x ∈ present := hx _ List.mem_cons_self
    rw [List.flatMap_cons, List.mem_append]
    cases next with
    | none => exact .inl (hpage.exhausted rfl x hpresent hafter)
    | some b =>
      rcases le_or_gt x b with hle | hlt
      · exact .inl (hpage.initial x hpresent hafter b hpage.last_mem hle)
      · refine .inr (ih ?_ (after_some.mpr hlt) (fun page hpage => hx page (List.mem_cons_of_mem _ hpage)) hfinal)
        rintro rfl
        cases hwalk
        cases hfinal

/-- A walk passes over nothing that was present at every page. -/
theorem Walk.initial (h : Walk bound pages final) (hy : y ∈ pages.flatMap (·.2)) (hle : x ≤ y)
    (hafter : After bound x) (hx : ∀ page ∈ pages, x ∈ page.1) : x ∈ pages.flatMap (·.2) := by
  induction h with
  | stop bound => cases hy
  | page present bound scanned next rest final hpage hrest _ ih =>
    have hpresent : x ∈ present := hx _ List.mem_cons_self
    rw [List.flatMap_cons, List.mem_append] at hy ⊢
    rcases hy with hscanned | hlater
    · exact .inl (hpage.initial x hpresent hafter y hscanned hle)
    · cases next with
      | none =>
        rw [hrest rfl] at hlater
        cases hlater
      | some b =>
        rcases le_or_gt x b with hle | hlt
        · exact .inl (hpage.initial x hpresent hafter b hpage.last_mem hle)
        · exact .inr (ih hlater (after_some.mpr hlt) fun page hpage => hx page (List.mem_cons_of_mem _ hpage))

/-- Every page but the last one meets something. -/
theorem Walk.length_le_met (h : Walk bound pages final) :
    pages.length ≤ (pages.flatMap (·.2)).length + 1 := by
  induction h with
  | stop bound => exact Nat.zero_le _
  | page present bound scanned next rest final hpage hrest _ ih =>
    cases next with
    | none =>
      rw [hrest rfl]
      simp
    | some b =>
      have hne := List.length_pos_of_mem hpage.last_mem
      simp only [List.length_cons, List.flatMap_cons, List.length_append]
      omega

/-- A walk over subsets of a finite set has at most one page more than elements. -/
theorem Walk.length_le {elements : Finset α} (h : Walk bound pages final)
    (hpages : ∀ page ∈ pages, ∀ x ∈ page.1, x ∈ elements) : pages.length ≤ elements.card + 1 := by
  have hmet : (pages.flatMap (·.2)).toFinset ⊆ elements := by
    intro x hx
    obtain ⟨-, page, hmem, hpresent⟩ := h.mem (List.mem_toFinset.mp hx)
    exact hpages page hmem x hpresent
  have hcard := Finset.card_le_card hmet
  rw [List.toFinset_card_of_nodup h.nodup] at hcard
  have := h.length_le_met
  omega

/-- A walk is cut between any two of its pages. -/
theorem Walk.split (h : Walk bound (early ++ late) final) :
    ∃ middle, Walk bound early middle ∧ Walk middle late final := by
  induction early generalizing bound with
  | nil => exact ⟨bound, .stop bound, h⟩
  | cons page early ih =>
    cases h with
    | page present _ scanned next _ _ hpage hrest hwalk =>
      obtain ⟨middle, hearly, hlate⟩ := ih hwalk
      refine ⟨middle, .page present bound scanned next early middle hpage (fun hnone => ?_) hearly, hlate⟩
      exact (List.append_eq_nil_iff.mp (hrest hnone)).1

end MeridianOci.Data.Paging
