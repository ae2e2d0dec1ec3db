import Mathlib.Data.Set.Insert
import Mathlib.Logic.Relation

/-!
# Catalogs of versioned entries

An abstract view of a versioned store: which identities are known, which entries are
live, and which entry is the latest of its identity. An entry belongs to an identity and
occupies a slot. A commit makes an identity known, publishes an entry and points at it;
it may stop after any of these.
-/
namespace MeridianOci.Data

set_option autoImplicit false

variable {Id Slot Entry : Type}

/-- How entries are named. -/
structure Naming (Id Slot Entry : Type) where
  idOf : Entry → Id
  slotOf : Entry → Slot

@[ext]
structure Catalog (Id Entry : Type) where
  anchored : Set Id
  live : Set Entry
  latest : Set Entry

namespace Catalog

variable (names : Naming Id Slot Entry)

def anchor (c : Catalog Id Entry) (i : Id) : Catalog Id Entry :=
  { c with anchored := insert i c.anchored }

def publish (c : Catalog Id Entry) (e : Entry) : Catalog Id Entry :=
  { c with live := insert e c.live }

/-- Make an entry the latest of its identity. -/
def point (c : Catalog Id Entry) (e : Entry) : Catalog Id Entry :=
  { c with latest := insert e {other ∈ c.latest | names.idOf other ≠ names.idOf e} }

def remove (c : Catalog Id Entry) (e : Entry) : Catalog Id Entry :=
  { c with live := c.live \ {e}, latest := c.latest \ {e} }

inductive Step : Catalog Id Entry → Catalog Id Entry → Prop where
  | stay (c) : Step c c
  | anchor (c i) : Step c (c.anchor i)
  | publish (c e) : names.idOf e ∈ c.anchored →
      (∀ other ∈ c.live, names.slotOf other ≠ names.slotOf e) → Step c (c.publish e)
  | point (c e) : e ∈ c.live → Step c (point names c e)
  | remove (c e) : e ∈ c.live → Step c (c.remove e)

structure Valid (c : Catalog Id Entry) : Prop where
  latest_live : c.latest ⊆ c.live
  latest_unique : ∀ e ∈ c.latest, ∀ other ∈ c.latest, names.idOf e = names.idOf other → e = other
  live_anchored : ∀ e ∈ c.live, names.idOf e ∈ c.anchored
  live_unique : ∀ e ∈ c.live, ∀ other ∈ c.live, names.slotOf e = names.slotOf other → e = other

variable {names} {c c' : Catalog Id Entry} {e : Entry} {i : Id}

theorem mem_point {other : Entry} :
    other ∈ (point names c e).latest ↔ other = e ∨ (other ∈ c.latest ∧ names.idOf other ≠ names.idOf e) :=
  Iff.rfl

theorem Step.valid (hstep : Step names c c') (h : c.Valid names) : c'.Valid names := by
  cases hstep with
  | stay => exact h
  | anchor i => exact ⟨h.latest_live, h.latest_unique, fun e he => .inr (h.live_anchored e he),
      h.live_unique⟩
  | publish e hanchored hslot =>
    refine ⟨fun other hother => .inr (h.latest_live hother), h.latest_unique, ?_, ?_⟩
    · rintro other (rfl | hother)
      · exact hanchored
      · exact h.live_anchored other hother
    · rintro a (rfl | ha) b (rfl | hb) hab
      · rfl
      · exact absurd hab.symm (hslot b hb)
      · exact absurd hab (hslot a ha)
      · exact h.live_unique a ha b hb hab
  | point e he =>
    refine ⟨?_, ?_, h.live_anchored, h.live_unique⟩
    · rintro other (rfl | hother)
      · exact he
      · exact h.latest_live hother.1
    · rintro a (rfl | ha) b (rfl | hb) hab
      · rfl
      · exact absurd hab.symm hb.2
      · exact absurd hab ha.2
      · exact h.latest_unique a ha.1 b hb.1 hab
  | remove e he =>
    refine ⟨fun other hother => ⟨h.latest_live hother.1, hother.2⟩, ?_, ?_, ?_⟩
    · exact fun a ha b hb hab => h.latest_unique a ha.1 b hb.1 hab
    · exact fun other hother => h.live_anchored other hother.1
    · exact fun a ha b hb hab => h.live_unique a ha.1 b hb.1 hab

/-- The states a commit for an identity may leave; `good` holds of what it may publish. -/
inductive Commits (names : Naming Id Slot Entry) (i : Id) (good : Entry → Prop) (c : Catalog Id Entry) :
    Catalog Id Entry → Prop where
  | untouched : Commits names i good c c
  | repointed (e : Entry) : good e → names.idOf e = i → e ∈ c.live →
      Commits names i good c (point names c e)
  | anchored : Commits names i good c (c.anchor i)
  | published (e : Entry) : good e → names.idOf e = i →
      (∀ other ∈ c.live, names.slotOf other ≠ names.slotOf e) →
      Commits names i good c ((c.anchor i).publish e)
  | pointed (e : Entry) : good e → names.idOf e = i →
      (∀ other ∈ c.live, names.slotOf other ≠ names.slotOf e) →
      Commits names i good c (point names ((c.anchor i).publish e) e)

namespace Commits

variable {good : Entry → Prop}

/-- No entry is lost, and only good entries of the identity are new. -/
theorem live (h : Commits names i good c c') :
    c.live ⊆ c'.live ∧ ∀ e ∈ c'.live, e ∈ c.live ∨ (good e ∧ names.idOf e = i) := by
  cases h with
  | untouched => exact ⟨subset_rfl, fun e he => .inl he⟩
  | repointed e hgood hid he => exact ⟨subset_rfl, fun e he => .inl he⟩
  | anchored => exact ⟨subset_rfl, fun e he => .inl he⟩
  | published e hgood hid hslot =>
    refine ⟨fun other hother => .inr hother, ?_⟩
    rintro other (rfl | hother)
    · exact .inr ⟨hgood, hid⟩
    · exact .inl hother
  | pointed e hgood hid hslot =>
    refine ⟨fun other hother => .inr hother, ?_⟩
    rintro other (rfl | hother)
    · exact .inr ⟨hgood, hid⟩
    · exact .inl hother

/-- The latest entry of another identity is as before. -/
theorem latest_other (h : Commits names i good c c') (hother : names.idOf e ≠ i) :
    e ∈ c'.latest ↔ e ∈ c.latest := by
  have hpoint : ∀ (d : Catalog Id Entry) (new : Entry), names.idOf new = i →
      (e ∈ (point names d new).latest ↔ e ∈ d.latest) := by
    rintro d new rfl
    refine ⟨?_, fun he => .inr ⟨he, hother⟩⟩
    rintro (rfl | he)
    · exact absurd rfl hother
    · exact he.1
  cases h with
  | untouched => exact Iff.rfl
  | repointed new hgood hid hlive => exact hpoint c new hid
  | anchored => exact Iff.rfl
  | published new hgood hid hslot => exact Iff.rfl
  | pointed new hgood hid hslot => exact hpoint ((c.anchor i).publish new) new hid

/-- Either the latest entries are as before, or the latest one of the identity is a good entry. -/
theorem latest_same (h : Commits names i good c c') : c'.latest = c.latest ∨
    ∃ e, good e ∧ names.idOf e = i ∧ e ∈ c'.live ∧ c'.latest = (point names c e).latest := by
  cases h with
  | untouched => exact .inl rfl
  | repointed e hgood hid hlive => exact .inr ⟨e, hgood, hid, hlive, rfl⟩
  | anchored => exact .inl rfl
  | published e hgood hid hslot => exact .inl rfl
  | pointed e hgood hid hslot => exact .inr ⟨e, hgood, hid, .inl rfl, rfl⟩

theorem anchored_subset (h : Commits names i good c c') : c.anchored ⊆ c'.anchored := by
  cases h with
  | untouched => exact subset_rfl
  | repointed e hgood hid hlive => exact subset_rfl
  | _ => exact fun j hj => .inr hj

end Commits

end Catalog

end MeridianOci.Data
