import Mathlib.Data.List.Induction
import MeridianOci.Data.Catalog

/-!
# Stores of versions

What a store of versions shows to its callers. A caller names a version by identity and key, or by
identity alone for the latest one, and sees it through a view. What callers see of a run of the
store is consistent in itself, whatever the store keeps.
-/
namespace MeridianOci.Data

set_option autoImplicit false

variable {Id Key Slot Entry View : Type}

/-- How callers see entries. -/
structure Shape (Id Key Slot Entry View : Type) where
  viewOf : Entry → View
  idOf : View → Id
  keyOf : View → Key
  slotOf : Id → Key → Slot

namespace Shape

variable (shape : Shape Id Key Slot Entry View)

def entryId (e : Entry) : Id := shape.idOf (shape.viewOf e)

def entryKey (e : Entry) : Key := shape.keyOf (shape.viewOf e)

def names : Naming Id Slot Entry := ⟨shape.entryId, fun e => shape.slotOf (shape.entryId e) (shape.entryKey e)⟩

end Shape

/-- What an identity must not have for a version of it to be stored: nothing in particular, a
latest version, or any version ever. -/
inductive Mode where
  | any
  | create
  | once

/-- A version that a caller wants to have stored. -/
structure Wish (Id Key : Type) where
  id : Id
  keys : Set Key
  mode : Mode

/-- What a caller sees of a call. -/
inductive Showing (Id Key View : Type) where
  | stored (wish : Wish Id Key) (view : View)
  | unstored (wish : Wish Id Key)
  | dropped (i : Id) (key : Option Key)
  | undropped (i : Id) (key : Option Key)
  | found (i : Id) (key : Option Key) (view : View)
  | missed (i : Id) (key : Option Key) (excused : Prop)
  | listed (among : Id → Prop) (views : List View)
  | nothing

namespace Showing

/-- The caller wanted a version with this identity and key. -/
def Offers (i : Id) (k : Key) : Showing Id Key View → Prop
  | .stored wish _ | .unstored wish => wish.id = i ∧ k ∈ wish.keys
  | _ => False

/-- The caller wanted a version of this identity gone. -/
def Shrinks (i : Id) : Showing Id Key View → Prop
  | .dropped j _ | .undropped j _ => j = i
  | _ => False

/-- The caller wanted a version gone that may be the one with this identity and key. -/
def Drops (i : Id) (k : Key) : Showing Id Key View → Prop
  | .dropped j key | .undropped j key => j = i ∧ ∀ k', key = some k' → k' = k
  | _ => False

/-- The caller wanted to change something about this identity. -/
def Touches (i : Id) : Showing Id Key View → Prop
  | .stored wish _ | .unstored wish => wish.id = i
  | .dropped j _ | .undropped j _ => j = i
  | _ => False

/-- The caller was shown this version. -/
def Shows (view : View) : Showing Id Key View → Prop
  | .found _ _ other => other = view
  | .listed _ views => view ∈ views
  | _ => False

end Showing

/-! ## What callers see of a run -/

/-- What callers see, without a look at what the store keeps. -/
structure Consistent (shape : Shape Id Key Slot Entry View)
    (showings : List (Showing Id Key View)) : Prop where
  /-- A version that is stored is one that was wished for. -/
  grants : ∀ wish view, .stored wish view ∈ showings → shape.idOf view = wish.id ∧ shape.keyOf view ∈ wish.keys
  /-- A version that is found is one that was looked for. -/
  answers : ∀ i key view, .found i key view ∈ showings → shape.idOf view = i ∧ ∀ k, key = some k → shape.keyOf view = k
  /-- A version that is listed is one that was looked for. -/
  selects : ∀ among views, .listed among views ∈ showings → ∀ view ∈ views, among (shape.idOf view)
  /-- Whatever is shown was offered before. -/
  origin : ∀ front showing rest view, showings = front ++ showing :: rest → showing.Shows view →
    ∃ other ∈ front, other.Offers (shape.idOf view) (shape.keyOf view)
  /-- A version stays under its key until a call may have dropped it. -/
  stays : ∀ front wish view middle showing rest, showings = front ++ .stored wish view :: (middle ++ showing :: rest) →
    (∀ other ∈ middle, ¬other.Drops (shape.idOf view) (shape.keyOf view)) →
    (∀ seen, showing = .found (shape.idOf view) (some (shape.keyOf view)) seen → seen = view) ∧
      ∀ excused, showing = .missed (shape.idOf view) (some (shape.keyOf view)) excused → excused
  /-- A version stays the latest one until a call touches its identity. -/
  latest : ∀ front wish view middle showing rest, showings = front ++ .stored wish view :: (middle ++ showing :: rest) →
    (∀ other ∈ middle, ¬other.Touches (shape.idOf view)) →
    (∀ seen, showing = .found (shape.idOf view) none seen → seen = view) ∧
      ∀ excused, showing = .missed (shape.idOf view) none excused → excused
  /-- A version that was dropped is not shown until it is offered again. -/
  gone : ∀ front i k middle showing rest view, showings = front ++ .dropped i (some k) :: (middle ++ showing :: rest) →
    (∀ other ∈ middle, ¬other.Offers i k) → showing.Shows view → ¬(shape.idOf view = i ∧ shape.keyOf view = k)
  /-- A version is not stored on top of another one against its mode. -/
  exclusive : ∀ front wish view middle wish' view' rest,
    showings = front ++ .stored wish view :: (middle ++ .stored wish' view' :: rest) → wish'.id = wish.id →
    match wish'.mode with
    | .any => True
    | .create => ∃ other ∈ middle, other.Shrinks wish.id
    | .once => False

/-! ## The store -/

namespace Catalog

/-- An identity is open to what a caller wants to have stored. -/
def Open (names : Naming Id Slot Entry) (c : Catalog Id Entry) (i : Id) : Mode → Prop
  | .any => True
  | .create => ∀ e ∈ c.latest, names.idOf e ≠ i
  | .once => i ∉ c.anchored

variable (shape : Shape Id Key Slot Entry View)

/-- The version that an identity and a key name. -/
def Resolves (c : Catalog Id Entry) (i : Id) (key : Option Key) (e : Entry) : Prop :=
  shape.entryId e = i ∧
    match key with
    | none => e ∈ c.latest
    | some k => e ∈ c.live ∧ shape.entryKey e = k

/-- The entries that a caller wants to have stored. -/
def Fits (wish : Wish Id Key) (e : Entry) : Prop := shape.entryKey e ∈ wish.keys

/-- What a call shows, and what it does to the catalog; a store may miss what it has if the call has an
excuse. -/
inductive Serves (c : Catalog Id Entry) : Showing Id Key View → Catalog Id Entry → Prop where
  | refreshed (wish : Wish Id Key) (e : Entry) : wish.mode = .any → Fits shape wish e → shape.entryId e = wish.id →
      e ∈ c.live → Serves c (.stored wish (shape.viewOf e)) (point shape.names c e)
  | stored (wish : Wish Id Key) (e : Entry) : c.Open shape.names wish.id wish.mode → Fits shape wish e →
      shape.entryId e = wish.id → (∀ other ∈ c.live, shape.names.slotOf other ≠ shape.names.slotOf e) →
      Serves c (.stored wish (shape.viewOf e)) (point shape.names ((c.anchor wish.id).publish e) e)
  | unstored (wish : Wish Id Key) (c' : Catalog Id Entry) : Commits shape.names wish.id (Fits shape wish) c c' →
      (¬c.Open shape.names wish.id wish.mode → c' = c) → Serves c (.unstored wish) c'
  | dropped (i : Id) (key : Option Key) (e : Entry) : c.Resolves shape i key e →
      Serves c (.dropped i key) (c.remove e)
  | undropped (i : Id) (key : Option Key) : Serves c (.undropped i key) c
  | lost (i : Id) (key : Option Key) (e : Entry) : c.Resolves shape i key e →
      Serves c (.undropped i key) (c.remove e)
  | found (i : Id) (key : Option Key) (e : Entry) : c.Resolves shape i key e →
      Serves c (.found i key (shape.viewOf e)) c
  | missed (i : Id) (key : Option Key) (excused : Prop) : (excused ∨ ∀ e, ¬c.Resolves shape i key e) →
      Serves c (.missed i key excused) c
  | listed (among : Id → Prop) (views : List View) :
      (∀ view ∈ views, among (shape.idOf view) ∧ ∃ e ∈ c.live, shape.viewOf e = view) →
      Serves c (.listed among views) c
  | nothing : Serves c .nothing c

/-- A run of the store. -/
inductive Execution (first : Catalog Id Entry) :
    List (Showing Id Key View) → Catalog Id Entry → Prop where
  | nil : Execution first [] first
  | snoc (showings : List (Showing Id Key View)) (showing : Showing Id Key View) (c c' : Catalog Id Entry) :
      Execution first showings c → Serves shape c showing c' →
      Execution first (showings ++ [showing]) c'

/-! ## One call -/

section Steps

variable {names : Naming Id Slot Entry} {i : Id} {good : Entry → Prop} {c c' : Catalog Id Entry}

/-- A commit is made of steps. -/
theorem Commits.steps (h : Commits names i good c c') : Relation.ReflTransGen (Step names) c c' := by
  have hanchor : Relation.ReflTransGen (Step names) c (c.anchor i) := .single (.anchor c i)
  have hpublish : ∀ e, names.idOf e = i → (∀ other ∈ c.live, names.slotOf other ≠ names.slotOf e) →
      Relation.ReflTransGen (Step names) c ((c.anchor i).publish e) := by
    rintro e rfl hslot
    exact hanchor.tail (.publish _ e (.inl rfl) hslot)
  cases h with
  | untouched => exact .refl
  | repointed e hgood hid hlive => exact .single (.point c e hlive)
  | anchored => exact hanchor
  | published e hgood hid hslot => exact hpublish e hid hslot
  | pointed e hgood hid hslot => exact (hpublish e hid hslot).tail (.point _ e (.inl rfl))

theorem Commits.valid (h : Commits names i good c c') (hvalid : c.Valid names) : c'.Valid names := by
  have hsteps := h.steps
  clear h
  induction hsteps with
  | refl => exact hvalid
  | tail _ hstep ih => exact hstep.valid ih

theorem Commits.mono {good' : Entry → Prop} (h : Commits names i good c c') (hgood : ∀ e, good e → good' e) :
    Commits names i good' c c' := by
  cases h with
  | untouched => exact .untouched
  | repointed e he hid hlive => exact .repointed e (hgood e he) hid hlive
  | anchored => exact .anchored
  | published e he hid hslot => exact .published e (hgood e he) hid hslot
  | pointed e he hid hslot => exact .pointed e (hgood e he) hid hslot

/-- An identity that has a latest version keeps one through a commit. -/
theorem Commits.occupied (h : Commits names i good c c') {j : Id} (hlatest : ∃ e ∈ c.latest, names.idOf e = j) :
    ∃ e ∈ c'.latest, names.idOf e = j := by
  obtain ⟨e, he, hid⟩ := hlatest
  rcases h.latest_same with heq | ⟨new, -, hnew, -, heq⟩
  · exact ⟨e, heq ▸ he, hid⟩
  · rw [heq]
    by_cases hsame : names.idOf e = names.idOf new
    · exact ⟨new, .inl rfl, hsame.symm.trans hid⟩
    · exact ⟨e, .inr ⟨he, hsame⟩, hid⟩

end Steps

section Serving

variable {shape} {c c' : Catalog Id Entry} {showing : Showing Id Key View}
variable {wish : Wish Id Key} {view : View} {i : Id} {key : Option Key} {e : Entry}

theorem Resolves.live (h : c.Resolves shape i key e) (hvalid : c.Valid shape.names) : e ∈ c.live := by
  obtain ⟨-, h⟩ := h
  cases key with
  | none => exact hvalid.latest_live h
  | some k => exact h.1

/-- At most one version is named. -/
theorem Resolves.unique (hvalid : c.Valid shape.names) {other : Entry} (h : c.Resolves shape i key e)
    (hother : c.Resolves shape i key other) : e = other := by
  obtain ⟨hid, h⟩ := h
  obtain ⟨hid', h'⟩ := hother
  have hsame : shape.entryId e = shape.entryId other := hid.trans hid'.symm
  cases key with
  | none => exact hvalid.latest_unique e h other h' hsame
  | some k =>
    have hslot : shape.names.slotOf e = shape.names.slotOf other := by
      show shape.slotOf _ _ = shape.slotOf _ _
      rw [hsame, h.2, h'.2]
    exact hvalid.live_unique e h.1 other h'.1 hslot

/-- A version that was stored is live and the latest one. -/
theorem Serves.stored_commits (h : Serves shape c (.stored wish view) c') :
    Commits shape.names wish.id (Fits shape wish) c c' ∧
      ∃ e ∈ c'.live, e ∈ c'.latest ∧ shape.viewOf e = view ∧ shape.entryId e = wish.id ∧ Fits shape wish e := by
  cases h with
  | refreshed wish e hmode hfits hid hlive =>
    exact ⟨.repointed e hfits hid hlive, e, hlive, .inl rfl, rfl, hid, hfits⟩
  | stored wish e hopen hfits hid hslot =>
    exact ⟨.pointed e hfits hid hslot, e, .inl rfl, .inl rfl, rfl, hid, hfits⟩

theorem valid_remove (hvalid : c.Valid shape.names) (h : c.Resolves shape i key e) :
    (c.remove e).Valid shape.names := (Step.remove c e (h.live hvalid)).valid hvalid

theorem Serves.valid (h : Serves shape c showing c') (hvalid : c.Valid shape.names) :
    c'.Valid shape.names := by
  cases showing with
  | stored wish view => exact h.stored_commits.1.valid hvalid
  | unstored wish =>
    cases h with
    | unstored _ _ hcommits _ => exact hcommits.valid hvalid
  | dropped i key =>
    cases h with
    | dropped _ _ e hresolves => exact valid_remove hvalid hresolves
  | undropped i key =>
    cases h with
    | undropped => exact hvalid
    | lost _ _ e hresolves => exact valid_remove hvalid hresolves
  | _ =>
    cases h
    exact hvalid

/-- Only what was offered is new. -/
theorem Serves.new (h : Serves shape c showing c') (he : e ∈ c'.live) :
    e ∈ c.live ∨ showing.Offers (shape.entryId e) (shape.entryKey e) := by
  cases showing with
  | stored wish view =>
    exact (h.stored_commits.1.live.2 e he).imp_right fun hnew => ⟨hnew.2.symm, hnew.1⟩
  | unstored wish =>
    cases h with
    | unstored _ _ hcommits _ => exact (hcommits.live.2 e he).imp_right fun hnew => ⟨hnew.2.symm, hnew.1⟩
  | dropped i key =>
    cases h with
    | dropped _ _ other _ => exact .inl he.1
  | undropped i key =>
    cases h with
    | undropped => exact .inl he
    | lost _ _ other _ => exact .inl he.1
  | _ =>
    cases h
    exact .inl he

/-- Removing what a caller named leaves what it did not name. -/
theorem Resolves.live_remove {other : Entry} (h : c.Resolves shape i key other) (he : e ∈ c.live)
    (hnot : ¬(i = shape.entryId e ∧ ∀ k, key = some k → k = shape.entryKey e)) : e ∈ (c.remove other).live := by
  refine ⟨he, ?_⟩
  rintro rfl
  obtain ⟨hid, h⟩ := h
  refine hnot ⟨hid.symm, ?_⟩
  rintro k rfl
  exact h.2.symm

theorem Resolves.latest_remove {other : Entry} (h : c.Resolves shape i key other) (hne : i ≠ shape.entryId e) :
    e ∈ (c.remove other).latest ↔ e ∈ c.latest := by
  refine ⟨fun he => he.1, fun he => ⟨he, ?_⟩⟩
  rintro rfl
  exact hne h.1.symm

theorem Serves.kept (h : Serves shape c showing c') (he : e ∈ c.live)
    (hnot : ¬showing.Drops (shape.entryId e) (shape.entryKey e)) : e ∈ c'.live := by
  cases showing with
  | stored wish view => exact h.stored_commits.1.live.1 he
  | unstored wish =>
    cases h with
    | unstored _ _ hcommits _ => exact hcommits.live.1 he
  | dropped i key =>
    cases h with
    | dropped _ _ other hresolves => exact hresolves.live_remove he hnot
  | undropped i key =>
    cases h with
    | undropped => exact he
    | lost _ _ other hresolves => exact hresolves.live_remove he hnot
  | _ =>
    cases h
    exact he

/-- The latest version of an identity is what it was if no call touches the identity. -/
theorem Serves.latest (h : Serves shape c showing c') (hnot : ¬showing.Touches (shape.entryId e)) :
    e ∈ c'.latest ↔ e ∈ c.latest := by
  cases showing with
  | stored wish view => exact h.stored_commits.1.latest_other fun hid => hnot hid.symm
  | unstored wish =>
    cases h with
    | unstored _ _ hcommits _ => exact hcommits.latest_other fun hid => hnot hid.symm
  | dropped i key =>
    cases h with
    | dropped _ _ other hresolves => exact hresolves.latest_remove hnot
  | undropped i key =>
    cases h with
    | undropped => exact Iff.rfl
    | lost _ _ other hresolves => exact hresolves.latest_remove hnot
  | _ =>
    cases h
    exact Iff.rfl

/-- An identity keeps a latest version until a caller wants one of its versions gone. -/
theorem Serves.occupied (h : Serves shape c showing c') (hnot : ¬showing.Shrinks i)
    (hlatest : ∃ e ∈ c.latest, shape.entryId e = i) : ∃ e ∈ c'.latest, shape.entryId e = i := by
  cases showing with
  | stored wish view => exact h.stored_commits.1.occupied hlatest
  | unstored wish =>
    cases h with
    | unstored _ _ hcommits _ => exact hcommits.occupied hlatest
  | dropped j key =>
    obtain ⟨e, he, rfl⟩ := hlatest
    exact ⟨e, (h.latest hnot).mpr he, rfl⟩
  | undropped j key =>
    obtain ⟨e, he, rfl⟩ := hlatest
    exact ⟨e, (h.latest hnot).mpr he, rfl⟩
  | _ =>
    cases h
    exact hlatest

theorem Serves.anchored (h : Serves shape c showing c') : c.anchored ⊆ c'.anchored := by
  cases showing with
  | stored wish view => exact h.stored_commits.1.anchored_subset
  | unstored wish =>
    cases h with
    | unstored _ _ hcommits _ => exact hcommits.anchored_subset
  | _ =>
    cases h
    all_goals exact subset_rfl

/-- What is shown is live. -/
theorem Serves.shown (h : Serves shape c showing c') (hvalid : c.Valid shape.names)
    (hshows : showing.Shows view) : ∃ e ∈ c.live, shape.viewOf e = view := by
  cases showing with
  | found i key other =>
    obtain rfl : other = view := hshows
    cases h with
    | found _ _ e hresolves => exact ⟨e, hresolves.live hvalid, rfl⟩
  | listed among views =>
    cases h with
    | listed _ _ hviews => exact (hviews view hshows).2
  | _ => cases hshows

/-- A version that a caller names is the one found, and not missed. -/
theorem Serves.finds (h : Serves shape c showing c') (hvalid : c.Valid shape.names)
    (hresolves : c.Resolves shape i key e) : (∀ seen, showing = .found i key seen → seen = shape.viewOf e) ∧
      ∀ excused, showing = .missed i key excused → excused := by
  constructor
  · rintro seen rfl
    cases h with
    | found _ _ other hother => rw [hother.unique hvalid hresolves]
  · rintro excused rfl
    cases h with
    | missed _ _ _ hwhy => exact hwhy.resolve_right fun hnone => hnone e hresolves

end Serving

/-! ## Runs -/

section Runs

variable {shape} {first last : Catalog Id Entry}
variable {front rest showings : List (Showing Id Key View)} {showing : Showing Id Key View}

namespace Execution

/-- What every call of a run keeps holds at its end. -/
theorem keeps {I : Catalog Id Entry → Prop} (h : Execution shape first showings last)
    (hcalls : ∀ showing ∈ showings, ∀ c c', Serves shape c showing c' → I c → I c') (hfirst : I first) :
    I last := by
  induction h with
  | nil => exact hfirst
  | snoc showings showing c c' _ hserves ih =>
    have hbefore := ih fun other hother => hcalls other (List.mem_append_left _ hother)
    exact hcalls showing (List.mem_append_right _ (List.mem_singleton_self _)) c c' hserves hbefore

theorem valid (h : Execution shape first showings last) (hvalid : first.Valid shape.names) :
    last.Valid shape.names := h.keeps (fun _ _ _ _ hserves => hserves.valid) hvalid

theorem of_snoc (h : Execution shape first (front ++ [showing]) last) :
    ∃ c, Execution shape first front c ∧ Serves shape c showing last := by
  generalize heq : front ++ [showing] = showings at h
  cases h with
  | nil => simp at heq
  | snoc showings other c c' hfront hserves =>
    obtain ⟨rfl, hlast⟩ := List.append_inj' heq rfl
    obtain rfl := (List.cons.inj hlast).1
    exact ⟨c, hfront, hserves⟩

/-- A run is cut at any of its calls. -/
theorem split (h : Execution shape first (front ++ showing :: rest) last) :
    ∃ c c', Execution shape first front c ∧ Serves shape c showing c' ∧
      Execution shape c' rest last := by
  induction rest using List.reverseRecOn generalizing last with
  | nil =>
    obtain ⟨c, hfront, hserves⟩ := h.of_snoc
    exact ⟨c, last, hfront, hserves, .nil⟩
  | append_singleton rest other ih =>
    rw [← List.cons_append, ← List.append_assoc] at h
    obtain ⟨before, hbefore, hother⟩ := h.of_snoc
    obtain ⟨c, c', hfront, hserves, hrest⟩ := ih hbefore
    exact ⟨c, c', hfront, hserves, .snoc rest other before last hrest hother⟩

/-- What is live at the end was so at the beginning or offered in between. -/
theorem offered (h : Execution shape first showings last) {e : Entry} (he : e ∈ last.live) :
    e ∈ first.live ∨ ∃ showing ∈ showings, showing.Offers (shape.entryId e) (shape.entryKey e) := by
  refine h.keeps (I := fun c => ∀ e ∈ c.live, e ∈ first.live ∨
    ∃ showing ∈ showings, showing.Offers (shape.entryId e) (shape.entryKey e)) ?_ (fun _ => .inl) e he
  intro showing hshowing c c' hserves hold e he
  rcases hserves.new he with he | hoffers
  · exact hold e he
  · exact .inr ⟨showing, hshowing, hoffers⟩

/-- A version under its key stays what it is until a call may drop it. -/
theorem resolves_key (h : Execution shape first showings last) {e : Entry} (he : e ∈ first.live)
    (hnot : ∀ showing ∈ showings, ¬showing.Drops (shape.entryId e) (shape.entryKey e)) :
    last.Resolves shape (shape.entryId e) (some (shape.entryKey e)) e :=
  ⟨rfl, h.keeps (fun showing hshowing _ _ hserves hlive => hserves.kept hlive (hnot showing hshowing)) he, rfl⟩

/-- The latest version stays the latest one until a call touches its identity. -/
theorem resolves_latest (h : Execution shape first showings last) {e : Entry} (he : e ∈ first.latest)
    (hnot : ∀ showing ∈ showings, ¬showing.Touches (shape.entryId e)) : last.Resolves shape (shape.entryId e) none e :=
  ⟨rfl, h.keeps (fun showing hshowing _ _ hserves hlatest => (hserves.latest (hnot showing hshowing)).mpr hlatest) he⟩

theorem valid_empty : Valid shape.names (⟨∅, ∅, ∅⟩ : Catalog Id Entry) :=
  ⟨subset_rfl, fun _ h => h.elim, fun _ h => h.elim, fun _ h => h.elim⟩

/-- What callers see of a store that was empty is consistent. -/
theorem consistent (h : Execution shape ⟨∅, ∅, ∅⟩ showings last) : Consistent shape showings where
  grants := by
    intro wish view hmem
    obtain ⟨front, rest, rfl⟩ := List.append_of_mem hmem
    obtain ⟨c, c', -, hserves, -⟩ := h.split
    obtain ⟨-, e, -, -, rfl, hid, hfits⟩ := hserves.stored_commits
    exact ⟨hid, hfits⟩
  answers := by
    intro i key view hmem
    obtain ⟨front, rest, rfl⟩ := List.append_of_mem hmem
    obtain ⟨c, c', -, hserves, -⟩ := h.split
    cases hserves with
    | found _ _ e hresolves =>
      obtain ⟨hid, hresolves⟩ := hresolves
      refine ⟨hid, ?_⟩
      rintro k rfl
      exact hresolves.2
  selects := by
    intro among views hmem view hview
    obtain ⟨front, rest, rfl⟩ := List.append_of_mem hmem
    obtain ⟨c, c', -, hserves, -⟩ := h.split
    cases hserves with
    | listed _ _ hviews => exact (hviews view hview).1
  origin := by
    rintro front showing rest view rfl hshows
    obtain ⟨c, c', hfront, hserves, -⟩ := h.split
    obtain ⟨e, he, rfl⟩ := hserves.shown (hfront.valid valid_empty) hshows
    exact (hfront.offered he).resolve_left fun hfirst => hfirst
  stays := by
    rintro front wish view middle showing rest rfl hnot
    obtain ⟨c, c₁, hfront, hstored, hrest⟩ := h.split
    obtain ⟨c₂, c₃, hmiddle, hserves, -⟩ := hrest.split
    have hvalid := hmiddle.valid (hstored.valid (hfront.valid valid_empty))
    obtain ⟨-, e, he, -, rfl, -, -⟩ := hstored.stored_commits
    exact hserves.finds hvalid (hmiddle.resolves_key he hnot)
  latest := by
    rintro front wish view middle showing rest rfl hnot
    obtain ⟨c, c₁, hfront, hstored, hrest⟩ := h.split
    obtain ⟨c₂, c₃, hmiddle, hserves, -⟩ := hrest.split
    have hvalid := hmiddle.valid (hstored.valid (hfront.valid valid_empty))
    obtain ⟨-, e, -, he, rfl, -, -⟩ := hstored.stored_commits
    exact hserves.finds hvalid (hmiddle.resolves_latest he hnot)
  gone := by
    rintro front i k middle showing rest view rfl hnot hshows ⟨rfl, rfl⟩
    obtain ⟨c, c₁, hfront, hdropped, hrest⟩ := h.split
    obtain ⟨c₂, c₃, hmiddle, hserves, -⟩ := hrest.split
    have hvalid := hfront.valid valid_empty
    obtain ⟨e, he, rfl⟩ := hserves.shown (hmiddle.valid (hdropped.valid hvalid)) hshows
    -- a version that is shown was left behind or offered since
    rcases hmiddle.offered he with he | ⟨other, hother, hoffers⟩
    · cases hdropped with
      | dropped _ _ old hold => exact he.2 (hold.unique hvalid ⟨rfl, he.1, rfl⟩).symm
    · exact hnot other hother hoffers
  exclusive := by
    rintro front wish view middle wish' view' rest rfl hid
    obtain ⟨c, c₁, hfront, hstored, hrest⟩ := h.split
    obtain ⟨c₂, c₃, hmiddle, hserves, -⟩ := hrest.split
    obtain ⟨hcommits, e, he, hlatest, -, hwish, -⟩ := hstored.stored_commits
    have hanchored : wish.id ∈ c₂.anchored := by
      refine hmiddle.keeps (fun _ _ _ _ hserves hmem => hserves.anchored hmem) ?_
      exact hwish ▸ (hstored.valid (hfront.valid valid_empty)).live_anchored e he
    have hopen : c₂.Open shape.names wish'.id wish'.mode := by
      cases hserves with
      | refreshed _ _ hmode => rw [hmode]; trivial
      | stored _ _ hopen => exact hopen
    rw [hid] at hopen
    cases hmode : wish'.mode with
    | any => trivial
    | once =>
      rw [hmode] at hopen
      exact hopen hanchored
    | create =>
      rw [hmode] at hopen
      by_contra hnone
      have hnot : ∀ other ∈ middle, ¬other.Shrinks wish.id := fun other hother hshrinks =>
        hnone ⟨other, hother, hshrinks⟩
      obtain ⟨last, hlast, heq⟩ := hmiddle.keeps
        (fun showing hshowing _ _ hserves => hserves.occupied (hnot showing hshowing)) ⟨e, hlatest, hwish⟩
      exact hopen last hlast heq

end Execution

end Runs

end Catalog

end MeridianOci.Data
