import MeridianOci.Service.Ledger

/-!
# Sessions and their uploads

Between two calls every open upload belongs to exactly one live session. A call on a
session changes its state object and its upload alone: either both go on, or the upload
has ended and the session is gone.
-/
namespace MeridianOci.Service

open MeridianOci.Data MeridianOci.Effect MeridianOci.Model

set_option autoImplicit false

variable {P : Platform}

namespace Journal

variable {client : RegistryHttpClient}

/-- Every live session has an open upload of its own. -/
structure Sound (j : Journal P client) : Prop where
  stored : ∀ sessionId reference, j.memory.lookup sessionId = some reference → reference < j.memory.heap.length
  machine : ∀ sessionId reference state, Live j.memory sessionId reference state → state.machine = .uploading
  held : ∀ sessionId reference state, Live j.memory sessionId reference state →
    ∃ (k : Nat) (entry : Upload), j.uploads[k]? = some entry ∧ entry.closed = false ∧
      entry.location = state.upload.url
  separate : ∀ sessionId reference state other reference' state', Live j.memory sessionId reference state →
    Live j.memory other reference' state' → state.upload.url = state'.upload.url → sessionId = other

/-- Every open upload is that of exactly one live session. -/
def Tidy (j : Journal P client) : Prop :=
  ∀ upload ∈ j.uploads, upload.closed = false → ∃! sessionId,
    ∃ reference state, Live j.memory sessionId reference state ∧ state.upload.url = upload.location

variable {sessionId : String} {reference k : Nat} {j₀ j j' j'' : Journal P client} {state : MultipartState}
variable {entry : Upload}

/-- One session object counts for all that follows. -/
theorem Sound.tidy (h : Sound j) (hopen : ∀ upload ∈ j.uploads, upload.closed = false → ∃ sessionId reference state,
    Live j.memory sessionId reference state ∧ state.upload.url = upload.location) : Tidy j := by
  intro upload hupload hclosed
  obtain ⟨sessionId, reference, state, hlive, hurl⟩ := hopen upload hupload hclosed
  refine ⟨sessionId, ⟨reference, state, hlive, hurl⟩, ?_⟩
  rintro other ⟨reference', state', hlive', hurl'⟩
  exact h.separate _ _ _ _ _ _ hlive' hlive (hurl'.trans hurl.symm)

theorem Sound.empty : Sound (Journal.empty P client) := by
  have hnone : ∀ sessionId reference, ¬ (Journal.empty P client).memory.lookup sessionId = some reference := by
    intro sessionId reference h
    simp [Journal.empty, Memory.lookup] at h
  constructor
  · exact fun sessionId reference h => absurd h (hnone sessionId reference)
  · exact fun sessionId reference state h => absurd h.entry (hnone sessionId reference)
  · exact fun sessionId reference state h => absurd h.entry (hnone sessionId reference)
  · exact fun sessionId reference state other reference' state' h => absurd h.entry (hnone sessionId reference)

theorem Tidy.empty : Tidy (Journal.empty P client) := by
  intro upload hupload
  cases hupload

/-- More uploads do no harm to the sessions. -/
theorem Sound.grow (h : Sound j) (hmemory : j'.memory = j.memory) {extra : List Upload}
    (huploads : j'.uploads = j.uploads ++ extra) : Sound j' := by
  constructor
  · rw [hmemory]
    exact h.stored
  · rw [hmemory]
    exact h.machine
  · rw [hmemory]
    intro sessionId reference state hlive
    obtain ⟨k, entry, hk, hentry⟩ := h.held sessionId reference state hlive
    obtain ⟨hlt, -⟩ := List.getElem?_eq_some_iff.mp hk
    exact ⟨k, entry, by rw [huploads, List.getElem?_append_left hlt, hk], hentry⟩
  · rw [hmemory]
    exact h.separate

theorem Sound.settles (h : Sound j) (hsettles : j.Settles j') : Sound j' := by
  obtain ⟨extra, huploads, -⟩ := hsettles.uploads
  exact h.grow hsettles.memory huploads

theorem Tidy.settles (h : Tidy j) (hsettles : j.Settles j') : Tidy j' := by
  obtain ⟨extra, huploads, hclosed⟩ := hsettles.uploads
  intro upload hupload hopen
  rw [huploads] at hupload
  rw [hsettles.memory]
  rcases List.mem_append.mp hupload with hmem | hmem
  · exact h upload hmem hopen
  · rw [hclosed upload hmem] at hopen
    cases hopen

/-! ## One session changes -/

/-- All but one session and one upload are as they were, apart from ended uploads. -/
structure Beside (sessionId : String) (k : Nat) (j₀ j : Journal P client) : Prop where
  stored : ∀ other reference, j.memory.lookup other = some reference → reference < j.memory.heap.length
  live : ∀ other reference state, other ≠ sessionId →
    (Live j.memory other reference state ↔ Live j₀.memory other reference state)
  kept : ∀ (i : Nat) (upload : Upload), i ≠ k → j₀.uploads[i]? = some upload → j.uploads[i]? = some upload
  opened : ∀ (i : Nat) (upload : Upload), i ≠ k → j.uploads[i]? = some upload → upload.closed = false →
    j₀.uploads[i]? = some upload
  /-- The one upload is of no other session. -/
  own : ∀ other reference state, other ≠ sessionId → Live j₀.memory other reference state →
    ∀ entry : Upload, j₀.uploads[k]? = some entry → entry.location ≠ state.upload.url

theorem Beside.sound (h : Beside sessionId k j₀ j) (hsound : Sound j₀)
    (hself : ∀ reference state, Live j.memory sessionId reference state → state.machine = .uploading ∧
      ∃ entry : Upload, j.uploads[k]? = some entry ∧ entry.closed = false ∧ entry.location = state.upload.url) :
    Sound j := by
  have hother : ∀ other reference state, other ≠ sessionId → Live j.memory other reference state →
      ∃ (i : Nat) (entry : Upload), i ≠ k ∧ j.uploads[i]? = some entry ∧ entry.closed = false ∧
        entry.location = state.upload.url := by
    intro other reference state hne hlive
    have hlive₀ := (h.live other reference state hne).mp hlive
    obtain ⟨i, entry, hi, hopen, hlocation⟩ := hsound.held other reference state hlive₀
    have hik : i ≠ k := by
      rintro rfl
      exact h.own other reference state hne hlive₀ entry hi hlocation
    exact ⟨i, entry, hik, h.kept i entry hik hi, hopen, hlocation⟩
  -- an upload of the one session is not that of another
  have happart : ∀ reference state other reference' state', other ≠ sessionId →
      Live j.memory sessionId reference state → Live j.memory other reference' state' →
      state.upload.url ≠ state'.upload.url := by
    intro reference state other reference' state' hne hlive hlive' heq
    obtain ⟨-, entry, hk, -, hlocation⟩ := hself reference state hlive
    obtain ⟨i, entry', hik, hi, -, hlocation'⟩ := hother other reference' state' hne hlive'
    refine hik (j.separate i k entry' entry hi hk entry.location ?_ List.mem_cons_self)
    rw [hlocation, heq, ← hlocation']
    exact List.mem_cons_self
  constructor
  · exact h.stored
  · intro other reference state hlive
    by_cases hsame : other = sessionId
    · rw [hsame] at hlive
      exact (hself reference state hlive).1
    · exact hsound.machine other reference state ((h.live _ _ _ hsame).mp hlive)
  · intro other reference state hlive
    by_cases hsame : other = sessionId
    · rw [hsame] at hlive
      exact ⟨k, (hself reference state hlive).2⟩
    · obtain ⟨i, entry, -, hi⟩ := hother other reference state hsame hlive
      exact ⟨i, entry, hi⟩
  · intro first reference state second reference' state' hlive hlive' heq
    by_cases hfirst : first = sessionId <;> by_cases hsecond : second = sessionId
    · rw [hfirst, hsecond]
    · rw [hfirst] at hlive
      exact absurd heq (happart _ _ _ _ _ hsecond hlive hlive')
    · rw [hsecond] at hlive'
      exact absurd heq.symm (happart _ _ _ _ _ hfirst hlive' hlive)
    · exact hsound.separate _ _ _ _ _ _ ((h.live _ _ _ hfirst).mp hlive) ((h.live _ _ _ hsecond).mp hlive') heq

theorem Beside.tidy (h : Beside sessionId k j₀ j) (hsound : Sound j) (htidy : Tidy j₀)
    (hbefore : ∀ reference state, Live j₀.memory sessionId reference state →
      ∃ entry : Upload, j₀.uploads[k]? = some entry ∧ entry.location = state.upload.url)
    (hself : ∀ entry : Upload, j.uploads[k]? = some entry → entry.closed = false →
      ∃ reference state, Live j.memory sessionId reference state ∧ state.upload.url = entry.location) :
    Tidy j := by
  refine hsound.tidy fun upload hupload hopen => ?_
  obtain ⟨i, hi⟩ := List.mem_iff_getElem?.mp hupload
  by_cases hik : i = k
  · rw [hik] at hi
    exact ⟨sessionId, hself upload hi hopen⟩
  have hi₀ := h.opened i upload hik hi hopen
  obtain ⟨other, ⟨reference, state, hlive, hurl⟩, -⟩ := htidy upload (List.mem_iff_getElem?.mpr ⟨i, hi₀⟩) hopen
  have hne : other ≠ sessionId := by
    rintro rfl
    obtain ⟨entry, hk, hlocation⟩ := hbefore reference state hlive
    refine hik (j₀.separate i k upload entry hi₀ hk upload.location List.mem_cons_self ?_)
    rw [← hurl, ← hlocation]
    exact List.mem_cons_self
  exact ⟨other, reference, state, (h.live other reference state hne).mpr hlive, hurl⟩

/-- The uploads but one are as they were, apart from ended ones. -/
structure Touched (k : Nat) (entry : Upload) (j₀ j : Journal P client) : Prop where
  bound : k < j₀.uploads.length
  uploads : ∃ extra, j.uploads = j₀.uploads.set k entry ++ extra ∧ ∀ upload ∈ extra, upload.closed = true

namespace Touched

theorem of_set (hk : k < j.uploads.length) (h : j'.uploads = j.uploads.set k entry) : Touched k entry j j' :=
  ⟨hk, [], by rw [h, List.append_nil], fun _ h => by cases h⟩

theorem set_self (hk : j.uploads[k]? = some entry) : j.uploads.set k entry = j.uploads := by
  obtain ⟨hlt, rfl⟩ := List.getElem?_eq_some_iff.mp hk
  exact List.set_getElem_self hlt

theorem of_same (hk : j.uploads[k]? = some entry) (h : j'.uploads = j.uploads) : Touched k entry j j' := by
  obtain ⟨hlt, -⟩ := List.getElem?_eq_some_iff.mp hk
  exact .of_set hlt (by rw [set_self hk, h])

theorem of_settles (hk : j.uploads[k]? = some entry) (h : j.Settles j') : Touched k entry j j' := by
  obtain ⟨hlt, -⟩ := List.getElem?_eq_some_iff.mp hk
  refine ⟨hlt, ?_⟩
  rw [set_self hk]
  exact h.uploads

theorem get (h : Touched k entry j₀ j) : j.uploads[k]? = some entry := by
  obtain ⟨extra, huploads, -⟩ := h.uploads
  rw [huploads, List.getElem?_append_left (by rw [List.length_set]; exact h.bound), List.getElem?_set_self h.bound]

theorem trans {entry' : Upload} (h : Touched k entry j₀ j) (h' : Touched k entry' j j') : Touched k entry' j₀ j' := by
  obtain ⟨extra, huploads, hclosed⟩ := h.uploads
  obtain ⟨more, huploads', hclosed'⟩ := h'.uploads
  refine ⟨h.bound, extra ++ more, ?_, ?_⟩
  · rw [huploads', huploads, List.set_append_left _ _ (by rw [List.length_set]; exact h.bound), List.set_set,
      List.append_assoc]
  · intro upload hupload
    rcases List.mem_append.mp hupload with hmem | hmem
    · exact hclosed upload hmem
    · exact hclosed' upload hmem

theorem kept (h : Touched k entry j₀ j) {i : Nat} {upload : Upload} (hik : i ≠ k)
    (hi : j₀.uploads[i]? = some upload) : j.uploads[i]? = some upload := by
  obtain ⟨extra, huploads, -⟩ := h.uploads
  obtain ⟨hlt, -⟩ := List.getElem?_eq_some_iff.mp hi
  rw [huploads, List.getElem?_append_left (by rw [List.length_set]; exact hlt), List.getElem?_set_ne hik.symm, hi]

theorem opened (h : Touched k entry j₀ j) {i : Nat} {upload : Upload} (hik : i ≠ k)
    (hi : j.uploads[i]? = some upload) (hopen : upload.closed = false) : j₀.uploads[i]? = some upload := by
  obtain ⟨extra, huploads, hclosed⟩ := h.uploads
  rw [huploads] at hi
  by_cases hlt : i < (j₀.uploads.set k entry).length
  · rwa [List.getElem?_append_left hlt, List.getElem?_set_ne hik.symm] at hi
  · rw [List.getElem?_append_right (by omega)] at hi
    rw [hclosed upload (List.mem_of_getElem? hi)] at hopen
    cases hopen

end Touched

/-! ## In the middle of a call on a session -/

/-- A session, its state object and its upload; the rest is as it was. -/
structure Holds (sessionId : String) (reference k : Nat) (j₀ : Journal P client) (state : MultipartState)
    (entry : Upload) (j : Journal P client) : Prop where
  memory : j.memory = j₀.memory.modify reference fun _ => state
  uploads : Touched k entry j₀ j
  live : Live j.memory sessionId reference state
  location : entry.location = state.upload.url

/-- The session is live and its upload open. -/
def Tracks (sessionId : String) (reference k : Nat) (j₀ j : Journal P client) : Prop :=
  ∃ state entry, Holds sessionId reference k j₀ state entry j ∧ entry.closed = false ∧ state.machine = .uploading

/-- The upload of the session has ended. -/
def Finishes (sessionId : String) (reference k : Nat) (j₀ j : Journal P client) : Prop :=
  ∃ state entry, Holds sessionId reference k j₀ state entry j ∧ entry.closed = true

/-- The session is gone and its upload has ended. -/
structure Ended (sessionId : String) (reference k : Nat) (j₀ j : Journal P client) : Prop where
  memory : ∃ state, j.memory = (j₀.memory.modify reference fun _ => state).pop sessionId
  uploads : ∃ entry, Touched k entry j₀ j ∧ entry.closed = true

theorem modify_self {memory : Memory} (h : memory.heap[reference]? = some state) :
    memory.modify reference (fun _ => state) = memory := by
  rw [@modify_congr memory reference state h (fun _ => state) id rfl]
  simp [Memory.modify]

theorem live_modify {memory : Memory} (h : Live memory sessionId reference state)
    (update : MultipartState → MultipartState) : Live (memory.modify reference update) sessionId reference (update state) := by
  refine ⟨h.entry, ?_⟩
  rw [get?_modify, if_pos rfl, h.object, Option.map_some]

theorem pop_of_lookup {memory : Memory} (h : memory.lookup sessionId = none) : memory.pop sessionId = memory := by
  have hall : ∀ entry ∈ memory.sessions, decide (entry.1 ≠ sessionId) = true := by
    intro entry hentry
    simpa using List.find?_eq_none.mp (Option.map_eq_none_iff.mp h) entry hentry
  rw [Memory.pop, List.filter_eq_self.mpr hall]

theorem Holds.start (hlive : Live j.memory sessionId reference state) (hk : j.uploads[k]? = some entry)
    (hlocation : entry.location = state.upload.url) : Holds sessionId reference k j state entry j where
  memory := (modify_self hlive.object).symm
  uploads := .of_settles hk (.refl j)
  live := hlive
  location := hlocation

theorem Holds.step (h : Holds sessionId reference k j₀ state entry j) {state' : MultipartState} {entry' : Upload}
    (hmemory : j'.memory = j.memory.modify reference fun _ => state') (huploads : Touched k entry' j j')
    (hlocation : entry'.location = state'.upload.url) : Holds sessionId reference k j₀ state' entry' j' where
  memory := by
    rw [hmemory, h.memory, modify_modify]
    rfl
  uploads := h.uploads.trans huploads
  live := by
    rw [hmemory]
    exact live_modify h.live _
  location := hlocation

/-- The uploads move, the state object does not. -/
theorem Holds.touch (h : Holds sessionId reference k j₀ state entry j) {entry' : Upload}
    (hmemory : j'.memory = j.memory) (huploads : Touched k entry' j j') (hlocation : entry'.location = entry.location) :
    Holds sessionId reference k j₀ state entry' j' := by
  refine h.step ?_ huploads (hlocation.trans h.location)
  rw [modify_self h.live.object, hmemory]

theorem Holds.settles (h : Holds sessionId reference k j₀ state entry j) (hsettles : j.Settles j') :
    Holds sessionId reference k j₀ state entry j' :=
  h.touch hsettles.memory (.of_settles h.uploads.get hsettles) rfl

theorem Holds.close (h : Holds sessionId reference k j₀ state entry j) (hmemory : j'.memory = j.memory)
    (huploads : j'.uploads = j.uploads.set k entry.close) : Finishes sessionId reference k j₀ j' := by
  obtain ⟨hlt, -⟩ := List.getElem?_eq_some_iff.mp h.uploads.get
  exact ⟨state, entry.close, h.touch hmemory (.of_set hlt huploads) rfl, rfl⟩

theorem Tracks.settles (h : Tracks sessionId reference k j₀ j) (hsettles : j.Settles j') :
    Tracks sessionId reference k j₀ j' := by
  obtain ⟨state, entry, hholds, hopen, hmachine⟩ := h
  exact ⟨state, entry, hholds.settles hsettles, hopen, hmachine⟩

theorem Finishes.settles (h : Finishes sessionId reference k j₀ j) (hsettles : j.Settles j') :
    Finishes sessionId reference k j₀ j' := by
  obtain ⟨state, entry, hholds, hclosed⟩ := h
  exact ⟨state, entry, hholds.settles hsettles, hclosed⟩

theorem Finishes.pop (h : Finishes sessionId reference k j₀ j) (hmemory : j'.memory = j.memory.pop sessionId)
    (huploads : j'.uploads = j.uploads) : Ended sessionId reference k j₀ j' := by
  obtain ⟨state, entry, hholds, hclosed⟩ := h
  exact ⟨⟨state, by rw [hmemory, hholds.memory]⟩,
    ⟨entry, hholds.uploads.trans (.of_same hholds.uploads.get huploads), hclosed⟩⟩

/-! ## What such a call leaves -/

/-- A live session with its upload. -/
structure Owns (sessionId : String) (reference k : Nat) (j : Journal P client) : Prop where
  object : ∃ state entry, Live j.memory sessionId reference state ∧ j.uploads[k]? = some entry ∧
    entry.closed = false ∧ entry.location = state.upload.url ∧ state.machine = .uploading

theorem Sound.owns (h : Sound j) (hlive : Live j.memory sessionId reference state) :
    ∃ k, Owns sessionId reference k j := by
  obtain ⟨k, entry, hk, hopen, hlocation⟩ := h.held _ _ _ hlive
  exact ⟨k, state, entry, hlive, hk, hopen, hlocation, h.machine _ _ _ hlive⟩

theorem Owns.tracks (h : Owns sessionId reference k j) : Tracks sessionId reference k j j := by
  obtain ⟨state, entry, hlive, hk, hopen, hlocation, hmachine⟩ := h.object
  exact ⟨state, entry, .start hlive hk hlocation, hopen, hmachine⟩

theorem Owns.before (h : Owns sessionId reference k j) {reference' : Nat} {state' : MultipartState}
    (hlive : Live j.memory sessionId reference' state') :
    ∃ entry : Upload, j.uploads[k]? = some entry ∧ entry.location = state'.upload.url := by
  obtain ⟨state, entry, hlive', hk, -, hlocation, -⟩ := h.object
  obtain rfl := Option.some.inj (hlive.entry.symm.trans hlive'.entry)
  obtain rfl := Option.some.inj (hlive.object.symm.trans hlive'.object)
  exact ⟨entry, hk, hlocation⟩

/-- Another session has another object and another upload. -/
theorem Owns.apart (h : Owns sessionId reference k j) (hsound : Sound j) {other : String} {reference' : Nat}
    {state' : MultipartState} (hne : other ≠ sessionId) (hlive : Live j.memory other reference' state') :
    reference' ≠ reference ∧ ∀ entry : Upload, j.uploads[k]? = some entry → entry.location ≠ state'.upload.url := by
  obtain ⟨state, entry, hlive', hk, -, hlocation, -⟩ := h.object
  constructor
  · rintro rfl
    obtain rfl := Option.some.inj (hlive.object.symm.trans hlive'.object)
    exact hne (hsound.separate _ _ _ _ _ _ hlive hlive' rfl)
  · intro entry' hk' heq
    obtain rfl := Option.some.inj (hk.symm.trans hk')
    exact hne (hsound.separate _ _ _ _ _ _ hlive hlive' (heq.symm.trans hlocation))

/-- The memory changes at one object, and possibly the session is dropped. -/
theorem Owns.beside (h : Owns sessionId reference k j₀) (hsound : Sound j₀) {update : MultipartState → MultipartState}
    (hmemory : j.memory = j₀.memory.modify reference update ∨
      j.memory = (j₀.memory.modify reference update).pop sessionId) (huploads : Touched k entry j₀ j) :
    Beside sessionId k j₀ j := by
  have hheap : j.memory.heap = (j₀.memory.modify reference update).heap := by
    rcases hmemory with hmemory | hmemory
    · rw [hmemory]
    · rw [hmemory]
      rfl
  have hlookup : ∀ other, other ≠ sessionId → j.memory.lookup other = j₀.memory.lookup other := by
    intro other hne
    rcases hmemory with hmemory | hmemory
    · rw [hmemory, lookup_modify]
    · rw [hmemory, lookup_pop, if_neg hne, lookup_modify]
  -- the object of another session is not the changed one
  have hother : ∀ (other : String) (reference' : Nat), other ≠ sessionId →
      j₀.memory.lookup other = some reference' → reference' ≠ reference := by
    intro other reference' hne hentry
    have hstored := hsound.stored other reference' hentry
    exact (h.apart hsound hne ⟨hentry, List.getElem?_eq_getElem hstored⟩).1
  have hobject : ∀ reference', reference' ≠ reference →
      j.memory.heap[reference']? = j₀.memory.heap[reference']? := by
    intro reference' hne
    rw [hheap, get?_modify, if_neg hne.symm]
  constructor
  · intro other reference' hentry
    rw [hheap, Memory.modify, List.length_modify]
    by_cases hne : other = sessionId
    · rcases hmemory with hmemory | hmemory
      · exact hsound.stored other reference' (by rwa [hmemory, lookup_modify] at hentry)
      · rw [hmemory, lookup_pop, if_pos hne] at hentry
        cases hentry
    · exact hsound.stored other reference' (by rwa [hlookup other hne] at hentry)
  · intro other reference' state hne
    constructor
    · intro hlive
      have hentry := hlive.entry
      rw [hlookup other hne] at hentry
      exact ⟨hentry, by rw [← hobject reference' (hother other reference' hne hentry)]; exact hlive.object⟩
    · intro hlive
      exact ⟨by rw [hlookup other hne]; exact hlive.entry,
        by rw [hobject reference' (hother other reference' hne hlive.entry)]; exact hlive.object⟩
  · exact fun i upload hik hi => huploads.kept hik hi
  · exact fun i upload hik hi hopen => huploads.opened hik hi hopen
  · exact fun other reference' state hne hlive => (h.apart hsound hne hlive).2

/-- What a call leaves: sound, and tidy if it was tidy before. -/
structure Keeps (j₀ j : Journal P client) : Prop where
  sound : Sound j
  tidy : Tidy j₀ → Tidy j

theorem Keeps.settles (h : Sound j) (hsettles : j.Settles j') : Keeps j j' :=
  ⟨h.settles hsettles, fun htidy => htidy.settles hsettles⟩

theorem Owns.tracks_keeps (h : Owns sessionId reference k j₀) (hsound : Sound j₀)
    (htracks : Tracks sessionId reference k j₀ j) : Keeps j₀ j := by
  obtain ⟨state, entry, hholds, hopen, hmachine⟩ := htracks
  have hbeside := h.beside hsound (.inl hholds.memory) hholds.uploads
  have hnew : Sound j := by
    refine hbeside.sound hsound fun reference' state' hlive => ?_
    obtain rfl := Option.some.inj (hlive.entry.symm.trans hholds.live.entry)
    obtain rfl := Option.some.inj (hlive.object.symm.trans hholds.live.object)
    exact ⟨hmachine, entry, hholds.uploads.get, hopen, hholds.location⟩
  refine ⟨hnew, fun htidy => hbeside.tidy hnew htidy (fun _ _ hlive => h.before hlive) fun entry' hk _ => ?_⟩
  obtain rfl := Option.some.inj (hk.symm.trans hholds.uploads.get)
  exact ⟨reference, state, hholds.live, hholds.location.symm⟩

theorem Owns.ended_keeps (h : Owns sessionId reference k j₀) (hsound : Sound j₀)
    (hended : Ended sessionId reference k j₀ j) : Keeps j₀ j := by
  obtain ⟨⟨state, hmemory⟩, entry, huploads, hclosed⟩ := hended
  have hbeside := h.beside hsound (.inr hmemory) huploads
  have hgone : ∀ reference' state', ¬ Live j.memory sessionId reference' state' := by
    intro reference' state' hlive
    have hentry := hlive.entry
    rw [hmemory, lookup_pop, if_pos rfl] at hentry
    cases hentry
  have hnew : Sound j := hbeside.sound hsound fun reference' state' hlive => absurd hlive (hgone reference' state')
  refine ⟨hnew, fun htidy => hbeside.tidy hnew htidy (fun _ _ hlive => h.before hlive) fun entry' hk hopen => ?_⟩
  obtain rfl := Option.some.inj (hk.symm.trans huploads.get)
  rw [hclosed] at hopen
  cases hopen

end Journal

end MeridianOci.Service
