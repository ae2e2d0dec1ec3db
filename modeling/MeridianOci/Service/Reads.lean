import MeridianOci.Service.Operations

/-!
# Reading operations

Stat, get and range reads return what their reference finds. A list call returns the
objects of a run of tags, and a cursor behind the last tag it has looked at.
-/
namespace MeridianOci.Service

open MeridianOci.Data MeridianOci.Effect MeridianOci.Model

set_option autoImplicit false

variable {P : Platform} {adapter : OciDistributionAdapter}
variable {setting : Setting P adapter.transport.binding}

/-- A reading operation registers payloads and changes nothing else. -/
structure World.Reads (w w' : World setting.policy) : Prop where
  registry : w'.registry = w.registry
  memory : w'.memory = w.memory
  now : w'.now = w.now

theorem World.Reads.refl (w : World setting.policy) : w.Reads w := ⟨rfl, rfl, rfl⟩

/-- Why a reference is not resolved although no request failed. -/
def Unresolved (w : World setting.policy) (reference : ObjectReference) : Prop :=
  ∀ resolved, ¬Found w.registry reference resolved

section Resolution

variable (laws : P.Lawful) (w : World setting.policy) (hintact : Intact w.registry)

include laws hintact

/-- A reference is resolved to what it finds in an intact repository. -/
theorem resolve_ensures {G : World setting.policy → World setting.policy → Prop} (hrefl : ∀ a, G a a)
    (reference : ObjectReference) :
    (adapter.storedForReference P reference).Ensures setting.env G w fun outcome w' => w' = w ∧
      match outcome with
      | .ok resolved => Found w.registry reference resolved
      | .error error => setting.faults ∨ (Unresolved w reference ∧ (error.kind = .objectNotFound ∨
          ∃ digest, reference.digest = some digest ∧
            versionTag P reference.objectId digest = .error error)) := by
  refine (storedForReference_ensures laws setting.reading (by rintro a _ rfl; exact hrefl a)
    (by rintro a _ rfl; exact .refl) w hintact reference).mono ?_
  rintro (error | resolved) w' ⟨rfl, h⟩
  · refine ⟨rfl, h.imp_right fun h => ?_⟩
    rcases h with ⟨digest, hsome, herror⟩ | ⟨hkind, _, rfl, hnone⟩
    · refine ⟨fun resolved hfound => ?_, .inr ⟨digest, hsome, herror⟩⟩
      obtain ⟨content, hcontent, -⟩ := hfound.published.content
      rw [← hfound.digest digest hsome, hcontent, versionTag_eq laws] at herror
      cases herror
    · exact ⟨hnone, .inl hkind⟩
  · obtain ⟨_, rfl, hfound, -⟩ := h
    exact ⟨rfl, hfound⟩

theorem stat_ensures (raw : Json) :
    (adapter.stat P raw).Ensures setting.env World.Change w fun outcome w' => w' = w ∧
      match outcome with
      | .ok result => ∃ reference resolved, adapter.reference P raw false = .ok reference ∧
          Found w.registry reference resolved ∧ result = .stat resolved.stored.metadata
      | .error _ => setting.faults ∨ ∀ reference, adapter.reference P raw false = .ok reference →
          Unresolved w reference := by
  unfold OciDistributionAdapter.stat
  cases hreference : adapter.reference P raw false with
  | error error => exact ⟨rfl, .inr fun reference h => by cases h⟩
  | ok reference =>
    simp only [Action.lift_ok, Prog.ret_bind]
    refine (resolve_ensures laws w hintact (quiet_change laws setting).refl reference).bind ?_ ?_
    · rintro resolved w ⟨rfl, hfound⟩
      exact ⟨rfl, reference, resolved, rfl, hfound, rfl⟩
    · rintro error w ⟨rfl, hwhy⟩
      refine ⟨rfl, hwhy.imp_right fun h other heq => ?_⟩
      obtain rfl := Except.ok.inj heq
      exact h.1

omit hintact in
/-- Registering a blob gives a payload that reads it. -/
theorem register_ensures (source : RegistryBlobSource) (length : Nat) (digest : Option String) :
    (Action.register source length digest).Ensures setting.env World.Change w fun outcome w' =>
      w.Reads w' ∧ ∃ id, outcome = .ok ⟨id, true, digest, some length⟩ ∧
        w'.payloads = (id, source) :: w.payloads := by
  refine Prog.Ensures.perform ?_
  rintro answer w' ⟨id, rfl, rfl⟩
  exact ⟨(quiet_change laws setting).payloads w _, ⟨rfl, rfl, rfl⟩, id, rfl, rfl⟩

theorem get_ensures (raw : Json) :
    (adapter.get P raw).Ensures setting.env World.Change w fun outcome w' => w.Reads w' ∧
      match outcome with
      | .ok result => ∃ reference resolved payload, adapter.reference P raw false = .ok reference ∧
          Found w.registry reference resolved ∧ result = .get resolved.stored.metadata payload ∧
          payload.expectedDigest = some resolved.payload.digest ∧
          payload.expectedLength = some resolved.payload.size ∧
          w'.payloads = (payload.id, ⟨resolved.payload.digest, none⟩) :: w.payloads
      | .error _ => setting.faults ∨ ∀ reference, adapter.reference P raw false = .ok reference →
          Unresolved w reference := by
  unfold OciDistributionAdapter.get
  cases hreference : adapter.reference P raw false with
  | error error => exact ⟨.refl w, .inr fun reference h => by cases h⟩
  | ok reference =>
    simp only [Action.lift_ok, Prog.ret_bind]
    refine (resolve_ensures laws w hintact (quiet_change laws setting).refl reference).bind ?_ ?_
    · rintro resolved w ⟨rfl, hfound⟩
      refine (register_ensures laws w _ _ _).bind ?_ ?_
      · rintro payload w' ⟨hreads, id, heq, hpayloads⟩
        obtain rfl := Except.ok.inj heq
        exact ⟨hreads, reference, resolved, _, rfl, hfound, rfl, rfl, rfl, hpayloads⟩
      · rintro error w' ⟨-, id, heq, -⟩
        cases heq
    · rintro error w ⟨rfl, hwhy⟩
      refine ⟨.refl w, hwhy.imp_right fun h other heq => ?_⟩
      obtain rfl := Except.ok.inj heq
      exact h.1

/-- The byte range of a range read. -/
theorem readRange_ensures (raw range : Json) :
    (adapter.readRange P raw range).Ensures setting.env World.Change w fun outcome w' => w.Reads w' ∧
      match outcome with
      | .ok result => ∃ reference resolved byteRange selected payload,
          adapter.reference P raw false = .ok reference ∧ Found w.registry reference resolved ∧
          byteRangeOf P range = .ok byteRange ∧
          P.resolveRange byteRange resolved.payload.size = .ok selected ∧
          selected.length ≤ adapter.binding.maxRangeBytes ∧
          result = .readRange resolved.stored.metadata payload selected ∧
          w'.payloads = (payload.id, ⟨resolved.payload.digest, some (selected.start, selected.end)⟩) ::
            w.payloads
      | .error _ => setting.faults ∨ ∀ reference resolved byteRange selected,
          adapter.reference P raw false = .ok reference → byteRangeOf P range = .ok byteRange →
          Found w.registry reference resolved →
          P.resolveRange byteRange resolved.payload.size = .ok selected →
          adapter.binding.maxRangeBytes < selected.length := by
  unfold OciDistributionAdapter.readRange
  cases hreference : adapter.reference P raw false with
  | error error => exact ⟨.refl w, .inr fun _ _ _ _ h => by cases h⟩
  | ok reference =>
    cases hrange : byteRangeOf P range with
    | error error => exact ⟨.refl w, .inr fun _ _ _ _ _ h => by cases h⟩
    | ok byteRange =>
      simp only [Action.lift_ok, Prog.ret_bind]
      refine (resolve_ensures laws w hintact (quiet_change laws setting).refl reference).bind ?_ ?_
      · rintro resolved w ⟨rfl, hfound⟩
        have hsame : ∀ other, Found w.registry reference other → other = resolved :=
          fun other hother => hother.unique laws hfound
        cases hselected : P.resolveRange byteRange resolved.payload.size with
        | error error =>
          refine ⟨.refl w, .inr fun other resolved' byteRange' selected h h' hother hok => ?_⟩
          obtain rfl := Except.ok.inj h
          obtain rfl := Except.ok.inj h'
          rw [hsame _ hother, hselected] at hok
          cases hok
        | ok selected =>
          simp only [Action.lift_ok, Prog.ret_bind]
          split
          · rename_i hlong
            refine ⟨.refl w, .inr fun other resolved' byteRange' selected' h h' hother hok => ?_⟩
            obtain rfl := Except.ok.inj h
            obtain rfl := Except.ok.inj h'
            rw [hsame _ hother, hselected] at hok
            rw [← Except.ok.inj hok]
            exact hlong
          · rename_i hshort
            refine (register_ensures laws w _ _ _).bind ?_ ?_
            · rintro payload w' ⟨hreads, id, heq, hpayloads⟩
              obtain rfl := Except.ok.inj heq
              exact ⟨hreads, reference, resolved, byteRange, selected, _, rfl, hfound, rfl, hselected,
                Nat.not_lt.mp hshort, rfl, hpayloads⟩
            · rintro error w' ⟨-, id, heq, -⟩
              cases heq
      · rintro error w ⟨rfl, hwhy⟩
        refine ⟨.refl w, hwhy.imp_right fun h other resolved byteRange' selected heq _ hfound => ?_⟩
        obtain rfl := Except.ok.inj heq
        exact absurd hfound (h.1 resolved)

end Resolution

end MeridianOci.Service
