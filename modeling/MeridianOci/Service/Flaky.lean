import MeridianOci.Service.Latest

/-!
# Deletes over a flaky connection

Some attempts of a request fail for a moment, before or after the registry carried the
request out. A read shows nothing of that while an attempt is left. A DELETE that was
carried out and repeated finds nothing to delete.
-/
namespace MeridianOci.Service

open MeridianOci.Data MeridianOci.Effect MeridianOci.Model

set_option autoImplicit false

variable {P : Platform}

/-! ## Failed attempts -/

/-- An attempt that fails: whether the registry carried it out, and what the client sees. -/
structure Fault where
  applied : Bool
  answer : Except Err Response

/-- The faults that the attempts of each request meet before its answer comes through. -/
abbrev Faults := Request → List Fault

variable (P) in
/-- A connection error, or a retriable status. -/
inductive Transient (binding : OciDistributionBinding) : Except Err Response → Prop where
  | connection (error : Err) : error.kind = .httpError → Transient binding (.error error)
  | status (response : Response) : requireSafeResponseUrl P binding response.url = .ok () →
      response.status ∈ retriableStatus → (∀ failure, response.failure = some failure → failure.kind = .httpError) →
      Transient binding (.ok response)

variable (P) in
/-- The error of a request whose last attempt fails in this way. -/
def lastError (maximumBytes : Nat) : Except Err Response → Err
  | .error _ => .of .objectUnavailable "OCI registry request failed"
  | .ok response =>
    match boundedResponse P response maximumBytes with
    | .error error =>
      if error.kind = .objectUnavailable then responseError P ⟨response.status, response.headers, []⟩
      else .of .objectUnavailable "OCI registry request failed"
    | .ok bounded => responseError P bounded

/-- A transient failure is followed by another attempt while one is left. -/
theorem judge_transient {client : RegistryHttpClient} {expected : List Nat} {maximumBytes left : Nat}
    {again : Action BoundedResponse} {answer : Except Err Response}
    (hexpected : ∀ status ∈ expected, status ∉ retriableStatus) (h : Transient P client.binding answer)
    (hlast : left = 0 → again = .raise (.of .objectUnavailable "OCI registry request failed")) :
    client.judge P expected maximumBytes left again answer =
      if left = 0 then .raise (lastError P maximumBytes answer) else again := by
  cases h with
  | connection error hkind =>
    simp only [RegistryHttpClient.judge, hkind, if_true]
    split
    · rename_i hleft
      exact hlast hleft
    · rfl
  | status response hsafe hstatus hfailure =>
    have hnot : response.status ∉ expected := fun hin => hexpected _ hin hstatus
    simp only [RegistryHttpClient.judge, hsafe, hstatus, true_and]
    by_cases hleft : left = 0
    · simp only [hleft, Nat.lt_irrefl, if_false, if_true, lastError]
      cases hbounded : boundedResponse P response maximumBytes with
      | error error =>
        rcases boundedResponse_error hfailure hbounded with hkind | hkind
        · simp only [hkind, if_true, hnot, if_false]
        · simp only [hkind, reduceCtorEq, if_false, if_true, hlast hleft]
      | ok bounded =>
        have hsame := (boundedResponse_ok hbounded).1
        simp only [hsame, hnot, if_false]
    · simp only [Nat.pos_of_ne_zero hleft, if_true, hleft, if_false]

/-! ## Requests over a flaky connection -/

/-- The environment in which the attempts of a request meet its faults first. -/
def Setting.flaky {binding : OciDistributionBinding} (setting : Setting P binding) :
    Environment Op Op.Res Err (World setting.policy × Faults)
  | .send request, (w, faults), answer, (w', faults') =>
    match faults request with
    | [] => answer = .ok (deliver setting.policy request (w.reply request)) ∧ w' = w.apply request ∧
        faults' = faults
    | fault :: rest => answer = fault.answer ∧ w' = (if fault.applied then w.apply request else w) ∧
        faults' = Function.update faults request rest
  | op, (w, faults), answer, (w', faults') => setting.faultless.env op w answer w' ∧ faults' = faults

/-- The world in which an answer comes through. -/
def World.carried {binding : OciDistributionBinding} {policy : Policy P binding} (w : World policy)
    (request : Request) (faults : List Fault) : World policy :=
  if ∃ fault ∈ faults, fault.applied = true then w.apply request else w

section Attempts

variable (laws : P.Lawful) {client : RegistryHttpClient} {setting : Setting P client.binding}

include laws

/-- A request fails with its last attempt, or is answered in the world that its faults left. -/
theorem attempt_flaky_ensures {request : Request} {expected : List Nat} {maximumBytes : Nat}
    (hexpected : ∀ status ∈ expected, status ∉ retriableStatus) {w : World setting.policy} {faults : Faults}
    (hrepeat : (w.apply request).apply request = w.apply request)
    (htransient : ∀ fault ∈ faults request, Transient P client.binding fault.answer) (left : Nat) :
    (client.attempt P request expected maximumBytes (left + 1)).Ensures setting.flaky (fun _ _ => True) (w, faults)
      fun outcome s' => (∀ other, other ≠ request → s'.2 other = faults other) ∧
        match (faults request)[left]? with
        | some fault => outcome = .error (lastError P maximumBytes fault.answer) ∧
            (s'.1 = w ∨ s'.1 = w.apply request)
        | none => outcome = verdict P expected maximumBytes ((w.carried request (faults request)).reply request) ∧
            s'.1 = w.apply request := by
  induction left generalizing w faults with
  | zero =>
    rintro answer ⟨w', faults'⟩ hanswer
    refine ⟨trivial, ?_⟩
    cases hfaults : faults request with
    | nil =>
      simp only [Setting.flaky, hfaults] at hanswer
      obtain ⟨rfl, rfl, rfl⟩ := hanswer
      rw [judge_deliver laws setting.policy (w.plain_reply request), Prog.ensures_ofExcept]
      exact ⟨fun _ _ => rfl, by simp [World.carried], rfl⟩
    | cons fault rest =>
      simp only [Setting.flaky, hfaults] at hanswer
      obtain ⟨rfl, rfl, rfl⟩ := hanswer
      have hspent : client.attempt P request expected maximumBytes 0 =
          .raise (.of .objectUnavailable "OCI registry request failed") := rfl
      rw [hspent, judge_transient hexpected (htransient fault (by rw [hfaults]; exact List.mem_cons_self))
        fun _ => rfl, if_pos rfl]
      refine ⟨fun other hne => Function.update_of_ne hne _ _, rfl, ?_⟩
      by_cases happlied : fault.applied = true
      · exact .inr (if_pos happlied)
      · exact .inl (if_neg happlied)
  | succ left ih =>
    rintro answer ⟨w', faults'⟩ hanswer
    refine ⟨trivial, ?_⟩
    cases hfaults : faults request with
    | nil =>
      simp only [Setting.flaky, hfaults] at hanswer
      obtain ⟨rfl, rfl, rfl⟩ := hanswer
      rw [judge_deliver laws setting.policy (w.plain_reply request), Prog.ensures_ofExcept]
      exact ⟨fun _ _ => rfl, by simp [World.carried], rfl⟩
    | cons fault rest =>
      simp only [Setting.flaky, hfaults] at hanswer
      obtain ⟨rfl, hw', rfl⟩ := hanswer
      rw [judge_transient hexpected (htransient fault (by rw [hfaults]; exact List.mem_cons_self))
        fun h => absurd h (Nat.succ_ne_zero left), if_neg (Nat.succ_ne_zero left)]
      have hself : Function.update faults request rest request = rest := Function.update_self _ _ _
      -- the rest of the attempts starts in a world in which the request has the same effect
      have hsame : w'.apply request = w.apply request := by
        rw [hw']
        split
        · exact hrepeat
        · rfl
      have hcarried : w'.carried request rest = w.carried request (fault :: rest) := by
        rw [World.carried, World.carried, hsame, hw']
        simp only [List.mem_cons, exists_eq_or_imp]
        by_cases happlied : fault.applied = true
        · simp [happlied]
        · simp [happlied]
      refine (@ih w' _ (by rw [hsame, hrepeat]) ?_).mono ?_
      · intro later hmem
        rw [hself] at hmem
        exact htransient later (by rw [hfaults]; exact List.mem_cons_of_mem _ hmem)
      · rintro outcome s' ⟨hothers, houtcome⟩
        rw [hself] at houtcome
        refine ⟨fun other hne => (hothers other hne).trans (Function.update_of_ne hne _ _), ?_⟩
        rw [List.getElem?_cons_succ]
        cases hlast : rest[left]? with
        | some last =>
          rw [hlast] at houtcome
          refine ⟨houtcome.1, ?_⟩
          rcases houtcome.2 with hs | hs
          · rw [hs, hw']
            by_cases happlied : fault.applied = true
            · exact .inr (if_pos happlied)
            · exact .inl (if_neg happlied)
          · exact .inr (hs.trans hsame)
        | none =>
          rw [hlast] at houtcome
          exact ⟨by rw [houtcome.1, hcarried], houtcome.2.trans hsame⟩

end Attempts

/-! ## Reads over a flaky connection -/

variable (P) in
/-- The error of the first of these requests that has no attempt left; each is listed with the
bound of its answer. -/
def exhausted (attempts : Nat) (faults : Faults) (requests : List (Request × Nat)) : Option Err :=
  requests.findSome? fun entry =>
    ((faults entry.1)[attempts - 1]?).map fun fault => lastError P entry.2 fault.answer

theorem exhausted_congr {attempts : Nat} {faults faults' : Faults} {requests : List (Request × Nat)}
    (h : ∀ entry ∈ requests, faults' entry.1 = faults entry.1) :
    exhausted P attempts faults' requests = exhausted P attempts faults requests := by
  rw [exhausted, exhausted, ← List.head?_filterMap, ← List.head?_filterMap]
  refine congrArg List.head? (List.filterMap_congr fun entry hmem => ?_)
  rw [h entry hmem]

variable {adapter : OciDistributionAdapter} {setting : Setting P adapter.transport.binding}

/-- A program that sends these requests, changes nothing, and returns this value unless one of
them has no attempt left. -/
def Weathers {α : Type} (w : World setting.policy) (program : Action α) (requests : List (Request × Nat))
    (value : α) : Prop :=
  ∀ faults : Faults, (∀ entry ∈ requests, ∀ fault ∈ faults entry.1, Transient P adapter.transport.binding fault.answer) →
    program.Ensures setting.flaky (fun _ _ => True) (w, faults) fun outcome s' => s'.1 = w ∧
      (∀ other, (∀ entry ∈ requests, entry.1 ≠ other) → s'.2 other = faults other) ∧
      outcome =
        match exhausted P adapter.transport.maxReadAttempts faults requests with
        | some error => .error error
        | none => .ok value

section Reads

variable {α β : Type} {w : World setting.policy}

theorem Weathers.ret (value : α) : Weathers w (.ret value) [] value :=
  fun _ _ => ⟨rfl, fun _ _ => rfl, rfl⟩

theorem Weathers.bind {program : Action α} {next : α → Action β} {requests later : List (Request × Nat)}
    {value : α} {result : β} (h : Weathers w program requests value) (hnext : Weathers w (next value) later result)
    (hdistinct : ∀ entry ∈ requests, ∀ other ∈ later, entry.1 ≠ other.1) :
    Weathers w (program >>= next) (requests ++ later) result := by
  intro faults htransient
  have hfirst := h faults fun entry hmem => htransient entry (List.mem_append_left _ hmem)
  have happend : exhausted P adapter.transport.maxReadAttempts faults (requests ++ later) =
      (exhausted P adapter.transport.maxReadAttempts faults requests).or
        (exhausted P adapter.transport.maxReadAttempts faults later) := List.findSome?_append
  rw [happend]
  have hothers : ∀ {s' : World setting.policy × Faults},
      (∀ other, (∀ entry ∈ requests, entry.1 ≠ other) → s'.2 other = faults other) →
      ∀ entry ∈ later, s'.2 entry.1 = faults entry.1 := fun h entry hmem =>
    h entry.1 fun first hfirst => hdistinct first hfirst entry hmem
  refine hfirst.bind ?_ ?_
  · rintro first ⟨w', faults'⟩ ⟨rfl, hframe, houtcome⟩
    have hlater := hothers hframe
    cases hnone : exhausted P adapter.transport.maxReadAttempts faults requests with
    | some error =>
      rw [hnone] at houtcome
      cases houtcome
    | none =>
      rw [hnone] at houtcome
      obtain rfl := Except.ok.inj houtcome
      have hsame := @exhausted_congr P adapter.transport.maxReadAttempts _ _ _ hlater
      refine (hnext faults' fun entry hmem fault hfault => ?_).mono ?_
      · exact htransient entry (List.mem_append_right _ hmem) fault (hlater entry hmem ▸ hfault)
      · rintro outcome s'' ⟨hw, hframe', houtcome'⟩
        refine ⟨hw, fun other hother => ?_, by rw [houtcome', hsame]; rfl⟩
        rw [hframe' other fun entry hmem => hother entry (List.mem_append_right _ hmem)]
        exact hframe other fun entry hmem => hother entry (List.mem_append_left _ hmem)
  · rintro error ⟨w', faults'⟩ ⟨rfl, hframe, houtcome⟩
    refine ⟨rfl, fun other hother => hframe other fun entry hmem => hother entry (List.mem_append_left _ hmem), ?_⟩
    cases hnone : exhausted P adapter.transport.maxReadAttempts faults requests with
    | some last =>
      rw [hnone] at houtcome
      obtain rfl := Except.error.inj houtcome
      rfl
    | none =>
      rw [hnone] at houtcome
      cases houtcome

variable (laws : P.Lawful)

include laws

/-- A read whose answer is looked at without further operations. -/
theorem weathers_read {request : Request} {expected : List Nat} {maximumBytes : Nat}
    {next : BoundedResponse → Action α} {value : α} (hbuild : request.target.build P = .ok ())
    (hexpected : ∀ status ∈ expected, status ∉ retriableStatus)
    (hread : ∀ v : World setting.policy, v.apply request = v) (hidle : ∀ response, (next response).Uses fun _ => False)
    (h : ((adapter.transport.request P request expected true maximumBytes >>= next).run World.answer w).1 = .ok value) :
    Weathers w (adapter.transport.request P request expected true maximumBytes >>= next) [(request, maximumBytes)]
        value ∧
      ((adapter.transport.request P request expected true maximumBytes >>= next).run World.answer w).2 = w := by
  obtain ⟨response, w', hfirst, hlast⟩ := Prog.run_bind_ok h
  have hrequest := @request_run P adapter _ laws w request hbuild expected true maximumBytes
  rw [hfirst, hread, Prod.mk.injEq] at hrequest
  obtain ⟨hverdict, rfl⟩ := hrequest
  have hattempts : adapter.transport.maxReadAttempts = adapter.transport.maxReadAttempts - 1 + 1 :=
    (Nat.sub_add_cancel adapter.transport.maxReadAttempts_pos).symm
  constructor
  · intro faults htransient
    have hattempt := @attempt_flaky_ensures P laws adapter.transport setting request expected maximumBytes hexpected
      w' faults (hread _) (htransient _ List.mem_cons_self) (adapter.transport.maxReadAttempts - 1)
    rw [← hattempts] at hattempt
    rw [request_attempt hbuild, if_pos rfl]
    have hexhausted : exhausted P adapter.transport.maxReadAttempts faults [(request, maximumBytes)] =
        ((faults request)[adapter.transport.maxReadAttempts - 1]?).map fun fault =>
          lastError P maximumBytes fault.answer := by
      simp [exhausted]
    rw [hexhausted]
    have hcarried : w'.carried request (faults request) = w' := by
      rw [World.carried, hread, ite_self]
    have hothers : ∀ {s' : World setting.policy × Faults} (other : Request),
        (∀ other, other ≠ request → s'.2 other = faults other) →
        (∀ entry ∈ [(request, maximumBytes)], entry.1 ≠ other) → s'.2 other = faults other :=
      fun other hframe hother => hframe other (hother _ List.mem_cons_self).symm
    refine Prog.Ensures.bind (R := fun outcome s' => s'.1 = w' ∧
      (∀ other, other ≠ request → s'.2 other = faults other) ∧
      outcome =
        match (faults request)[adapter.transport.maxReadAttempts - 1]? with
        | some fault => .error (lastError P maximumBytes fault.answer)
        | none => .ok response) (hattempt.mono ?_) ?_ ?_
    · rintro outcome s' ⟨hframe, houtcome⟩
      cases hlast : (faults request)[adapter.transport.maxReadAttempts - 1]? with
      | some fault =>
        rw [hlast] at houtcome
        refine ⟨?_, hframe, houtcome.1⟩
        rw [houtcome.2.elim id fun h => h.trans (hread _)]
      | none =>
        rw [hlast, hcarried] at houtcome
        exact ⟨houtcome.2.trans (hread _), hframe, houtcome.1.trans hverdict.symm⟩
    · rintro found ⟨w'', faults'⟩ ⟨rfl, hframe, houtcome⟩
      cases hlast' : (faults request)[adapter.transport.maxReadAttempts - 1]? with
      | some fault =>
        rw [hlast'] at houtcome
        cases houtcome
      | none =>
        rw [hlast'] at houtcome
        obtain rfl := Except.ok.inj houtcome
        have hnext : (next found).Ensures setting.flaky (fun _ _ => True) (w'', faults') fun outcome s' =>
            s' = (w'', faults') ∧ outcome = ((next found).run World.answer w'').1 := (hidle found).idle _ _
        refine hnext.mono ?_
        rintro outcome s' ⟨rfl, rfl⟩
        refine ⟨rfl, fun other => hothers other hframe, ?_⟩
        rw [hlast]
        rfl
    · rintro error ⟨w'', faults'⟩ ⟨rfl, hframe, houtcome⟩
      refine ⟨rfl, fun other => hothers other hframe, ?_⟩
      cases hlast' : (faults request)[adapter.transport.maxReadAttempts - 1]? with
      | some fault =>
        rw [hlast'] at houtcome
        obtain rfl := Except.error.inj houtcome
        rfl
      | none =>
        rw [hlast'] at houtcome
        cases houtcome
  · rw [Prog.run_bind, hfirst]
    exact (hidle response).idle_run w'

/-- A manifest that is read without faults is read over a flaky connection. -/
theorem getManifest_weathers {reference : String} {document : ManifestDocument P}
    (h : ((adapter.transport.getManifest P reference).run World.answer w).1 = .ok document) :
    Weathers w (adapter.transport.getManifest P reference)
        [(.getManifest reference, adapter.transport.binding.maxManifestBytes)] document ∧
      ((adapter.transport.getManifest P reference).run World.answer w).2 = w := by
  refine weathers_read laws rfl (by decide) (fun v => v.apply_getManifest reference) (fun response => ?_) h
  split
  all_goals
    dsimp only
    split
    · split <;> trivial
    · split
      · trivial
      · split <;> trivial

theorem getBlobBytes_weathers {descriptor : OciDescriptor P} {maximumBytes : Nat} {body : Bytes}
    (h : ((adapter.transport.getBlobBytes P descriptor maximumBytes).run World.answer w).1 = .ok body) :
    Weathers w (adapter.transport.getBlobBytes P descriptor maximumBytes)
        [(.getBlob descriptor.digest none, maximumBytes)] body ∧
      ((adapter.transport.getBlobBytes P descriptor maximumBytes).run World.answer w).2 = w := by
  unfold RegistryHttpClient.getBlobBytes at h ⊢
  by_cases hlong : maximumBytes < descriptor.size
  · rw [if_pos hlong] at h
    cases h
  · rw [if_neg hlong] at h ⊢
    refine weathers_read laws rfl (by decide) (fun v => v.apply_getBlob descriptor.digest none) (fun response => ?_) h
    dsimp only
    split
    · trivial
    · split <;> trivial

variable (adapter) in
/-- The requests by which a reference is resolved. -/
def resolutionRequests (reference : ObjectReference) (config : OciDescriptor P) : List (Request × Nat) :=
  [(.getManifest (nameOf P reference), adapter.transport.binding.maxManifestBytes),
    (.getBlob config.digest none, adapter.binding.maxMetadataBytes),
    (.getManifest (anchorName P reference.objectId), adapter.transport.binding.maxManifestBytes)]

theorem storedFromManifest_weathers {document : ManifestDocument P} {found : ResolvedObject P}
    (h : ((adapter.storedFromManifest P document).run World.answer w).1 = .ok found) :
    ∃ config payload subject, manifestDescriptors document = .ok (config, payload, subject) ∧
      found.manifest = document ∧ ((adapter.storedFromManifest P document).run World.answer w).2 = w ∧
      Weathers w (adapter.storedFromManifest P document)
        [(.getBlob config.digest none, adapter.binding.maxMetadataBytes)] found := by
  unfold OciDistributionAdapter.storedFromManifest at h ⊢
  cases hdescriptors : manifestDescriptors document with
  | error error =>
    rw [hdescriptors] at h
    dsimp only at h
    split at h <;> cases h
  | ok descriptors =>
    obtain ⟨config, payload, subject⟩ := descriptors
    simp only [hdescriptors, Prog.pure_eq, Prog.ret_bind] at h ⊢
    obtain ⟨body, w', hbody, hread⟩ := Prog.run_bind_ok h
    obtain ⟨hblob, hsame⟩ := @getBlobBytes_weathers P adapter setting w laws _ _ body (by rw [hbody])
    rw [hbody] at hsame
    obtain rfl : w' = w := hsame
    cases hstored : StoredObject.fromBytes P body adapter.binding.maxMetadataBytes with
    | error error =>
      rw [hstored] at hread
      dsimp only at hread
      split at hread <;> cases hread
    | ok stored =>
      simp only [hstored] at hread
      split at hread
      · cases hread
      rename_i hagrees
      obtain rfl := Except.ok.inj hread
      refine ⟨config, payload, subject, rfl, rfl, ?_, ?_⟩
      · rw [Prog.run_bind, hbody]
        simp only [hstored, hagrees, if_false]
        rfl
      · show Weathers w' _ ([_] ++ []) _
        refine hblob.bind ?_ fun _ _ _ hmem => by cases hmem
        simp only [hstored, hagrees, if_false]
        exact .ret _

/-- A reference that is resolved without faults is resolved over a flaky connection. -/
theorem storedForReference_weathers {reference : ObjectReference} {resolved : ResolvedObject P}
    (h : w.lookup reference = .ok resolved) : ∃ config payload subject,
      manifestDescriptors resolved.manifest = .ok (config, payload, subject) ∧
      w.registry.resolve (nameOf P reference) = some resolved.manifest.body ∧
      Weathers w (adapter.storedForReference P reference) (resolutionRequests adapter reference config) resolved := by
  unfold World.lookup at h
  unfold OciDistributionAdapter.storedForReference at h ⊢
  cases htag : OciDistributionAdapter.referenceTag P reference with
  | error error =>
    rw [htag] at h
    cases h
  | ok tag =>
    obtain ⟨rfl, -⟩ := referenceTag_ok htag
    have hprefix : ['s', 'h', 'a', '2', '5', '6', ':'].isPrefixOf (nameOf P reference).toList = false := by
      unfold nameOf
      split
      · exact isPrefixOf_latestName _
      · exact isPrefixOf_versionName _ _
    have hdifferent : nameOf P reference ≠ anchorName P reference.objectId := by
      unfold nameOf
      split
      · exact (anchorName_ne_latestName _ _).symm
      · exact (anchorName_ne_versionName _ _ _).symm
    simp only [htag, Action.lift_ok, Prog.ret_bind] at h ⊢
    obtain ⟨document, w₁, hdocument, hrest⟩ := Prog.run_bind_ok h
    obtain ⟨hmanifest, hsame⟩ := @getManifest_weathers P adapter setting w laws _ document (by rw [hdocument])
    rw [hdocument] at hsame
    obtain rfl : w₁ = w := hsame
    have hresolve := (getManifest_ensures (G := Eq) laws reading_answer (fun _ _ => id) w₁ hprefix).run
    rw [hdocument] at hresolve
    obtain ⟨found, w₂, hfound, hlast⟩ := Prog.run_bind_ok hrest
    obtain ⟨config, payload, subject, hdescriptors, hbody, hsame, hstored⟩ :=
      @storedFromManifest_weathers P adapter setting w₁ laws document found (by rw [hfound])
    rw [hfound] at hsame
    obtain rfl : w₂ = w₁ := hsame
    split at hlast
    · cases hlast
    rename_i hresource
    split at hlast
    · cases hlast
    rename_i hobject
    split at hlast
    · cases hlast
    rename_i hdigest
    rw [← hbody] at hdescriptors
    simp only [anchorTag_eq laws, Action.lift_ok, Prog.ret_bind, hdescriptors] at hlast
    obtain ⟨anchor, w₃, hanchor, hlast⟩ := Prog.run_bind_ok hlast
    obtain ⟨hsubject, -⟩ := @getManifest_weathers P adapter setting w₂ laws _ anchor (by rw [hanchor])
    split at hlast
    · cases hlast
    rename_i hagrees
    obtain rfl := Except.ok.inj hlast
    refine ⟨config, payload, subject, hdescriptors, hbody ▸ hresolve.2.1, ?_⟩
    show Weathers w₂ _ ([_] ++ ([_] ++ ([_] ++ []))) _
    refine hmanifest.bind (hstored.bind ?_ ?_) ?_
    · simp only [hresource, hobject, hdigest, if_false, anchorTag_eq laws, Action.lift_ok, Prog.ret_bind]
      refine hsubject.bind ?_ fun _ _ _ hmem => by cases hmem
      simp only [hdescriptors, Action.lift_ok, Prog.ret_bind, hagrees, if_false]
      exact .ret _
    · simp [Request.getBlob, Request.getManifest]
    · simp [Request.getBlob, Request.getManifest, hdifferent]

end Reads

/-! ## Deletes over a flaky connection -/

variable (adapter) in
/-- The requests of a delete. -/
def deletionRequests (reference : ObjectReference) (resolved : ResolvedObject P) (config : OciDescriptor P) :
    List (Request × Nat) :=
  resolutionRequests adapter reference config ++
    [(.deleteManifest resolved.manifest.digest, defaultResponseBytes)]

section Deletes

variable {w : World setting.policy}

theorem flaky_locked_ensures {α : Type} {action : Action α} {s : World setting.policy × Faults}
    {R : Except Err α → World setting.policy × Faults → Prop}
    (h : action.Ensures setting.flaky (fun _ _ => True) s R) :
    (Action.locked action).Ensures setting.flaky (fun _ _ => True) s R := by
  rintro answer ⟨w', faults'⟩ ⟨⟨rfl, rfl⟩, rfl⟩
  refine ⟨trivial, h.finally_ fun outcome s' hr => ?_⟩
  rintro released ⟨w'', faults''⟩ ⟨⟨rfl, rfl⟩, rfl⟩
  exact ⟨trivial, hr⟩

/-- The clock is read once, without a fault. -/
theorem flaky_now_ensures {faults : Faults} {Permits : Int → Prop}
    (hclock : ∀ next, setting.tick w.now next → ∃ instant, next = .aware instant ∧ Permits instant) :
    (OciDistributionAdapter.now).Ensures setting.flaky (fun _ _ => True) (w, faults) fun outcome s' =>
      ∃ instant, outcome = .ok instant ∧ Permits instant ∧ s' = ({ w with now := .aware instant }, faults) := by
  rintro answer ⟨w', faults'⟩ ⟨⟨now, htick, rfl, rfl⟩ | ⟨hfaults, -⟩, rfl⟩
  · obtain ⟨instant, rfl, hpermits⟩ := hclock now htick
    exact ⟨trivial, instant, rfl, hpermits, rfl⟩
  · exact hfaults.elim

variable (laws : P.Lawful)

include laws

/-- A deleted version is not resolved any more. -/
theorem lookup_deleted {reference : ObjectReference} {body : Bytes}
    (hresolve : w.registry.resolve (nameOf P reference) = some body) (resolved : ResolvedObject P) :
    (w.apply (.deleteManifest (sha256Digest P body))).lookup reference ≠ .ok resolved := by
  intro hlookup
  have hprefix : ['s', 'h', 'a', '2', '5', '6', ':'].isPrefixOf (nameOf P reference).toList = false := by
    unfold nameOf
    split
    · exact isPrefixOf_latestName _
    · exact isPrefixOf_versionName _ _
  obtain ⟨-, -, -, -, hfound, -⟩ := @storedForReference_weathers P adapter setting _ laws _ _ hlookup
  rw [Registry.resolve_tag hprefix] at hresolve hfound
  have hstored := (Registry.tagged_eq_some.mp hresolve).2
  rw [w.apply_deleteManifest, Registry.resolve_digest, hstored] at hfound
  simp only [Registry.tagged_deleteManifest laws, hresolve, if_true] at hfound
  cases hfound

/-- The answer of a DELETE that comes through tells whether an earlier attempt was carried out. -/
theorem deleteManifest_flaky_ensures {body : Bytes} (hstored : w.registry.resolve (sha256Digest P body) = some body)
    {faults : Faults} (htransient : ∀ fault ∈ faults (.deleteManifest (sha256Digest P body)),
      Transient P adapter.transport.binding fault.answer) :
    (adapter.transport.deleteManifest P (sha256Digest P body)).Ensures setting.flaky (fun _ _ => True) (w, faults)
      fun outcome s' =>
        match (faults (.deleteManifest (sha256Digest P body)))[adapter.transport.maxReadAttempts - 1]? with
        | some fault => outcome = .error (lastError P defaultResponseBytes fault.answer)
        | none => (∃ fault ∈ faults (.deleteManifest (sha256Digest P body)), fault.applied = true) ∧
              outcome = .ok false ∨
            (¬∃ fault ∈ faults (.deleteManifest (sha256Digest P body)), fault.applied = true) ∧
              outcome = .ok true ∧ s'.1 = w.apply (.deleteManifest (sha256Digest P body)) := by
  have hattempts : adapter.transport.maxReadAttempts = adapter.transport.maxReadAttempts - 1 + 1 :=
    (Nat.sub_add_cancel adapter.transport.maxReadAttempts_pos).symm
  have hattempt := @attempt_flaky_ensures P laws adapter.transport setting _ [202, 404] defaultResponseBytes
    (by decide) w faults (w.apply_deleteManifest_twice body) htransient (adapter.transport.maxReadAttempts - 1)
  rw [← hattempts] at hattempt
  refine hattempt.bind ?_ ?_
  · rintro response s' ⟨-, hresponse⟩
    cases hlast : (faults (.deleteManifest (sha256Digest P body)))[adapter.transport.maxReadAttempts - 1]? with
    | some fault =>
      rw [hlast] at hresponse
      cases hresponse.1
    | none =>
      rw [hlast] at hresponse
      obtain ⟨hverdict, hs'⟩ := hresponse
      obtain ⟨rfl, -⟩ := verdict_ok hverdict.symm
      by_cases happlied : ∃ fault ∈ faults (.deleteManifest (sha256Digest P body)), fault.applied = true
      · refine .inl ⟨happlied, ?_⟩
        rw [World.carried, if_pos happlied, World.reply_deleteManifest, w.resolve_deleteManifest]
        rfl
      · refine .inr ⟨happlied, ?_, hs'⟩
        rw [World.carried, if_neg happlied, World.reply_deleteManifest, hstored]
        rfl
  · rintro error s' ⟨-, hresponse⟩
    cases hlast : (faults (.deleteManifest (sha256Digest P body)))[adapter.transport.maxReadAttempts - 1]? with
    | some fault =>
      rw [hlast] at hresponse
      rw [Except.error.inj hresponse.1]
    | none =>
      rw [hlast] at hresponse
      have hrefused := verdict_error hresponse.1.symm
      rw [World.reply_deleteManifest] at hrefused
      exfalso
      revert hrefused
      cases (w.carried _ _).registry.resolve (sha256Digest P body) with
      | none => exact not_refused_unknown (by decide) (.inr (.inl rfl))
      | some found => exact not_refused_empty (by decide)

variable {raw : Json} {reference : ObjectReference} {resolved : ResolvedObject P} {config payload subject : OciDescriptor P}
variable (hreference : adapter.reference P raw true = .ok reference)
variable (hlookup : w.lookup reference = .ok resolved)
variable (hdescriptors : manifestDescriptors resolved.manifest = .ok (config, payload, subject))
variable (hclock : ∀ next, setting.tick w.now next → ∃ instant, next = .aware instant ∧
  requireDeletePermitted P resolved.stored.retention instant = .ok ())
variable {faults : Faults} (htransient : ∀ entry ∈ deletionRequests adapter reference resolved config,
  ∀ fault ∈ faults entry.1, Transient P adapter.transport.binding fault.answer)

include hreference hlookup hdescriptors hclock htransient

/-- A delete fails with the request that has no attempt left, or because its DELETE was carried
out by an earlier attempt, and otherwise removes the version. -/
theorem delete_flaky_ensures :
    (adapter.delete P raw).Ensures setting.flaky (fun _ _ => True) (w, faults) fun outcome s' =>
      match exhausted P adapter.transport.maxReadAttempts faults (deletionRequests adapter reference resolved config) with
      | some error => outcome = .error error
      | none => (∃ fault ∈ faults (.deleteManifest resolved.manifest.digest), fault.applied = true) ∧
            outcome = .error { kind := .objectNotFound } ∨
          (¬∃ fault ∈ faults (.deleteManifest resolved.manifest.digest), fault.applied = true) ∧
            outcome = .ok .delete ∧ ∀ other, s'.1.lookup reference ≠ .ok other := by
  obtain ⟨config', payload', subject', hdescriptors', hresolve, hweathers⟩ :=
    @storedForReference_weathers P adapter setting w laws _ _ hlookup
  obtain ⟨rfl, -, -⟩ : config' = config ∧ payload' = payload ∧ subject' = subject := by
    simpa using hdescriptors'.symm.trans hdescriptors
  have hdeletion := resolved.manifest.digest_eq
  have hstored : w.registry.resolve (sha256Digest P resolved.manifest.body) = some resolved.manifest.body := by
    rw [Registry.resolve_digest]
    refine (Registry.tagged_eq_some.mp ((Registry.resolve_tag ?_).symm.trans hresolve)).2
    unfold nameOf
    split
    · exact isPrefixOf_latestName _
    · exact isPrefixOf_versionName _ _
  have happend : exhausted P adapter.transport.maxReadAttempts faults
        (deletionRequests adapter reference resolved config') =
      (exhausted P adapter.transport.maxReadAttempts faults (resolutionRequests adapter reference config')).or
        (((faults (.deleteManifest resolved.manifest.digest))[adapter.transport.maxReadAttempts - 1]?).map
          fun fault => lastError P defaultResponseBytes fault.answer) := by
    rw [exhausted, deletionRequests, List.findSome?_append]
    simp only [exhausted, List.findSome?_cons, List.findSome?_nil]
    cases (faults (.deleteManifest resolved.manifest.digest))[adapter.transport.maxReadAttempts - 1]? <;> rfl
  unfold OciDistributionAdapter.delete
  simp only [hreference, Action.lift_ok, Prog.ret_bind]
  refine flaky_locked_ensures ((hweathers faults fun entry hmem => htransient entry
    (List.mem_append_left _ hmem)).bind ?_ ?_)
  · rintro found ⟨w₁, faults₁⟩ ⟨rfl, hframe, hfound⟩
    have hsame : faults₁ (.deleteManifest resolved.manifest.digest) =
        faults (.deleteManifest resolved.manifest.digest) := by
      refine hframe _ fun entry hmem => ?_
      simp only [resolutionRequests, List.mem_cons, List.not_mem_nil, or_false] at hmem
      rcases hmem with rfl | rfl | rfl
      · simp [Request.getManifest, Request.deleteManifest]
      · simp [Request.getBlob, Request.deleteManifest]
      · simp [Request.getManifest, Request.deleteManifest]
    cases hresolution : exhausted P adapter.transport.maxReadAttempts faults
        (resolutionRequests adapter reference config') with
    | some error =>
      rw [hresolution] at hfound
      cases hfound
    | none =>
      rw [hresolution] at hfound
      obtain rfl := Except.ok.inj hfound
      rw [happend, hresolution, Option.none_or]
      refine (flaky_now_ensures hclock).bind ?_ ?_
      · rintro instant s' ⟨_, heq, hpermitted, rfl⟩
        obtain rfl := Except.ok.inj heq
        simp only [hpermitted, Action.lift_ok, Prog.ret_bind]
        rw [hdeletion] at hsame ⊢
        rw [← hsame]
        have hdelete := @deleteManifest_flaky_ensures P adapter setting { w₁ with now := .aware instant } laws
          found.manifest.body hstored faults₁ (by
            intro fault hmem
            rw [hsame, ← hdeletion] at hmem
            exact htransient (.deleteManifest found.manifest.digest, defaultResponseBytes)
              (List.mem_append_right _ List.mem_cons_self) fault hmem)
        refine hdelete.bind ?_ ?_
        · rintro removed s' h
          generalize (faults₁ (.deleteManifest (sha256Digest P found.manifest.body)))[
            adapter.transport.maxReadAttempts - 1]? = last at h
          cases last with
          | some fault => cases h
          | none =>
            rcases h with ⟨happlied, hremoved⟩ | ⟨happlied, hremoved, hs'⟩
            · obtain rfl := Except.ok.inj hremoved
              exact .inl ⟨happlied, rfl⟩
            · obtain rfl := Except.ok.inj hremoved
              refine .inr ⟨happlied, rfl, fun other => ?_⟩
              rw [hs']
              exact @lookup_deleted P adapter setting { w₁ with now := .aware instant } laws _ _ hresolve other
        · rintro error s' h
          generalize (faults₁ (.deleteManifest (sha256Digest P found.manifest.body)))[
            adapter.transport.maxReadAttempts - 1]? = last at h ⊢
          cases last with
          | some fault => rw [Except.error.inj h]; rfl
          | none => rcases h with ⟨-, h⟩ | ⟨-, h, -⟩ <;> cases h
      · rintro error s' ⟨_, heq, -⟩
        cases heq
  · rintro error ⟨w₁, faults₁⟩ ⟨rfl, -, hfound⟩
    rw [happend]
    cases hresolution : exhausted P adapter.transport.maxReadAttempts faults
        (resolutionRequests adapter reference config') with
    | some last =>
      rw [hresolution] at hfound
      rw [Except.error.inj hfound]
      rfl
    | none =>
      rw [hresolution] at hfound
      cases hfound

omit hreference hlookup hdescriptors hclock htransient laws in
theorem Responsive.performs_flaky (h : Responsive setting) {α : Type} (program : Action α)
    (s : World setting.policy × Faults) : ∃ outcome s', Performs setting.flaky program s outcome s' := by
  refine exists_performs (fun op s _ => ?_) program.uses_anything s
  obtain ⟨w, faults⟩ := s
  cases op with
  | send request =>
    cases hfaults : faults request with
    | nil => exact ⟨_, (_, _), by simp only [Setting.flaky, hfaults]; exact ⟨rfl, rfl, rfl⟩⟩
    | cons fault rest => exact ⟨_, (_, _), by simp only [Setting.flaky, hfaults]; exact ⟨rfl, rfl, rfl⟩⟩
  | openPayload payload chunkSize =>
    obtain ⟨answer, hanswer⟩ := h.streams payload chunkSize
    exact ⟨answer, (w, faults), ⟨hanswer, rfl⟩, rfl⟩
  | register source expectedLength expectedDigest => exact ⟨_, (_, faults), ⟨"", rfl, rfl⟩, rfl⟩
  | clock =>
    obtain ⟨now, htick⟩ := h.tick w.now
    exact ⟨_, (_, faults), .inl ⟨now, htick, rfl, rfl⟩, rfl⟩
  | authorize => exact ⟨.ok (), (w, faults), ⟨.inl rfl, rfl⟩, rfl⟩
  | token => exact ⟨.ok "", (w, faults), ⟨.inl ⟨"", rfl⟩, rfl⟩, rfl⟩
  | acquire => exact ⟨_, (w, faults), ⟨rfl, rfl⟩, rfl⟩
  | release => exact ⟨_, (w, faults), ⟨rfl, rfl⟩, rfl⟩
  | memory update => exact ⟨_, (_, faults), ⟨rfl, rfl⟩, rfl⟩

omit hreference hlookup hdescriptors hclock htransient laws in
variable (adapter reference resolved config) in
/-- The first request without an attempt left is reported as unavailable; if every request is
answered, no failed attempt of the DELETE was carried out. -/
def Harmless (faults : Faults) : Prop :=
  match exhausted P adapter.transport.maxReadAttempts faults (deletionRequests adapter reference resolved config) with
  | some error => error.kind = .objectUnavailable
  | none => ∀ fault ∈ faults (.deleteManifest resolved.manifest.digest), fault.applied = false

/-- A delete over a flaky connection removes the version or reports that the registry is
unavailable if and only if its faults are harmless. -/
theorem delete_transient (hresponsive : Responsive setting) :
    (∀ outcome s', Performs setting.flaky (adapter.delete P raw) (w, faults) outcome s' →
      (outcome = .ok .delete ∧ ∀ other, s'.1.lookup reference ≠ .ok other) ∨
        ∃ error, outcome = .error error ∧ error.kind = .objectUnavailable) ↔
      Harmless adapter reference resolved config faults := by
  have hdelete := delete_flaky_ensures laws hreference hlookup hdescriptors hclock htransient
  unfold Harmless
  constructor
  · intro hgood
    obtain ⟨outcome, s', hperforms⟩ := hresponsive.performs_flaky (adapter.delete P raw) (w, faults)
    have houtcome := hperforms.ensures hdelete
    cases hexhausted : exhausted P adapter.transport.maxReadAttempts faults
        (deletionRequests adapter reference resolved config) with
    | some error =>
      rw [hexhausted] at houtcome
      rcases hgood outcome s' hperforms with ⟨hok, -⟩ | ⟨other, hother, hkind⟩
      · cases houtcome.symm.trans hok
      · obtain rfl := Except.error.inj (houtcome.symm.trans hother)
        exact hkind
    | none =>
      rw [hexhausted] at houtcome
      intro fault hmem
      rw [← Bool.not_eq_true]
      intro happlied
      rcases houtcome with ⟨-, herror⟩ | ⟨hnone, -⟩
      · rcases hgood outcome s' hperforms with ⟨hok, -⟩ | ⟨other, hother, hkind⟩
        · cases herror.symm.trans hok
        · obtain rfl := Except.error.inj (herror.symm.trans hother)
          cases hkind
      · exact hnone ⟨fault, hmem, happlied⟩
  · intro hharmless outcome s' hperforms
    have houtcome := hperforms.ensures hdelete
    cases hexhausted : exhausted P adapter.transport.maxReadAttempts faults
        (deletionRequests adapter reference resolved config) with
    | some error =>
      rw [hexhausted] at houtcome hharmless
      exact .inr ⟨error, houtcome, hharmless⟩
    | none =>
      rw [hexhausted] at houtcome hharmless
      rcases houtcome with ⟨⟨fault, hmem, happlied⟩, -⟩ | ⟨-, hok, hgone⟩
      · have hnot := hharmless fault hmem
        rw [happlied] at hnot
        cases hnot
      · exact .inl ⟨hok, hgone⟩

end Deletes

/-! ## Flaky deletes of the sample service -/

namespace Sample

open MeridianOci.Model.Sample

/-- The first attempt of every request meets a connection error. -/
def interrupted (applied : Bool) : Faults := fun _ => [⟨applied, .error { kind := .httpError }⟩]

theorem transient_interrupted {limit : Nat} (applied : Bool) (request : Request) :
    ∀ fault ∈ interrupted applied request, Transient platform (Sample.adapter limit).transport.binding fault.answer := by
  intro fault hmem
  obtain rfl := List.mem_singleton.mp hmem
  exact .connection _ rfl

theorem exhausted_interrupted {limit : Nat} (applied : Bool) (requests : List (Request × Nat)) :
    exhausted platform (Sample.adapter limit).transport.maxReadAttempts (interrupted applied) requests = none := by
  rw [exhausted, List.findSome?_eq_none_iff]
  exact fun entry _ => rfl

/-- A published version, its exact reference and its config. -/
theorem run_resolved : ∃ limit, ∃ w : World (Sample.setting limit False).policy, ∃ resolved config payload subject,
    Runs (Sample.setting limit False) (.aware 0) ⟨w, .idle,
      [eventOf { objectId := "a", text := "x" } (Plain.stored { objectId := "a", text := "x" }).metadata
        (World.empty _ (.aware 0)) w]⟩ ∧
    w.lookup (exactReference (Sample.adapter limit) "a"
      (sha256Digest platform (Plain.content { objectId := "a", text := "x" }))) = .ok resolved ∧
    resolved.stored.retention = none ∧ manifestDescriptors resolved.manifest = .ok (config, payload, subject) := by
  obtain ⟨limit, hfits⟩ := exists_limit [{ objectId := "a", text := "x" }] (by decide)
  obtain ⟨w, hrun, hcatalog⟩ := run_start (hfits _ List.mem_cons_self) (.aware 0)
  have hlive : Plain.stored { objectId := "a", text := "x" } ∈ (catalogOf w.registry).live := by
    rw [hcatalog]
    exact rfl
  obtain ⟨resolved, hlookup, hstored⟩ := (mem_live_iff lawful (hrun.intact lawful)).mp hlive
  obtain ⟨config, payload, subject, hdescriptors, -⟩ :=
    @storedForReference_weathers platform (Sample.adapter limit) (Sample.setting limit False) w lawful _ _ hlookup
  exact ⟨limit, w, resolved, config, payload, subject, hrun, hlookup, by rw [hstored]; rfl, hdescriptors⟩

theorem clock_permits {limit : Nat} {w : World (Sample.setting limit False).policy} {retention : Option RetentionRequest}
    (h : retention = none) : ∀ next, (Sample.setting limit False).tick w.now next →
      ∃ instant, next = .aware instant ∧ requireDeletePermitted platform retention instant = .ok () :=
  fun _ hnext => ⟨0, hnext, by rw [h]; rfl⟩

/-- The first attempt of every request is lost before it reaches the registry. -/
theorem delete_transient_repeated : ∃ limit, ∃ w : World (Sample.setting limit False).policy,
    ∀ outcome s', Performs (Sample.setting limit False).flaky
        ((Sample.adapter limit).delete platform (Plain.reference { objectId := "a", text := "x" }))
        (w, interrupted false) outcome s' →
      (outcome = .ok .delete ∧ ∀ other, s'.1.lookup (exactReference (Sample.adapter limit) "a"
          (sha256Digest platform (Plain.content { objectId := "a", text := "x" }))) ≠ .ok other) ∨
        ∃ error, outcome = .error error ∧ error.kind = .objectUnavailable := by
  obtain ⟨limit, w, resolved, config, payload, subject, hrun, hlookup, hretention, hdescriptors⟩ := run_resolved
  have hreference := @reference_plain limit { objectId := "a", text := "x" } true
  have htransient := delete_transient lawful hreference hlookup hdescriptors (clock_permits hretention)
    (fun entry _ => transient_interrupted false entry.1) (responsive limit False)
  refine ⟨limit, w, htransient.mpr ?_⟩
  rw [Harmless, exhausted_interrupted]
  intro fault hmem
  obtain rfl := List.mem_singleton.mp hmem
  rfl

/-- The answer to the first attempt of every request is lost, and the DELETE that is repeated
finds nothing. -/
theorem delete_transient_lost : ∃ limit, ∃ w : World (Sample.setting limit False).policy, ∃ resolved outcome s',
    Runs (Sample.setting limit False) (.aware 0) ⟨w, .idle,
      [eventOf { objectId := "a", text := "x" } (Plain.stored { objectId := "a", text := "x" }).metadata
        (World.empty _ (.aware 0)) w]⟩ ∧
    w.lookup (exactReference (Sample.adapter limit) "a"
      (sha256Digest platform (Plain.content { objectId := "a", text := "x" }))) = .ok resolved ∧
    requireDeletePermitted platform resolved.stored.retention 0 = .ok () ∧
    (∀ request, ∀ fault ∈ interrupted true request,
      Transient platform (Sample.adapter limit).transport.binding fault.answer) ∧
    Performs (Sample.setting limit False).flaky
      ((Sample.adapter limit).delete platform (Plain.reference { objectId := "a", text := "x" }))
      (w, interrupted true) outcome s' ∧
    outcome = .error { kind := .objectNotFound } := by
  obtain ⟨limit, w, resolved, config, payload, subject, hrun, hlookup, hretention, hdescriptors⟩ := run_resolved
  obtain ⟨outcome, s', hperforms⟩ := (responsive limit False).performs_flaky
    ((Sample.adapter limit).delete platform (Plain.reference { objectId := "a", text := "x" })) (w, interrupted true)
  have hreference := @reference_plain limit { objectId := "a", text := "x" } true
  have houtcome := hperforms.ensures (delete_flaky_ensures lawful hreference hlookup hdescriptors
    (clock_permits hretention) fun entry _ => transient_interrupted true entry.1)
  rw [exhausted_interrupted] at houtcome
  refine ⟨limit, w, resolved, outcome, s', hrun, hlookup, by rw [hretention]; rfl,
    transient_interrupted true, hperforms, ?_⟩
  rcases houtcome with ⟨-, herror⟩ | ⟨hnone, -⟩
  · exact herror
  · exact absurd ⟨_, List.mem_singleton_self _, rfl⟩ hnone

end Sample

end MeridianOci.Service
