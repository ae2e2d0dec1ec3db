import MeridianOci.Service.Desk

/-!
# What an upload is made of

The PATCHes of an upload beside the chunks its payload delivered. A put sends exactly
the chunks it was delivered before it finalises an upload, in every attempt; the small
blobs of a commit are uploaded without a PATCH.
-/
namespace MeridianOci.Service

open MeridianOci.Data MeridianOci.Effect MeridianOci.Model

set_option autoImplicit false

variable {P : Platform}

/-- An upload so far: the minimum it was opened with, what was delivered for it and what was sent. -/
structure Sending where
  minimum : Option Nat
  delivered : List Bytes
  patched : List Bytes

namespace Sending

def step : Option Sending → Sighting → Option Sending
  | _, .opened minimum => some ⟨minimum, [], []⟩
  | some sending, .delivered chunks => some { sending with delivered := sending.delivered ++ chunks }
  | some sending, .patched chunk => some { sending with patched := sending.patched ++ [chunk] }
  | sending, _ => sending

/-- Every PATCH but the last carries the minimum. -/
def Respects (sending : Sending) : Prop :=
  ∀ minimum, sending.minimum = some minimum → ∀ chunk ∈ sending.patched.dropLast, minimum ≤ chunk.length

/-- Every delivered chunk but the last has the minimum length. -/
def LongChunks (sending : Sending) : Prop :=
  ∀ minimum, sending.minimum = some minimum → ∀ chunk ∈ sending.delivered.dropLast, minimum ≤ chunk.length

/-- What was sent is what was delivered. -/
def Faithful (sending : Sending) : Prop := sending.patched = sending.delivered

theorem Faithful.respects_iff {sending : Sending} (h : sending.Faithful) : sending.Respects ↔ sending.LongChunks := by
  rw [Respects, LongChunks, show sending.patched = sending.delivered from h]

end Sending

/-- The upload that was opened last. -/
def sendingOf (seen : List Sighting) : Option Sending := seen.foldl Sending.step none

/-- Whenever an upload is finalised, what was sent is what was delivered. -/
def Fair (seen : List Sighting) : Prop :=
  ∀ front rest, seen = front ++ .finalised :: rest → ∃ sending, sendingOf front = some sending ∧ sending.Faithful

theorem sendingOf_append (seen more : List Sighting) : sendingOf (seen ++ more) = more.foldl Sending.step (sendingOf seen) :=
  List.foldl_append

/-- An upload that is opened replaces the one before it. -/
theorem foldl_step {more : List Sighting} {sending : Sending} (h : sendingOf more = some sending) (before : Option Sending) :
    more.foldl Sending.step before = some sending := by
  suffices hgen : ∀ start, more.foldl Sending.step none = some sending → more.foldl Sending.step start = some sending from
    hgen before h
  clear h
  induction more with
  | nil => rintro start ⟨⟩
  | cons item rest ih =>
    intro start h
    cases item with
    | opened minimum => exact h
    | delivered chunks => exact ih _ h
    | patched chunk => exact ih _ h
    | finalised => exact ih _ h
    | told reading => exact ih _ h

theorem foldl_patched (sending : Sending) (chunks : List Bytes) :
    (chunks.map Sighting.patched).foldl Sending.step (some sending) =
      some { sending with patched := sending.patched ++ chunks } := by
  induction chunks generalizing sending with
  | nil => simp
  | cons chunk rest ih =>
    rw [List.map_cons, List.foldl_cons, Sending.step, ih]
    simp

/-- A part of a session: delivered and sent. -/
theorem step_part {seen : List Sighting} {sending : Sending} (h : sendingOf seen = some sending) (hfaithful : sending.Faithful)
    (chunks : List Bytes) : ∃ sending', sendingOf (seen ++ .delivered chunks :: chunks.map .patched) = some sending' ∧
      sending'.Faithful := by
  refine ⟨⟨sending.minimum, sending.delivered ++ chunks, sending.patched ++ chunks⟩, ?_, ?_⟩
  · rw [sendingOf_append, h, List.foldl_cons, Sending.step, foldl_patched]
  · show sending.patched ++ chunks = sending.delivered ++ chunks
    rw [show sending.patched = sending.delivered from hfaithful]

theorem fair_of_not_mem {seen : List Sighting} (h : Sighting.finalised ∉ seen) : Fair seen := by
  rintro front rest rfl
  exact absurd (List.mem_append_right front List.mem_cons_self) h

theorem Fair.append {seen more : List Sighting} (h : Fair seen) (hmore : Fair more) : Fair (seen ++ more) := by
  intro front rest heq
  rcases List.append_eq_append_iff.mp heq with ⟨middle, rfl, hrest⟩ | ⟨middle, rfl, hrest⟩
  · obtain ⟨sending, hsending, hfaithful⟩ := hmore middle rest hrest
    refine ⟨sending, ?_, hfaithful⟩
    rw [sendingOf_append]
    exact foldl_step hsending _
  · cases middle with
    | nil =>
      obtain ⟨sending, hsending, -⟩ := hmore [] rest hrest.symm
      cases hsending
    | cons item middle =>
      rw [List.cons_append, List.cons.injEq] at hrest
      obtain ⟨rfl, -⟩ := hrest
      exact h front middle rfl

/-- An upload that is finalised at the end. -/
theorem fair_snoc {seen : List Sighting} {sending : Sending} (h : Sighting.finalised ∉ seen) (hsending : sendingOf seen = some sending)
    (hfaithful : sending.Faithful) : Fair (seen ++ [.finalised]) := by
  intro front rest heq
  rcases List.eq_nil_or_concat rest with rfl | ⟨init, last, rfl⟩
  · obtain ⟨rfl, -⟩ := List.append_inj' heq rfl
    exact ⟨sending, hsending, hfaithful⟩
  · rw [List.concat_eq_append, ← List.cons_append, ← List.append_assoc] at heq
    obtain ⟨rfl, -⟩ := List.append_inj' heq rfl
    exact absurd (List.mem_append_right front List.mem_cons_self) h

/-- A whole upload of a payload. -/
theorem fair_upload (minimum : Option Nat) (chunks : List Bytes) :
    Fair (.opened minimum :: .delivered chunks :: chunks.map .patched ++ [.finalised]) := by
  obtain ⟨sending, hsending, hfaithful⟩ := step_part (rfl : sendingOf [.opened minimum] = some ⟨minimum, [], []⟩) rfl chunks
  exact fair_snoc (by simp) hsending hfaithful

namespace Desk

/-- A program that leaves the memory alone and finalises only what it sent as delivered. -/
def Fairly (P : Platform) {α : Type} (program : Action α) : Prop :=
  ∀ desk, program.Ensures (env P) (fun _ _ => True) desk fun _ desk' => ∃ extra, Fair extra ∧
    desk' = { desk with seen := desk.seen ++ extra }

theorem fair_nil : Fair [] := fair_of_not_mem (by simp)

theorem compositional_fairly (P : Platform) : Compositional fun _ program => Fairly P program where
  aside h desk := by
    refine (extends_ensures h (fun _ hop => hop.2) (fun _ hop answer => observe_aside hop answer) desk).mono ?_
    rintro outcome desk' ⟨extra, hextra, rfl⟩
    refine ⟨extra, fair_of_not_mem fun hmem => ?_, rfl⟩
    rcases hextra _ hmem with ⟨chunks, heq⟩ | ⟨reading, heq⟩ <;> cases heq
  handle h hnext desk := by
    refine (h desk).handle ?_
    rintro outcome desk₁ ⟨extra, hextra, rfl⟩
    refine (hnext outcome _).mono ?_
    rintro outcome desk₂ ⟨more, hmore, rfl⟩
    exact ⟨extra ++ more, hextra.append hmore, by simp⟩

section Put

variable {adapter : OciDistributionAdapter}

/-- A small blob is uploaded without a PATCH. -/
theorem fairly_uploadBlobBytes (value : Bytes) (mediaType : String) :
    Fairly P (adapter.transport.uploadBlobBytes P value mediaType) := by
  intro desk
  unfold RegistryHttpClient.uploadBlobBytes
  dsimp only
  refine (reads_ensures (reads_headBlob P adapter.transport _) desk).bind ?_ ?_
  · rintro existing desk₁ rfl
    cases existing with
    | some existing =>
      dsimp only
      split
      · exact ⟨[], fair_nil, by simp⟩
      · exact Prog.ensures_ofExcept.mpr ⟨[], fair_nil, by simp⟩
    | none =>
      refine (startUpload_desk desk₁).bind ?_ ?_
      · rintro upload desk₂ ⟨minimum, rfl, -⟩
        have hopened : Fair [.opened minimum] := fair_of_not_mem (by simp)
        have hput : Fair ([.opened minimum] ++ [.finalised]) :=
        fair_snoc (by simp) (rfl : sendingOf [.opened minimum] = some ⟨minimum, [], []⟩) rfl
        refine Prog.Ensures.bind (R := fun _ desk' => ∃ extra, Fair extra ∧
          desk' = { desk₁ with seen := desk₁.seen ++ extra }) ?_ ?_ fun _ _ h => h
        · refine (request_desk _ _ _ (fun response => ?_) _).handle ?_
          · split <;> trivial
          · rintro outcome desk₃ h
            have hsent : ∃ extra, Fair extra ∧ desk₃ = { desk₁ with seen := desk₁.seen ++ extra } := by
              rcases h with ⟨rfl, -⟩ | ⟨answer, rfl⟩
              · exact ⟨_, hopened, rfl⟩
              · exact ⟨_, hput, by simp [observe, Request.putUpload]⟩
            cases outcome with
            | ok done => exact hsent
            | error error =>
              refine (abortSafely_desk upload desk₃).bind ?_ ?_
              · rintro _ desk₄ rfl
                exact hsent
              · rintro error' desk₄ rfl
                exact hsent
        · exact fun _ desk₃ h => Prog.ensures_ofExcept.mpr h
      · rintro error desk₂ ⟨minimum, rfl, -⟩
        exact ⟨_, fair_of_not_mem (by simp), rfl⟩
  · rintro error desk₁ rfl
    exact ⟨[], fair_nil, by simp⟩

theorem abandon_desk {α : Type} (upload : Option UploadLocation) (error : Err) (desk : Desk) :
    (adapter.abandon P upload error : Action α).Ensures (env P) (fun _ _ => True) desk fun outcome desk' =>
      desk' = desk ∧ ∃ error, outcome = .error error := by
  cases upload with
  | none => exact ⟨rfl, error, rfl⟩
  | some location =>
    refine (abortSafely_desk location desk).bind ?_ ?_
    · rintro _ desk' rfl
      exact ⟨rfl, error, rfl⟩
    · rintro error' desk' rfl
      exact ⟨rfl, error', rfl⟩

/-- Abandoning an upload adds nothing to what its action showed. -/
theorem orAbandon_desk {α : Type} (upload : Option UploadLocation) {action : Action α} {desk : Desk}
    {Q : Except Err α → Desk → Prop} (h : action.Ensures (env P) (fun _ _ => True) desk Q)
    (herror : ∀ error error' desk', Q (.error error) desk' → Q (.error error') desk') :
    (adapter.orAbandon P upload action).Ensures (env P) (fun _ _ => True) desk Q := by
  refine h.handle ?_
  rintro (error | value) desk₁ hq
  · refine (abandon_desk upload error desk₁).mono ?_
    rintro _ desk₂ ⟨rfl, error', rfl⟩
    exact herror error error' _ hq
  · exact hq

/-- The chunk loop sends the chunks in order; if it returns, it sent them all. -/
theorem sendChunks_desk (payload : PayloadReference) (chunks : List Bytes) (upload : Option UploadLocation)
    (hashed : Bytes) (length : Nat) (desk : Desk) :
    (adapter.sendChunks P payload chunks upload hashed length).Ensures (env P) (fun _ _ => True) desk
      fun outcome desk' => ∃ sent : List Bytes, desk' = { desk with seen := desk.seen ++ sent.map .patched } ∧
        ∀ result, outcome = .ok result → result.1.isSome = upload.isSome ∧ (upload.isSome = true → sent = chunks) := by
  induction chunks generalizing upload hashed length desk with
  | nil =>
    refine ⟨[], by simp, ?_⟩
    rintro _ ⟨⟩
    exact ⟨rfl, fun _ => rfl⟩
  | cons chunk rest ih =>
    have habandon : ∀ error : Err, (adapter.abandon P upload error :
        Action (Option UploadLocation × Bytes × Nat)).Ensures (env P) (fun _ _ => True) desk fun outcome desk' =>
          ∃ sent : List Bytes, desk' = { desk with seen := desk.seen ++ sent.map .patched } ∧
            ∀ result, outcome = .ok result → result.1.isSome = upload.isSome ∧
              (upload.isSome = true → sent = chunk :: rest) := by
      intro error
      refine (abandon_desk upload error desk).mono ?_
      rintro _ desk' ⟨rfl, error', rfl⟩
      exact ⟨[], by simp, by rintro _ ⟨⟩⟩
    unfold OciDistributionAdapter.sendChunks
    dsimp only
    split
    · exact habandon _
    split
    · exact habandon _
    cases upload with
    | none =>
      refine (ih none _ _ desk).mono ?_
      rintro outcome desk' ⟨sent, rfl, hok⟩
      refine ⟨sent, rfl, fun result heq => ⟨(hok result heq).1, ?_⟩⟩
      rintro ⟨⟩
    | some location =>
      dsimp only
      refine (orAbandon_desk (some location) (patchUpload_desk location chunk desk) ?_).bind ?_ ?_
      · rintro error error' desk' (⟨rfl, -⟩ | rfl)
        · exact .inl ⟨rfl, error', rfl⟩
        · exact .inr rfl
      · rintro next desk₁ (⟨-, error, heq⟩ | rfl)
        · cases heq
        refine (ih (some next) _ _ _).mono ?_
        rintro outcome desk' ⟨sent, rfl, hok⟩
        refine ⟨chunk :: sent, by simp, fun result heq => ?_⟩
        obtain ⟨hsome, hall⟩ := hok result heq
        exact ⟨hsome, fun _ => by rw [hall rfl]⟩
      · rintro error desk₁ (⟨rfl, -⟩ | rfl)
        · exact ⟨[], by simp, by rintro _ ⟨⟩⟩
        · exact ⟨[chunk], by simp, by rintro _ ⟨⟩⟩

/-- What is shown once the upload of an attempt, if it has one, is open. -/
def Transferred (upload : Option UploadLocation) (extra : List Sighting) : Prop :=
  Sighting.finalised ∉ extra ∨ (upload.isSome = true ∧
    ∃ chunks : List Bytes, extra = .delivered chunks :: chunks.map .patched ++ [.finalised])

theorem transferTo_desk (payload : PayloadReference) (existing : Option (OciDescriptor P))
    (upload : Option UploadLocation) (hsome : existing.isSome = upload.isNone) (desk : Desk) :
    (adapter.transferTo P payload existing upload).Ensures (env P) (fun _ _ => True) desk fun _ desk' =>
      ∃ extra, Transferred upload extra ∧ desk' = { desk with seen := desk.seen ++ extra } := by
  have hopen : (adapter.orAbandon P upload (Action.openPayload payload adapter.binding.chunkSize)).Ensures (env P)
      (fun _ _ => True) desk fun outcome desk' =>
        (∃ extra, Sighting.finalised ∉ extra ∧ desk' = { desk with seen := desk.seen ++ extra }) ∧
          ∀ stream, outcome = .ok stream → desk' = { desk with seen := desk.seen ++ [.delivered stream.chunks] } := by
    refine orAbandon_desk upload (Prog.Ensures.perform fun answer desk' henv => ⟨trivial, ?_⟩) ?_
    · cases answer with
      | error error => exact ⟨⟨[], by simp, henv⟩, by rintro _ ⟨⟩⟩
      | ok stream =>
        refine ⟨⟨[.delivered stream.chunks], by simp, henv⟩, ?_⟩
        rintro _ ⟨⟩
        exact henv
    · rintro error error' desk' ⟨hextra, -⟩
      exact ⟨hextra, by rintro _ ⟨⟩⟩
  refine hopen.bind ?_ ?_
  · rintro stream desk₁ ⟨-, hstream⟩
    obtain rfl := hstream stream rfl
    refine (sendChunks_desk payload stream.chunks upload [] 0 _).bind ?_ ?_
    · rintro ⟨upload', hashed, length⟩ desk₂ ⟨sent, rfl, hok⟩
      obtain ⟨hsome', hall⟩ := hok _ rfl
      dsimp only at hsome' ⊢
      -- nothing was finalised so far
      have hopen' : ∃ extra, Transferred upload extra ∧ (⟨desk.memory, desk.seen ++ [.delivered stream.chunks] ++
          sent.map .patched⟩ : Desk) = { desk with seen := desk.seen ++ extra } :=
        ⟨.delivered stream.chunks :: sent.map .patched, .inl (by simp), by simp⟩
      have habandon : ∀ error : Err, (adapter.abandon P upload' error : Action ContentIdentity).Ensures (env P)
          (fun _ _ => True) ⟨desk.memory, desk.seen ++ [.delivered stream.chunks] ++ sent.map .patched⟩
          fun _ desk' => ∃ extra, Transferred upload extra ∧ desk' = { desk with seen := desk.seen ++ extra } := by
        intro error
        refine (abandon_desk upload' error _).mono ?_
        rintro _ desk' ⟨rfl, -⟩
        exact hopen'
      cases stream.failure with
      | some failure => exact habandon failure
      | none =>
        dsimp only
        refine (orAbandon_desk (Q := fun _ desk' => desk' = ⟨desk.memory, desk.seen ++ [.delivered stream.chunks] ++
          sent.map .patched⟩) upload' (Prog.ensures_ofExcept.mpr rfl) fun _ _ _ h => h).bind ?_ ?_
        · rintro _ desk₃ rfl
          cases existing with
          | some existing =>
            dsimp only
            split
            · exact habandon _
            · exact hopen'
          | none =>
            cases upload' with
            | none => exact hopen'
            | some location =>
              dsimp only
              refine (orAbandon_desk (some location) (finishUpload_desk location _ _) fun _ _ _ h => h).bind ?_ ?_
              all_goals
                rintro _ desk₄ (rfl | rfl)
                · exact hopen'
                · refine ⟨.delivered stream.chunks :: stream.chunks.map .patched ++ [.finalised], .inr ⟨?_, _, rfl⟩, ?_⟩
                  · exact hsome'.symm
                  · rw [hall hsome'.symm]
                    simp
        · rintro error desk₃ rfl
          exact hopen'
    · rintro error desk₂ ⟨sent, rfl, -⟩
      exact ⟨.delivered stream.chunks :: sent.map .patched, .inl (by simp), by simp⟩
  · rintro error desk₁ ⟨⟨extra, hextra, rfl⟩, -⟩
    exact ⟨extra, .inl hextra, rfl⟩

theorem fairly_transfer (payload : PayloadReference) (existing : Option (OciDescriptor P)) :
    Fairly P (adapter.transfer P payload existing) := by
  intro desk
  cases existing with
  | some existing =>
    refine (transferTo_desk payload (some existing) none rfl desk).mono ?_
    rintro outcome desk' ⟨extra, hextra | ⟨hnone, -⟩, rfl⟩
    · exact ⟨extra, fair_of_not_mem hextra, rfl⟩
    · cases hnone
  | none =>
    refine (startUpload_desk desk).bind ?_ ?_
    · rintro upload desk₁ ⟨minimum, rfl, -⟩
      refine (transferTo_desk payload none (some upload) rfl _).mono ?_
      rintro outcome desk' ⟨extra, hextra | ⟨-, chunks, rfl⟩, rfl⟩
      · exact ⟨.opened minimum :: extra, fair_of_not_mem (by simpa using hextra), by simp⟩
      · exact ⟨_, fair_upload minimum chunks, by simp⟩
    · rintro error desk₁ ⟨minimum, rfl, -⟩
      exact ⟨_, fair_of_not_mem (by simp), rfl⟩

theorem fairly_uploadAttempt (payload : PayloadReference) (left : Nat) :
    Fairly P (adapter.uploadAttempt P payload left) :=
  (compositional_fairly P).uploadAttempt (fairly_transfer payload) left

/-- A call of the data plane finalises only uploads that got what was delivered. -/
theorem fairly_execute (operation : Operation) : Fairly P (adapter.execute P operation) :=
  ((compositional_fairly P).sequential P).execute fairly_uploadBlobBytes (fun payload => fairly_uploadAttempt payload _) operation

end Put

end Desk

end MeridianOci.Service
