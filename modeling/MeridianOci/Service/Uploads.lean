import MeridianOci.Service.Lookup

/-!
# Streaming a payload

`_upload_payload`: the chunks of a payload are hashed and appended to an upload that the
digest PUT turns into a blob. An attempt that fails is abandoned; without faults nothing
is left of it.
-/
namespace MeridianOci.Service

open MeridianOci.Data MeridianOci.Effect MeridianOci.Model

set_option autoImplicit false

variable {P : Platform} {adapter : OciDistributionAdapter}
variable {setting : Setting P adapter.transport.binding}

/-- Besides an upload that holds `content`, nothing differs from `first`. -/
structure Uploading (first w : World setting.policy) (url : String) (content : Bytes) : Prop where
  blobs : w.registry.blobs = first.registry.blobs
  manifests : w.registry.manifests = first.registry.manifests
  tags : w.registry.tags = first.registry.tags
  uploads : w.registry.uploads = first.registry.uploads.insert url content
  fresh : first.registry.uploads[url]? = none
  memory : w.memory = first.memory
  now : w.now = first.now
  payloads : w.payloads = first.payloads

/-- How far an attempt got: what was hashed so far is in its upload, if it has one. -/
def Progress (first w : World setting.policy) (upload : Option UploadLocation) (hashed : Bytes) : Prop :=
  match upload with
  | none => w = first
  | some location => Uploading first w location.url hashed ∧ location.offset = hashed.length

/-- What is known after a request of an attempt failed. -/
def Shaken (first w : World setting.policy) (upload : Option UploadLocation) (hashed : Bytes) : Prop :=
  first.Silent w ∧ (¬setting.faults → Progress first w upload hashed)

/-- What is known after an attempt was abandoned. -/
def Restored (first w : World setting.policy) : Prop :=
  first.Silent w ∧ (¬setting.faults → first.Agrees w)

namespace Uploading

variable {first w : World setting.policy} {url : String} {content : Bytes}

theorem silent (h : Uploading first w url content) : first.Silent w :=
  ⟨⟨h.manifests, h.tags, fun digest body hblob => by rwa [h.blobs]⟩, h.memory, h.now, h.payloads⟩

theorem get?_uploads (h : Uploading first w url content) : w.registry.uploads[url]? = some content := by
  rw [h.uploads, Table.get?_insert, if_pos rfl]

theorem start (first : World setting.policy) :
    Uploading first (first.apply .startUpload)
      (setting.policy.uploadUrl first.registry.issued) [] :=
  ⟨rfl, rfl, rfl, rfl, first.registry.uploads_fresh, rfl, rfl, rfl⟩

theorem patch (h : Uploading first w url content) (chunk : Bytes) :
    Uploading first { w with registry := w.registry.setUpload url (content ++ chunk) } url
      (content ++ chunk) := by
  have hissued : (w.registry.uploads[url]?).isSome := by
    rw [h.get?_uploads]
    rfl
  simp only [Registry.setUpload, dif_pos hissued]
  refine ⟨h.blobs, h.manifests, h.tags, ?_, h.fresh, h.memory, h.now, h.payloads⟩
  simp only [h.uploads, Table.insert_insert]

/-- Dropping the upload restores the world. -/
theorem drop (h : Uploading first w url content) : first.Agrees (w.apply (.deleteUpload url)) := by
  have hdrop : w.apply (.deleteUpload url) = { w with registry := w.registry.dropUpload url } := by
    have happly : w.apply (.deleteUpload url) =
        { w with registry := (respond w.registry (.deleteUpload url)).2 } := rfl
    rw [happly, w.respond_deleteUpload, h.get?_uploads]
  rw [hdrop]
  refine ⟨⟨h.blobs, h.manifests, h.tags, ?_⟩, h.memory, h.now, h.payloads⟩
  simp only [Registry.dropUpload, h.uploads, Table.erase_insert h.fresh]

/-- The digest PUT leaves the content as a blob and nothing else. -/
theorem finish (h : Uploading first w url content) :
    World.Stores content first { w with registry := (w.registry.addBlob content).dropUpload url } := by
  refine ⟨?_, h.manifests, h.tags, ?_, h.memory, h.now, h.payloads⟩
  · simp only [Registry.dropUpload, Registry.addBlob, h.blobs]
  · simp only [Registry.dropUpload, Registry.addBlob, h.uploads, Table.erase_insert h.fresh]

end Uploading

theorem Progress.shaken {first w : World setting.policy} {upload : Option UploadLocation} {hashed : Bytes}
    (h : Progress first w upload hashed) : Shaken first w upload hashed := by
  refine ⟨?_, fun _ => h⟩
  cases upload with
  | none =>
    obtain rfl := h
    exact .refl _
  | some location => exact h.1.silent

/-- Why the chunks of a payload may not all be sent. -/
def Unsendable (adapter : OciDistributionAdapter) (payload : PayloadReference) (chunks : List Bytes)
    (content : Bytes) : Prop :=
  adapter.binding.maxObjectBytes < content.length ∨
    (∃ length, payload.expectedLength = some length ∧ length < content.length) ∨ [] ∈ chunks

/-- Some opening of the payload delivers exactly `content`. -/
def Delivers (setting : Setting P adapter.transport.binding) (payload : PayloadReference)
    (content : Bytes) : Prop :=
  ∃ stream, setting.streams payload adapter.binding.chunkSize (.ok stream) ∧ stream.failure = none ∧
    stream.chunks.flatten = content

/-- Every opening delivers `content`, within the limits and as it was declared. -/
structure Deliverable (setting : Setting P adapter.transport.binding) (payload : PayloadReference)
    (content : Bytes) : Prop where
  streams : ∀ answer, setting.streams payload adapter.binding.chunkSize answer →
    ∃ stream, answer = .ok stream ∧ stream.failure = none ∧ [] ∉ stream.chunks ∧
      stream.chunks.flatten = content
  short : content.length ≤ adapter.binding.maxObjectBytes
  length : payload.expectedLength.getD content.length = content.length
  digest : payload.expectedDigest.getD (sha256Digest P content) = sha256Digest P content

theorem Deliverable.sendable {payload : PayloadReference} {content : Bytes}
    (h : Deliverable setting payload content) {stream : Stream} (hempty : [] ∉ stream.chunks)
    (hcontent : stream.chunks.flatten = content) :
    ¬Unsendable adapter payload stream.chunks stream.chunks.flatten := by
  rw [hcontent]
  rintro (hlong | ⟨length, hexpected, hlt⟩ | hmem)
  · exact absurd h.short (Nat.not_le.mpr hlong)
  · have hlength := h.length
    rw [hexpected, Option.getD_some] at hlength
    omega
  · exact hempty hmem

theorem Deliverable.verified {payload : PayloadReference} {content : Bytes}
    (h : Deliverable setting payload content) :
    verifyIdentity payload ⟨sha256Digest P content, content.length⟩ = .ok () := by
  rw [verifyIdentity]
  simp only [h.length, h.digest, ne_eq, not_true_eq_false, if_false]

theorem verifyIdentity_digest {payload : PayloadReference} {identity : ContentIdentity}
    (h : verifyIdentity payload identity = .ok ()) {digest : String}
    (hexpected : payload.expectedDigest = some digest) : digest = identity.digest := by
  unfold verifyIdentity at h
  split_ifs at h with hlength hdigest
  rw [hexpected, Option.getD_some] at hdigest
  exact not_not.mp hdigest

section Attempts

variable (laws : P.Lawful) {G : World setting.policy → World setting.policy → Prop} (hG : Quiet G)

include laws hG

/-- Abandoning an attempt raises, and without faults restores the world. -/
theorem abandon_ensures {α : Type} {first w : World setting.policy} {upload : Option UploadLocation}
    {hashed : Bytes} (h : Shaken first w upload hashed) (error : Err) :
    (adapter.abandon P upload error : Action α).Ensures setting.env G w fun outcome w' =>
      outcome = .error error ∧ Restored first w' := by
  cases upload with
  | none =>
    refine ⟨rfl, h.1, fun hfaults => ?_⟩
    rw [h.2 hfaults]
    exact .refl _
  | some location =>
    refine (abortSafely_ensures laws hG w location).bind ?_ ?_
    · rintro _ w' ⟨-, hw', hdone⟩
      refine ⟨rfl, ?_, fun hfaults => ?_⟩
      · rcases hw' with rfl | rfl
        · exact h.1
        · exact h.1.trans (World.silent_apply laws _ rfl)
      · rw [hdone.resolve_left hfaults]
        exact (h.2 hfaults).1.drop
    · rintro _ w' ⟨hok, -⟩
      cases hok

/-- A part of an attempt that abandons it when it raises. -/
theorem orAbandon_ensures {α : Type} (first : World setting.policy) {w : World setting.policy}
    {upload : Option UploadLocation} (hashed : Bytes) {action : Action α} {R : Except Err α → World setting.policy → Prop}
    (h : action.Ensures setting.env G w R)
    (hshaken : ∀ error w', R (.error error) w' → Shaken first w' upload hashed) :
    (adapter.orAbandon P upload action).Ensures setting.env G w fun outcome w' =>
      match outcome with
      | .ok value => R (.ok value) w'
      | .error error => Restored first w' ∧ ∃ w₁, R (.error error) w₁ := by
  refine Prog.Ensures.handle h ?_
  rintro (error | value) w₁ h
  · refine (abandon_ensures laws hG (hshaken error w₁ h) error).mono ?_
    rintro _ w' ⟨rfl, hrestored⟩
    exact ⟨hrestored, w₁, h⟩
  · exact h

/-- Every chunk goes to the hash and to the upload. -/
theorem sendChunks_ensures {first : World setting.policy} (payload : PayloadReference)
    (chunks : List Bytes) {w : World setting.policy} {upload : Option UploadLocation} {hashed : Bytes}
    (h : Progress first w upload hashed) :
    (adapter.sendChunks P payload chunks upload hashed hashed.length).Ensures setting.env G w
      fun outcome w' =>
        match outcome with
        | .ok (upload', hashed', length) => Progress first w' upload' hashed' ∧
            hashed' = hashed ++ chunks.flatten ∧ length = hashed'.length ∧
            upload'.isSome = upload.isSome
        | .error _ => Restored first w' ∧
            (setting.faults ∨ Unsendable adapter payload chunks (hashed ++ chunks.flatten)) := by
  induction chunks generalizing w upload hashed with
  | nil => exact ⟨h, by simp, rfl, rfl⟩
  | cons chunk rest ih =>
    have hlength : hashed.length + chunk.length = (hashed ++ chunk).length := by rw [List.length_append]
    have hle : (hashed ++ chunk).length ≤ (hashed ++ (chunk :: rest).flatten).length := by
      simp only [List.flatten_cons, List.length_append]
      omega
    have hflatten : hashed ++ chunk ++ rest.flatten = hashed ++ (chunk :: rest).flatten := by
      rw [List.flatten_cons, List.append_assoc]
    have hrest : ∀ content, Unsendable adapter payload rest content →
        Unsendable adapter payload (chunk :: rest) content := fun content hwhy =>
      hwhy.imp_right fun hwhy => hwhy.imp_right fun hmem => List.mem_cons_of_mem _ hmem
    simp only [OciDistributionAdapter.sendChunks, hlength]
    split
    · rename_i hlong
      refine (abandon_ensures laws hG h.shaken _).mono ?_
      rintro _ w' ⟨rfl, hrestored⟩
      exact ⟨hrestored, .inr (.inl (lt_of_lt_of_le hlong hle))⟩
    · split
      · rename_i hdeclared
        refine (abandon_ensures laws hG h.shaken _).mono ?_
        rintro _ w' ⟨rfl, hrestored⟩
        refine ⟨hrestored, .inr (.inr (.inl ?_))⟩
        cases hexpected : payload.expectedLength with
        | none => simp [hexpected] at hdeclared
        | some length =>
          rw [hexpected, Option.getD_some] at hdeclared
          exact ⟨length, rfl, lt_of_lt_of_le hdeclared hle⟩
      · cases upload with
        | none =>
          obtain rfl := h
          refine (@ih w none (hashed ++ chunk) rfl).mono ?_
          rintro (error | ⟨upload', hashed', length⟩) w' h'
          · rw [hflatten] at h'
            exact ⟨h'.1, h'.2.imp_right (hrest _)⟩
          · rw [hflatten] at h'
            exact h'
        | some location =>
          obtain ⟨huploading, hoffset⟩ := h
          have hpatch : (adapter.transport.patchUpload P location chunk).Ensures setting.env G w
              (Prog.Exits (fun _ w' => Shaken first w' (some location) hashed ∧ (setting.faults ∨ chunk = []))
                fun next w' => Progress first w' (some next) (hashed ++ chunk)) := by
            refine (patchUpload_ensures laws hG w location chunk).mono ?_
            rintro (error | next) w' h
            · obtain ⟨hw', hwhy⟩ := h
              have hreason : setting.faults ∨ chunk = [] := by
                rcases hwhy with hfaults | hempty | hbad
                · exact .inl hfaults
                · exact .inr hempty
                · exact absurd hoffset.symm (hbad _ huploading.get?_uploads)
              refine ⟨⟨?_, fun hfaults => ?_⟩, hreason⟩
              · rcases hw' with rfl | ⟨-, rfl⟩
                · exact huploading.silent
                · exact huploading.silent.trans (World.silent_apply laws _ rfl)
              · rcases hw' with rfl | ⟨hne, -⟩
                · exact ⟨huploading, hoffset⟩
                · exact absurd (hreason.resolve_left hfaults) hne
            · obtain ⟨received, hreceived, -, rfl, hurl, hnext, -⟩ := h
              obtain rfl := Option.some.inj (huploading.get?_uploads.symm.trans hreceived)
              refine ⟨?_, ?_⟩
              · rw [hurl]
                exact huploading.patch chunk
              · rw [hnext, hoffset, List.length_append]
          refine (orAbandon_ensures laws hG first hashed hpatch fun _ _ h => h.1).bind ?_ ?_
          · intro next w' (hprogress : Progress first w' (some next) (hashed ++ chunk))
            refine (ih hprogress).mono ?_
            rintro (error | ⟨upload', hashed', length⟩) w'' h'
            · rw [hflatten] at h'
              exact ⟨h'.1, h'.2.imp_right (hrest _)⟩
            · rw [hflatten] at h'
              exact h'
          · rintro error w' ⟨hrestored, -, -, hwhy⟩
            refine ⟨hrestored, hwhy.imp_right fun hempty => .inr (.inr ?_)⟩
            rw [hempty]
            exact List.mem_cons_self

/-- The blob that an attempt relies on when it does not upload. -/
def Existing (first : World setting.policy) (payload : PayloadReference)
    (existing : Option (OciDescriptor P)) : Prop :=
  ∀ descriptor, existing = some descriptor → ∃ digest body, payload.expectedDigest = some digest ∧
    first.registry.blobs[digest]? = some body ∧ descriptor.size = body.length

/-- An attempt that returns has stored what the payload delivered. -/
theorem transferTo_ensures {first w : World setting.policy} (payload : PayloadReference)
    {existing : Option (OciDescriptor P)} {upload : Option UploadLocation}
    (hexisting : Existing first payload existing) (hside : existing.isSome = !upload.isSome)
    (h : Progress first w upload []) :
    (adapter.transferTo P payload existing upload).Ensures setting.env G w fun outcome w' =>
      match outcome with
      | .ok identity => ∃ content, Delivers setting payload content ∧
          identity = ⟨sha256Digest P content, content.length⟩ ∧ World.Stores content first w'
      | .error _ => Restored first w' ∧
          (setting.faults ∨ ∀ content, ¬Deliverable setting payload content) := by
  have hopen : (Action.openPayload payload adapter.binding.chunkSize).Ensures setting.env G w
      fun outcome w' => w' = w ∧ setting.streams payload adapter.binding.chunkSize outcome :=
    Prog.Ensures.perform fun answer w' hanswer => by
      obtain ⟨hstream, rfl⟩ := hanswer
      exact ⟨hG.refl _, rfl, hstream⟩
  refine (orAbandon_ensures laws hG first [] hopen fun _ _ hw => by
    obtain ⟨rfl, -⟩ := hw
    exact h.shaken).bind ?_ ?_
  · rintro stream w ⟨rfl, hstream⟩
    have hchunks := sendChunks_ensures laws hG payload stream.chunks h
    rw [List.length_nil, List.nil_append] at hchunks
    refine hchunks.bind ?_ ?_
    · rintro ⟨upload', hashed, length⟩ w₁ ⟨hprogress, rfl, rfl, hsome⟩
      -- a failure of the stream is no failure of a payload that can be delivered
      have hbroken : ∀ failure, stream.failure = some failure →
          ∀ content, ¬Deliverable setting payload content := by
        intro failure hfailure content hdeliverable
        obtain ⟨stream', heq, hnone, -⟩ := hdeliverable.streams _ hstream
        obtain rfl := Except.ok.inj heq
        rw [hfailure] at hnone
        cases hnone
      cases hfailure : stream.failure with
      | some failure =>
        simp only
        refine (abandon_ensures laws hG hprogress.shaken failure).mono ?_
        rintro _ w' ⟨rfl, hrestored⟩
        exact ⟨hrestored, .inr (hbroken failure hfailure)⟩
      | none =>
        simp only
        have hunverified : ∀ error, verifyIdentity payload
            ⟨sha256Digest P stream.chunks.flatten, stream.chunks.flatten.length⟩ = .error error →
            ∀ content, ¬Deliverable setting payload content := by
          intro error herror content hdeliverable
          obtain ⟨stream', heq, -, -, hcontent⟩ := hdeliverable.streams _ hstream
          obtain rfl := Except.ok.inj heq
          rw [hcontent, hdeliverable.verified] at herror
          cases herror
        have hverify : (Action.lift (verifyIdentity payload
            ⟨sha256Digest P stream.chunks.flatten, stream.chunks.flatten.length⟩)).Ensures setting.env G w₁
            fun outcome w' => w' = w₁ ∧ outcome = verifyIdentity payload
              ⟨sha256Digest P stream.chunks.flatten, stream.chunks.flatten.length⟩ :=
          Prog.ensures_ofExcept.mpr ⟨rfl, rfl⟩
        refine (orAbandon_ensures laws hG first stream.chunks.flatten hverify fun _ _ hw => by
          obtain ⟨rfl, -⟩ := hw
          exact hprogress.shaken).bind ?_ ?_
        · rintro _ w₂ ⟨rfl, hok⟩
          have hdelivers : Delivers setting payload stream.chunks.flatten :=
            ⟨stream, hstream, hfailure, rfl⟩
          cases existing with
          | some descriptor =>
            obtain rfl : upload' = none := by
              cases upload' with
              | none => rfl
              | some location => simp [← hsome] at hside
            obtain rfl := hprogress
            obtain ⟨digest, body, hexpected, hblob, hsize⟩ := hexisting descriptor rfl
            have hdigest := verifyIdentity_digest hok.symm hexpected
            obtain rfl : body = stream.chunks.flatten := sha256Digest_injective laws
              ((w₂.registry.blobs_addressed _ _ hblob).trans hdigest)
            simp only [hsize, ne_eq, not_true_eq_false, if_false]
            refine ⟨_, hdelivers, rfl, ?_, rfl, rfl, rfl, rfl, rfl, rfl⟩
            rw [hdigest] at hblob
            exact (Table.insert_self hblob).symm
          | none =>
            cases upload' with
            | none => simp [← hsome] at hside
            | some location =>
              obtain ⟨huploading, hoffset⟩ := hprogress
              refine (orAbandon_ensures laws hG first stream.chunks.flatten (finishUpload_ensures laws hG w₂ location
                (sha256Digest P stream.chunks.flatten)) ?_).bind ?_ ?_
              · rintro error w' ⟨hw', hwhy⟩
                have hfaults := hwhy.resolve_right fun h => h _ huploading.get?_uploads rfl
                refine ⟨?_, fun hnot => absurd hfaults hnot⟩
                rcases hw' with rfl | rfl
                · exact huploading.silent
                · exact huploading.silent.trans (World.silent_apply laws _ rfl)
              · rintro descriptor w' ⟨received, hreceived, -, rfl⟩
                obtain rfl := Option.some.inj (huploading.get?_uploads.symm.trans hreceived)
                exact ⟨_, hdelivers, rfl, huploading.finish⟩
              · rintro error w' ⟨hrestored, w₃, -, hwhy⟩
                exact ⟨hrestored, .inl (hwhy.resolve_right fun h => h _ huploading.get?_uploads rfl)⟩
        · rintro error w' ⟨hrestored, w₂, -, herror⟩
          exact ⟨hrestored, .inr (hunverified error herror.symm)⟩
    · rintro error w' ⟨hrestored, hwhy⟩
      refine ⟨hrestored, hwhy.imp_right fun hunsendable content hdeliverable => ?_⟩
      obtain ⟨stream', heq, -, hempty, hcontent⟩ := hdeliverable.streams _ hstream
      obtain rfl := Except.ok.inj heq
      exact hdeliverable.sendable hempty hcontent hunsendable
  · rintro error w' ⟨hrestored, w₁, -, hstream⟩
    refine ⟨hrestored, .inr fun content hdeliverable => ?_⟩
    obtain ⟨stream, heq, -⟩ := hdeliverable.streams _ hstream
    cases heq

theorem transfer_ensures (w : World setting.policy) (payload : PayloadReference)
    {existing : Option (OciDescriptor P)} (hexisting : Existing w payload existing) :
    (adapter.transfer P payload existing).Ensures setting.env G w fun outcome w' =>
      match outcome with
      | .ok identity => ∃ content, Delivers setting payload content ∧
          identity = ⟨sha256Digest P content, content.length⟩ ∧ World.Stores content w w'
      | .error _ => Restored w w' ∧
          (setting.faults ∨ ∀ content, ¬Deliverable setting payload content) := by
  cases existing with
  | some descriptor => exact transferTo_ensures laws hG payload hexisting rfl rfl
  | none =>
    refine (startUpload_ensures laws hG w).bind ?_ ?_
    · rintro upload w₁ ⟨rfl, hurl, hoffset⟩
      refine transferTo_ensures laws hG payload hexisting rfl ⟨?_, hoffset⟩
      rw [hurl]
      exact .start w
    · rintro error w' ⟨hw', hfaults⟩
      refine ⟨⟨?_, fun hnot => absurd hfaults hnot⟩, .inl hfaults⟩
      rcases hw' with rfl | rfl
      · exact .refl _
      · exact World.silent_apply laws _ rfl

/-- The content of the payload is a blob afterwards; without faults nothing else differs. -/
theorem uploadPayload_ensures (w : World setting.policy) (payload : PayloadReference) :
    (adapter.uploadPayload P payload).Ensures setting.env G w fun outcome w' =>
      match outcome with
      | .ok identity => ∃ content, Delivers setting payload content ∧
          identity = ⟨sha256Digest P content, content.length⟩ ∧
          w'.registry.blobs[sha256Digest P content]? = some content ∧ w.Silent w' ∧
          (¬setting.faults → World.Stores content w w')
      | .error _ => Restored w w' ∧
          (setting.faults ∨ ∀ content, ¬Deliverable setting payload content) := by
  suffices hgen : ∀ n v, Restored w v → (n = 0 → setting.faults ∨
        ∀ content, ¬Deliverable setting payload content) →
      (adapter.uploadAttempt P payload n).Ensures setting.env G v fun outcome w' =>
        match outcome with
        | .ok identity => ∃ content, Delivers setting payload content ∧
            identity = ⟨sha256Digest P content, content.length⟩ ∧
            w'.registry.blobs[sha256Digest P content]? = some content ∧ w.Silent w' ∧
            (¬setting.faults → World.Stores content w w')
        | .error _ => Restored w w' ∧
            (setting.faults ∨ ∀ content, ¬Deliverable setting payload content) from
    hgen _ w ⟨.refl w, fun _ => .refl w⟩ (by split <;> simp)
  intro n
  induction n with
  | zero => exact fun v hv hwhy => ⟨hv, hwhy rfl⟩
  | succ left ih =>
    intro v hv _
    have hattempt : ∀ existing, Existing v payload existing →
        ((adapter.transfer P payload existing).handle fun
          | .ok identity => Prog.ret identity
          | .error error =>
            if (error.kind = .objectUnavailable ∨ error.kind = .objectRateLimited) ∧ 0 < left then
              adapter.uploadAttempt P payload left
            else .raise error).Ensures setting.env G v fun outcome w' =>
          match outcome with
          | .ok identity => ∃ content, Delivers setting payload content ∧
              identity = ⟨sha256Digest P content, content.length⟩ ∧
              w'.registry.blobs[sha256Digest P content]? = some content ∧ w.Silent w' ∧
              (¬setting.faults → World.Stores content w w')
          | .error _ => Restored w w' ∧
              (setting.faults ∨ ∀ content, ¬Deliverable setting payload content) := by
      intro existing hexisting
      refine (transfer_ensures laws hG v payload hexisting).handle ?_
      rintro (error | identity) w' h
      · obtain ⟨⟨hsilent, hagrees⟩, hwhy⟩ := h
        have hrestored : Restored w w' :=
          ⟨hv.1.trans hsilent, fun hfaults => (hv.2 hfaults).trans (hagrees hfaults)⟩
        simp only
        split
        · exact ih w' hrestored fun _ => hwhy
        · exact ⟨hrestored, hwhy⟩
      · obtain ⟨content, hdelivers, hidentity, hstores⟩ := h
        refine ⟨content, hdelivers, hidentity, ?_, hv.1.trans (hstores.silent laws), fun hfaults => ?_⟩
        · rw [hstores.blobs, Table.get?_insert, if_pos rfl]
        · obtain ⟨⟨hb, hm, ht, hu⟩, hmem, hnow, hpay⟩ := hv.2 hfaults
          exact ⟨by rw [hstores.blobs, hb], hstores.manifests.trans hm, hstores.tags.trans ht,
            hstores.uploads.trans hu, hstores.memory.trans hmem, hstores.now.trans hnow,
            hstores.payloads.trans hpay⟩
    cases hdigest : payload.expectedDigest with
    | none =>
      simp only [OciDistributionAdapter.uploadAttempt, hdigest]
      exact hattempt none fun descriptor hnone => by cases hnone
    | some digest =>
      simp only [OciDistributionAdapter.uploadAttempt, hdigest]
      refine (headBlob_ensures laws setting.reading hG.of_eq v digest).bind ?_ ?_
      · rintro existing v ⟨rfl, hfound⟩
        refine hattempt existing ?_
        rintro descriptor rfl
        obtain ⟨body, hbody, hsize⟩ := hfound
        exact ⟨digest, body, hdigest, hbody, hsize⟩
      · rintro error v ⟨rfl, hfaults⟩
        exact ⟨hv, .inl hfaults⟩

end Attempts

end MeridianOci.Service
