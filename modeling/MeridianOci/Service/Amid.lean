import MeridianOci.Service.Contention
import MeridianOci.Service.Passes

/-!
# Beside others that publish

One process on a repository whose tags are protected, while other processes publish too.
Nobody deletes, so that blobs stay and a tag keeps leading where it leads. A request that
is sent once and returns was carried out, and what it has put there stays.
-/
namespace MeridianOci.Service

open MeridianOci.Data MeridianOci.Effect MeridianOci.Model

set_option autoImplicit false

variable {P : Platform}

/-- Blobs stay, and a tag keeps leading where it leads. -/
structure Registry.Persists {binding : OciDistributionBinding} {policy : Policy P binding}
    (registry registry' : Registry policy) : Prop where
  blobs : ∀ (digest : String) (body : Bytes), registry.blobs[digest]? = some body →
    registry'.blobs[digest]? = some body
  tags : ∀ tag body, registry.tagged tag = some body → registry'.tagged tag = some body

section Persists

variable {binding : OciDistributionBinding} {policy : Policy P binding} {registry registry' : Registry policy}

theorem Registry.Persists.refl (registry : Registry policy) : registry.Persists registry :=
  ⟨fun _ _ h => h, fun _ _ h => h⟩

theorem Registry.Persists.trans {a b c : Registry policy} (hab : a.Persists b) (hbc : b.Persists c) : a.Persists c :=
  ⟨fun digest body h => hbc.blobs digest body (hab.blobs digest body h),
    fun tag body h => hbc.tags tag body (hab.tags tag body h)⟩

theorem Registry.Grows.persists (h : registry.Grows registry') : registry.Persists registry' :=
  ⟨h.blobs, fun _ _ htagged => h.tagged.trans htagged⟩

/-- A manifest that moves no tag. -/
theorem persists_putTag (laws : P.Lawful) (registry : Registry policy) {tag : String} {body : Bytes}
    (hnot : ¬registry.Repoints (.putManifest tag body)) : registry.Persists (registry.putTag tag body) := by
  refine ⟨fun _ _ h => h, fun other found htagged => ?_⟩
  rw [Registry.tagged_putTag laws]
  by_cases heq : tag = other
  · subst heq
    rw [if_pos rfl]
    by_contra hne
    refine hnot ⟨tag, body, _, rfl, (Registry.tagged_eq_some.mp htagged).1, fun hdigest => hne ?_⟩
    rw [sha256Digest_injective laws hdigest]
  · rw [if_neg heq]
    exact htagged

/-- A request that publishes and moves no tag. -/
theorem persists_apply (laws : P.Lawful) (w : World policy) {request : Request}
    (hpublishes : Op.Publishes (.send request)) (hnot : ¬w.registry.Repoints request) :
    w.registry.Persists (w.apply request).registry := by
  rcases hpublishes with hoff | ⟨other, hother, hreads⟩ | ⟨tag, body, hput⟩
  · by_cases hupload : Target.isUpload request.target = true
    · exact (w.silent_apply laws hupload).registry.persists
    · have hsame : (w.apply request).registry = w.registry := by
        have hmanifest := hoff request rfl
        unfold World.apply respond
        cases htarget : request.target with
        | uploads => rw [htarget] at hupload; exact absurd rfl hupload
        | upload url digest => rw [htarget] at hupload; exact absurd rfl hupload
        | manifest reference => exact absurd htarget (hmanifest reference)
        | blob digest => rfl
        | base => dsimp only; split <;> rfl
        | tags limit last => dsimp only; split <;> rfl
        | referrers subjectDigest artifactType => dsimp only; split <;> rfl
      rw [hsame]
      exact .refl _
  · obtain rfl := Op.send.inj hother
    rw [apply_reads hreads]
    exact .refl _
  · obtain rfl := Op.send.inj hput
    rw [World.apply_putManifest]
    exact persists_putTag laws _ hnot

end Persists

/-- Others may add to the repository. -/
def World.Beside {binding : OciDistributionBinding} {policy : Policy P binding} (w w' : World policy) : Prop :=
  w.Apart w' ∧ w.registry.Persists w'.registry

/-- A process on a repository with protected tags, while others add to it. -/
def Setting.amid {binding : OciDistributionBinding} (setting : Setting P binding) :
    Environment Op Op.Res Err (World setting.policy) := (setting.guarded True).beside World.Beside

section Amid

variable {binding : OciDistributionBinding} {setting : Setting P binding} {w w' : World setting.policy}

theorem World.Beside.refl (w : World setting.policy) : w.Beside w := ⟨.refl w, .refl _⟩

theorem World.Beside.trans {w'' : World setting.policy} (h : w.Beside w') (h' : w'.Beside w'') : w.Beside w'' :=
  ⟨h.1.trans h'.1, h.2.trans h'.2⟩

/-- A request that never changes anything moves no tag. -/
theorem not_repoints_of_read {request : Request} (hread : ∀ v : World setting.policy, v.apply request = v) :
    ¬w.registry.Repoints request := by
  intro hrepoints
  obtain ⟨tag, body, digest, rfl, htag, hne⟩ := hrepoints
  have hsame := congrArg (fun v : World setting.policy => v.registry.tags[tag]?) (hread w)
  rw [World.apply_putManifest, htag] at hsame
  have hput : (w.registry.putTag tag body).tags[tag]? = some (sha256Digest P body) :=
    (Table.get?_insert _ _ _ _).trans (if_pos rfl)
  exact hne (Option.some.inj (hsame.symm.trans hput))

theorem amid_reading : Reading setting.amid World.Beside setting.faults where
  refl := World.Beside.refl
  trans _ _ _ h h' := h.trans h'
  send request w answer w' hread h := by
    obtain ⟨w₁, hbeside, hserved⟩ := h
    cases hserved with
    | answered =>
      rw [hread]
      exact ⟨hbeside, .inl rfl⟩
    | refused _ hrepoints => exact absurd hrepoints (not_repoints_of_read hread)
    | lost _ hfaults hfailure => exact ⟨hbeside, .inr ⟨hfaults, hfailure⟩⟩
    | lostAfter _ hfaults hfailure =>
      rw [hread]
      exact ⟨hbeside, .inr ⟨hfaults, hfailure⟩⟩

/-- What one operation leaves of the repository. -/
theorem guarded_persists (laws : P.Lawful) {op : Op} {answer : Except Err op.Res} (hop : Op.Publishes op)
    (h : setting.guarded True op w answer w') : w.registry.Persists w'.registry := by
  cases op with
  | send request =>
    cases h with
    | answered hnot => exact persists_apply laws w hop (hnot trivial)
    | refused => exact .refl _
    | lost => exact .refl _
    | lostAfter _ _ _ _ _ hnot => exact persists_apply laws w hop (hnot trivial)
  | clock =>
    rcases h with ⟨now, -, -, hw'⟩ | ⟨-, -, hw'⟩
    · rw [hw']
      exact .refl _
    · rw [hw']
      exact .refl _
  | register source length digest =>
    obtain ⟨id, -, hw'⟩ := h
    rw [hw']
    exact .refl _
  | _ =>
    rw [h.2]
    exact .refl _

/-- What a program that publishes leaves of the repository. -/
theorem publishes_persists (laws : P.Lawful) {α : Type} {program : Action α} (h : program.Uses Op.Publishes)
    (w : World setting.policy) :
    program.Ensures setting.amid (fun _ _ => True) w fun _ w' => w.registry.Persists w'.registry := by
  have hsteps : program.Ensures setting.amid (fun w w' => w.registry.Persists w'.registry) w fun _ _ => True := by
    refine h.ensures (fun op w answer w' hop hanswer => ?_) w
    obtain ⟨w₁, hbeside, hserved⟩ := hanswer
    exact hbeside.2.trans (guarded_persists laws hop hserved)
  have hreach := hsteps.reach (fun w => .refl w.registry) fun _ _ _ h h' => h.trans h'
  exact hreach.weaken (fun _ _ _ _ h => h) (fun _ _ _ => trivial) fun _ _ hq => hq.2

end Amid

section Requests

variable {client : RegistryHttpClient} {setting : Setting P client.binding}

/-- A request that is sent once and returns was carried out. -/
theorem request_done (laws : P.Lawful) (w : World setting.policy) (request : Request) {expected : List Nat}
    (hexpected : ∀ status ∈ expected, status < 400 ∨ status = 404) (maximumBytes : Nat) :
    (client.request P request expected false maximumBytes).Ensures setting.amid (fun _ _ => True) w
      fun outcome w' => ∀ response, outcome = .ok response → ∃ w₁, w.Beside w₁ ∧
        response = (w₁.reply request).bounded ∧ response.status ∈ expected ∧ w' = w₁.apply request := by
  cases hbuild : request.target.build P with
  | error error =>
    rw [request_unbuilt hbuild]
    exact fun response h => by cases h
  | ok _ =>
    rw [request_attempt hbuild]
    intro answer w' hanswer
    refine ⟨trivial, ?_⟩
    obtain ⟨w₁, hbeside, hserved⟩ := hanswer
    have hfailed : Failure answer → (client.judge P expected maximumBytes 0
        (client.attempt P request expected maximumBytes 0) answer).Ensures setting.amid (fun _ _ => True) w'
        fun outcome w' => ∀ response, outcome = .ok response → ∃ w₁, w.Beside w₁ ∧
          response = (w₁.reply request).bounded ∧ response.status ∈ expected ∧ w' = w₁.apply request := by
      intro hfailure
      rcases judge_failed (P := P) client maximumBytes 0 (client.attempt P request expected maximumBytes 0) hexpected
        hfailure with hagain | ⟨error, hraise⟩
      · rw [hagain]
        exact fun response h => by cases h
      · rw [hraise]
        exact fun response h => by cases h
    cases hserved with
    | answered =>
      rw [judge_deliver laws setting.policy (w₁.plain_reply request), Prog.ensures_ofExcept]
      intro response hverdict
      obtain ⟨hresponse, hin, -⟩ := verdict_ok hverdict
      exact ⟨w₁, hbeside, hresponse, hin, rfl⟩
    | refused _ _ hconflict =>
      refine hfailed ?_
      cases answer with
      | error error => trivial
      | ok response =>
        have hstatus : response.status = 409 := hconflict
        exact .inr ⟨by omega, by omega⟩
    | lost _ _ hfailure => exact hfailed hfailure
    | lostAfter _ _ hfailure => exact hfailed hfailure

/-- A manifest that was put is there. -/
theorem putManifest_done (laws : P.Lawful) (w : World setting.policy) (reference : String) (body : Bytes) :
    (client.putManifest P reference body).Ensures setting.amid (fun _ _ => True) w fun outcome w' =>
      ∀ descriptor, outcome = .ok descriptor → descriptor.mediaType = ociManifestMediaType ∧
        descriptor.digest = sha256Digest P body ∧ w'.registry.tagged reference = some body ∧
        ∃ document, ManifestDocument.parse P body none client.binding.maxManifestBytes = .ok document := by
  unfold RegistryHttpClient.putManifest
  cases hparse : ManifestDocument.parse P body none client.binding.maxManifestBytes with
  | error error => exact fun descriptor h => by cases h
  | ok document =>
    obtain ⟨rfl, -, -⟩ := ManifestDocument.parse_ok hparse
    obtain ⟨d, hd, hmedia, hdigest, -⟩ := OciDescriptor_new_sha256 laws document.body
      document.body.length (show ociManifestMediaType.toList.contains '/' = true by decide)
    refine (request_done laws w (.putManifest reference document.body) (by decide) _).bind ?_ ?_
    · intro response w' h
      obtain ⟨w₁, -, -, -, rfl⟩ := h response rfl
      split
      · exact fun descriptor h => by cases h
      · rw [document.digest_eq, hd]
        intro descriptor h
        obtain rfl := Except.ok.inj h
        refine ⟨hmedia, hdigest, ?_, document, rfl⟩
        rw [World.apply_putManifest, Registry.tagged_putTag laws, if_pos rfl]
    · exact fun error w' _ descriptor h => by cases h

/-- A blob that was uploaded is there. -/
theorem uploadBlobBytes_done (laws : P.Lawful) (w : World setting.policy) (value : Bytes) (mediaType : String) :
    (client.uploadBlobBytes P value mediaType).Ensures setting.amid (fun _ _ => True) w fun outcome w' =>
      ∀ descriptor, outcome = .ok descriptor → OciDescriptor.new P mediaType (sha256Digest P value) value.length =
        .ok descriptor ∧ w'.registry.blobs[sha256Digest P value]? = some value := by
  have hlast : ∀ (w' : World setting.policy), w'.registry.blobs[sha256Digest P value]? = some value →
      (Action.lift (OciDescriptor.new P mediaType (sha256Digest P value) value.length)).Ensures setting.amid
        (fun _ _ => True) w' fun outcome w' => ∀ descriptor, outcome = .ok descriptor →
          OciDescriptor.new P mediaType (sha256Digest P value) value.length = .ok descriptor ∧
            w'.registry.blobs[sha256Digest P value]? = some value := by
    intro w' hblob
    exact Prog.ensures_ofExcept.mpr fun descriptor h => ⟨h, hblob⟩
  refine (headBlob_ensures laws amid_reading (fun _ _ _ => trivial) w (sha256Digest P value)).bind ?_ ?_
  · intro existing w₁ h
    obtain ⟨-, hfound⟩ := h
    cases existing with
    | some existing =>
      obtain ⟨body, hbody, -⟩ := hfound
      obtain rfl := sha256Digest_injective laws (w₁.registry.blobs_addressed _ _ hbody)
      dsimp only
      split
      · exact fun descriptor h => by cases h
      · exact hlast w₁ hbody
    | none =>
      refine (publishes_persists laws (publishes_off off_startUpload) w₁).bind ?_ ?_
      · intro upload w₂ _
        refine Prog.Ensures.bind (R := fun outcome w' => outcome = .ok () →
          w'.registry.blobs[sha256Digest P value]? = some value) ?_ (fun _ w' h => hlast w' (h rfl)) ?_
        · refine Prog.Ensures.handle (R := fun outcome w' => outcome = .ok () →
            w'.registry.blobs[sha256Digest P value]? = some value) ?_ ?_
          · refine (request_done laws w₂ (.putUpload upload.url (sha256Digest P value) value) (by decide) _).bind ?_ ?_
            · intro response w' h
              obtain ⟨w₃, -, rfl, hin, rfl⟩ := h response rfl
              split
              · exact fun h => by cases h
              · intro _
                have hrespond := w₃.respond_putUpload upload.url (sha256Digest P value) value
                unfold World.reply at hin
                unfold World.apply
                cases hreceived : w₃.registry.uploads[upload.url]? with
                | none =>
                  rw [hrespond, hreceived] at hin
                  cases List.mem_singleton.mp hin
                | some received =>
                  rw [hrespond, hreceived] at hin ⊢
                  dsimp only at hin ⊢
                  split at hin
                  · rename_i hdigest
                    obtain hsame := sha256Digest_injective laws hdigest
                    rw [if_pos hdigest, ← hsame]
                    exact (Table.get?_insert _ _ _ _).trans (if_pos rfl)
                  · cases List.mem_singleton.mp hin
            · exact fun error w' _ h => by cases h
          · intro outcome w' h
            cases outcome with
            | ok _ => exact h
            | error error =>
              refine (publishes_persists laws (publishes_off (off_abortSafely upload)) w').bind ?_ ?_
              · exact fun _ w'' _ h => by cases h
              · exact fun _ w'' _ h => by cases h
        · exact fun error w' _ descriptor h => by cases h
      · exact fun error w' _ descriptor h => by cases h
  · exact fun error w' _ descriptor h => by cases h

end Requests

end MeridianOci.Service
