import MeridianOci.Service.Transport

/-!
# Whole blobs, manifests and tag pages

The rest of the client over a conforming registry: blobs that are written in one piece,
manifests that are put and deleted, blob streams and pages of tags.
-/
namespace MeridianOci.Service

open MeridianOci.Data MeridianOci.Effect MeridianOci.Model

set_option autoImplicit false

variable {P : Platform} {binding : OciDistributionBinding} {policy : Policy P binding}

theorem Quiet.of_eq {G : World policy → World policy → Prop} (hG : Quiet G) : ∀ a b, a = b → G a b := by
  rintro a _ rfl
  exact hG.refl a

theorem Registry.resolve_digest (registry : Registry policy) (body : Bytes) :
    registry.resolve (sha256Digest P body) = registry.manifests[sha256Digest P body]? := by
  rw [Registry.resolve, registry.select_digest (isPrefixOf_sha256Digest body), Option.bind_some]

theorem World.apply_deleteManifest (w : World policy) (body : Bytes) :
    w.apply (.deleteManifest (sha256Digest P body)) =
      match w.registry.resolve (sha256Digest P body) with
      | none => w
      | some _ => { w with registry := w.registry.deleteManifest (sha256Digest P body) } := by
  have hselect := w.registry.select_digest (isPrefixOf_sha256Digest (P := P) body)
  simp only [World.apply, respond, Request.deleteManifest, respondManifest, hselect]
  cases w.registry.resolve (sha256Digest P body) <;> rfl

/-- A deleted manifest is gone. -/
theorem World.resolve_deleteManifest (w : World policy) (body : Bytes) :
    (w.apply (.deleteManifest (sha256Digest P body))).registry.resolve (sha256Digest P body) = none := by
  rw [w.apply_deleteManifest]
  cases hresolve : w.registry.resolve (sha256Digest P body) with
  | none => exact hresolve
  | some found =>
    rw [Registry.resolve_digest]
    simp only [Registry.deleteManifest, Table.get?_erase, if_true]

theorem World.apply_deleteManifest_twice (w : World policy) (body : Bytes) :
    (w.apply (.deleteManifest (sha256Digest P body))).apply (.deleteManifest (sha256Digest P body)) =
      w.apply (.deleteManifest (sha256Digest P body)) := by
  rw [World.apply_deleteManifest, w.resolve_deleteManifest]

/-! ## Writing -/

section Writing

variable (laws : P.Lawful) {client : RegistryHttpClient} {setting : Setting P client.binding}
variable {G : World setting.policy → World setting.policy → Prop}
variable (w : World setting.policy)

include laws

/-- The content is stored and no upload stays open. -/
theorem uploadBlobBytes_ensures (hG : Quiet G) (value : Bytes) {mediaType : String}
    (hmedia : mediaType.toList.contains '/' = true) :
    (client.uploadBlobBytes P value mediaType).Ensures setting.env G w fun outcome w' =>
      match outcome with
      | .ok descriptor => descriptor.mediaType = mediaType ∧
          descriptor.digest = sha256Digest P value ∧ descriptor.size = value.length ∧
          World.Stores value w w'
      | .error _ => w.Silent w' ∧ setting.faults := by
  obtain ⟨d, hd, hdescriptor⟩ := OciDescriptor_new_sha256 laws value value.length hmedia
  refine (headBlob_ensures laws setting.reading hG.of_eq w (sha256Digest P value)).bind ?_ ?_
  · rintro (_ | existing) w ⟨rfl, hfound⟩
    · -- the upload is opened, filled by the digest PUT and closed by it
      refine (startUpload_ensures laws hG w).bind ?_ ?_
      · rintro upload w₁ ⟨rfl, hurl, -⟩
        have hopen : (w.apply .startUpload).registry.uploads[upload.url]? = some [] := by
          rw [hurl, World.apply_startUpload]
          simp only [Registry.openUpload, Table.get?_insert, if_true]
        have hstores : World.Stores value w
            ⟨((w.apply .startUpload).registry.addBlob value).dropUpload upload.url, w.memory, w.now,
              w.payloads⟩ := by
          refine ⟨rfl, rfl, rfl, ?_, rfl, rfl, rfl⟩
          rw [hurl, World.apply_startUpload]
          exact Table.erase_insert w.registry.uploads_fresh
        have hsilent := World.silent_apply laws w (show Target.isUpload Request.startUpload.target = true from rfl)
        refine Prog.Ensures.bind (R := Prog.Exits
          (fun _ w₂ => w.Silent w₂ ∧ setting.faults) fun _ w₂ => World.Stores value w w₂) ?_ ?_ ?_
        · refine Prog.Ensures.handle (R := Prog.Exits
            (fun _ w₂ => w.Silent w₂ ∧ setting.faults) fun _ w₂ => World.Stores value w w₂) ?_ ?_
          · refine (putUpload_ensures laws hG _ upload.url (sha256Digest P value) value).bind ?_ ?_
            · rintro response w₂ ⟨received, hreceived, -, hheader, rfl⟩
              obtain rfl := Option.some.inj (hopen.symm.trans hreceived)
              simp only [hheader, Option.getD_some, ne_eq, not_true_eq_false, if_false]
              exact hstores
            · rintro error w₂ ⟨hw₂, hwhy⟩
              refine ⟨?_, hwhy.resolve_right fun h => h [] hopen rfl⟩
              rcases hw₂ with rfl | rfl
              · exact hsilent
              · exact hsilent.trans (World.silent_apply laws _ rfl)
          · rintro (error | ⟨⟩) w₂ h
            · refine (abortSafely_ensures laws hG w₂ upload).bind ?_ ?_
              · rintro _ w₃ ⟨-, hw₃, -⟩
                refine ⟨?_, h.2⟩
                rcases hw₃ with rfl | rfl
                · exact h.1
                · exact h.1.trans (World.silent_apply laws _ rfl)
              · rintro _ w₃ ⟨hok, -⟩
                cases hok
            · exact h
        · rintro _ w₂ h
          simp only [hd, Action.lift_ok]
          exact ⟨hdescriptor.1, hdescriptor.2.1, hdescriptor.2.2, h⟩
        · exact fun _ _ h => h
      · rintro error w₁ ⟨hw₁, hfaults⟩
        refine ⟨?_, hfaults⟩
        rcases hw₁ with rfl | rfl
        · exact .refl _
        · exact World.silent_apply laws _ rfl
    · obtain ⟨body, hbody, hsize⟩ := hfound
      obtain rfl := sha256Digest_injective laws (w.registry.blobs_addressed _ _ hbody)
      simp only [hsize, ne_eq, not_true_eq_false, if_false, hd, Action.lift_ok]
      exact ⟨hdescriptor.1, hdescriptor.2.1, hdescriptor.2.2,
        ⟨(Table.insert_self hbody).symm, rfl, rfl, rfl, rfl, rfl, rfl⟩⟩
  · rintro error w ⟨rfl, hfaults⟩
    exact ⟨.refl _, hfaults⟩

theorem putManifest_ensures (hrefl : ∀ w, G w w) (reference : String) (body : Bytes)
    (hput : body.length ≤ client.binding.maxManifestBytes →
      G w (w.apply (.putManifest reference body))) :
    (client.putManifest P reference body).Ensures setting.env G w fun outcome w' =>
      match outcome with
      | .ok descriptor => descriptor.mediaType = ociManifestMediaType ∧
          descriptor.digest = sha256Digest P body ∧ descriptor.size = body.length ∧
          body.length ≤ client.binding.maxManifestBytes ∧ w' = w.apply (.putManifest reference body)
      | .error _ => (w' = w ∨ (body.length ≤ client.binding.maxManifestBytes ∧
            w' = w.apply (.putManifest reference body))) ∧ (setting.faults ∨
          ∀ document, ManifestDocument.parse P body none client.binding.maxManifestBytes ≠ .ok document) := by
  unfold RegistryHttpClient.putManifest
  cases hparse : ManifestDocument.parse P body none client.binding.maxManifestBytes with
  | error error => exact ⟨.inl rfl, .inr fun document h => by cases h⟩
  | ok document =>
    obtain ⟨rfl, hmax, -⟩ := ManifestDocument.parse_ok hparse
    obtain ⟨d, hd, hmedia, hdigest, hsize⟩ := OciDescriptor_new_sha256 laws document.body
      document.body.length (show ociManifestMediaType.toList.contains '/' = true by decide)
    refine (request_once_ensures laws (.putManifest reference document.body) rfl (by decide)
      hrefl (hput hmax)).bind ?_ ?_
    · rintro response w' ⟨rfl, -, rfl⟩
      have hreply : w.reply (.putManifest reference document.body) =
          ⟨201, [("Docker-Content-Digest", sha256Digest P document.body)], []⟩ := rfl
      simp only [hreply, Reply.bounded, withLength_nil, header_digest, Option.getD_some, document.digest_eq, ne_eq,
        not_true_eq_false, if_false, hd, Action.lift_ok]
      exact ⟨hmedia, hdigest, hsize, hmax, rfl⟩
    · rintro error w' ⟨hw', hwhy⟩
      refine ⟨hw'.imp_right fun h => ⟨hmax, h⟩, .inl (hwhy.resolve_right ?_)⟩
      exact not_refused_empty (by decide)

/-- The answer tells whether the manifest existed, unless the request was repeated. -/
theorem deleteManifest_ensures (hrefl : ∀ w, G w w) (body : Bytes)
    (hdelete : G w (w.apply (.deleteManifest (sha256Digest P body)))) :
    (client.deleteManifest P (sha256Digest P body)).Ensures setting.env G w fun outcome w' =>
      match outcome with
      | .ok true => w' = w.apply (.deleteManifest (sha256Digest P body)) ∧
          (w.registry.resolve (sha256Digest P body)).isSome
      | .ok false => w' = w.apply (.deleteManifest (sha256Digest P body)) ∧
          (setting.faults ∨ w.registry.resolve (sha256Digest P body) = none)
      | .error _ => (w' = w ∨ w' = w.apply (.deleteManifest (sha256Digest P body))) ∧ setting.faults := by
  have hgone := w.resolve_deleteManifest body
  have hrepeat := w.apply_deleteManifest_twice body
  refine (request_retry_ensures laws (.deleteManifest (sha256Digest P body)) rfl (by decide)
    hrefl hdelete hrepeat).bind ?_ ?_
  · rintro response w' ⟨earlier, hearlier, rfl, -, -, rfl⟩
    rw [earlier.reply_deleteManifest]
    rcases hearlier with rfl | ⟨hfaults, -, rfl⟩
    · cases hresolve : earlier.registry.resolve (sha256Digest P body) with
      | none => exact ⟨rfl, .inr rfl⟩
      | some found => exact ⟨rfl, rfl⟩
    · rw [hgone]
      exact ⟨hrepeat, .inl hfaults⟩
  · rintro error w' ⟨hw', hwhy⟩
    refine ⟨hw', hwhy.resolve_right ?_⟩
    rintro ⟨hrefused, -⟩
    rw [w.reply_deleteManifest] at hrefused
    revert hrefused
    cases w.registry.resolve (sha256Digest P body) with
    | none => exact not_refused_unknown (by decide) (.inr (.inl rfl))
    | some found => exact not_refused_empty (by decide)

end Writing

/-! ## Streams and tag pages -/

/-- The bytes of a blob that a source reads. -/
def selectedBytes (source : RegistryBlobSource) (body : Bytes) : Bytes :=
  match source.range with
  | none => body
  | some (start, finish) => (body.drop start).take (finish + 1 - start)

/-- The range of a source lies inside a blob of the given length. -/
def WithinBlob (source : RegistryBlobSource) (length : Nat) : Prop :=
  ∀ start finish, source.range = some (start, finish) → start ≤ finish ∧ finish < length

theorem header_contentRange (value digest : String) (length : Nat) :
    header (("Content-Range", value) :: blobHeaders digest length) "content-range" = some value := by
  rw [header_cons_self (by simp [isNamed]) (by simp [header, blobHeaders, isNamed])]

theorem header_rangedDigest (value digest : String) (length : Nat) :
    header (("Content-Range", value) :: blobHeaders digest length) "docker-content-digest" =
      some digest := by
  rw [header_cons_ne (by simp [isNamed]), header_blobDigest]

/-- The names on a page are read back. -/
theorem tagNames_page (laws : P.Lawful) (names : List String) :
    ∃ value, loadJson P (canonicalJson [("tags", .arr (names.map .str))]) = .ok (some value) ∧
      tagNames value = some names := by
  have hitems : ∀ names : List String, Json.WritableItems (names.map .str) := by
    intro names
    induction names with
    | nil => trivial
    | cons name rest ih => exact ⟨trivial, ih⟩
  have hsorted : ∀ names : List String, Json.sortItems (names.map .str) = names.map .str := by
    intro names
    induction names with
    | nil => rfl
    | cons name rest ih => simp only [List.map_cons, Json.sortItems, Json.sortKeys, ih]
  have hwritable : Json.Writable (.obj [("tags", .arr (names.map .str))]) := by
    simp [Json.Writable, Json.WritableFields, Json.keys, hitems]
  refine ⟨Json.sortKeys (.obj [("tags", .arr (names.map .str))]), ?_, ?_⟩
  · simp only [loadJson, canonicalJson, laws.jsonLimit_dumps false _ hwritable, Json.loads_dumps hwritable]
    rfl
  simp only [Json.sortKeys, tagNames, Json.get?_sortFields, Json.get?_cons, if_true, Option.map_some, Json.sortKeys,
    hsorted, Option.getD_some]
  clear hitems hsorted hwritable
  induction names with
  | nil => rfl
  | cons name rest ih =>
    simp only [List.map_cons, List.mapM_cons, ih, Option.pure_def, Option.bind_eq_bind, Option.bind_some]

theorem World.reply_getRange (w : World policy) (digest : String) (start finish : Nat) :
    w.reply (.getBlob digest (some (start, finish))) =
      match w.registry.blobs[digest]? with
      | none => errorReply 404 "BLOB_UNKNOWN"
      | some body =>
        if finish < start ∨ body.length ≤ finish then errorReply 416 "RANGE_INVALID"
        else
          let selected := (body.drop start).take (finish + 1 - start)
          ⟨206, ("Content-Range", "bytes " ++ toString start ++ "-" ++ toString finish ++ "/" ++
            toString body.length) :: blobHeaders digest selected.length, selected⟩ := rfl

/-! ## Pages of tags beside writers -/

/-- A page of the tags that are there when the request is carried out. -/
theorem listTags_read (laws : P.Lawful) {client : RegistryHttpClient} {policy : Policy P client.binding}
    {env : Environment Op Op.Res Err (World policy)} {rely G : World policy → World policy → Prop} {faults : Prop}
    (reading : Reading env rely faults) (hG : ∀ a b, rely a b → G a b) (w : World policy) (limit : Nat)
    (last : Option String) :
    (client.listTags P limit last).Ensures env G w fun outcome w' => rely w w' ∧
      match outcome with
      | .ok page => page.tags = (w'.registry.remainingTags last).take
            (policy.pageLength limit (w'.registry.remainingTags last)) ∧
          (page.hasMore = false → page.tags = w'.registry.remainingTags last)
      | .error _ => faults ∨ max defaultResponseBytes (limit * 192 + 1024) <
          (respondTags w'.registry limit last).body.length := by
  have hreply : ∀ v : World policy, v.reply (.listTags limit last) = respondTags v.registry limit last := fun _ => rfl
  refine (request_read_ensures laws reading hG rfl (by decide) fun v => v.apply_listTags limit last).bind ?_ ?_
  · rintro response w' ⟨hrely, rfl, -, -⟩
    rw [hreply]
    have hnames := tagNames_page laws ((w'.registry.remainingTags last).take
      (policy.pageLength limit (w'.registry.remainingTags last)))
    obtain ⟨value, hload, hnames⟩ := hnames
    simp only [respondTags, Reply.bounded, hload, hnames, Action.lift_ok, Prog.ret_bind]
    refine ⟨hrely, rfl, fun hmore => ?_⟩
    -- a shorter page carries the link to the next one
    by_contra hshort
    have hlt : ((w'.registry.remainingTags last).take (policy.pageLength limit
        (w'.registry.remainingTags last))).length < (w'.registry.remainingTags last).length := by
      rw [List.length_take]
      by_contra hge
      exact hshort (List.take_of_length_le (by omega))
    rw [if_pos hlt] at hmore
    revert hmore
    rw [header_withLength _ _ (by decide), header_cons_self (by simp [isNamed]) (header_nil _)]
    simp [show containsText "rel=\"next\"" "<tags>; rel=\"next\"" = true by decide]
  · rintro error w' ⟨hrely, hwhy⟩
    refine ⟨hrely, hwhy.imp_right fun hrefused => ?_⟩
    rw [hreply] at hrefused
    rcases hrefused with hrefused | hrefused
    · exact absurd hrefused.1 (by simp [respondTags])
    · exact hrefused.2

section Streams

variable (laws : P.Lawful) {client : RegistryHttpClient} {setting : Setting P client.binding}
variable {G : World setting.policy → World setting.policy → Prop} (hrefl : ∀ w, G w w)
variable (w : World setting.policy)

include hrefl

omit hrefl in
/-- Only a fault keeps a request from being built. -/
theorem authorize_ensures (hG : G w w) : Action.authorize.Ensures setting.env G w fun outcome w' => w' = w ∧
    match outcome with
    | .ok _ => True
    | .error _ => setting.faults := by
  refine Prog.Ensures.perform ?_
  rintro answer w' ⟨hanswer, rfl⟩
  refine ⟨hG, rfl, ?_⟩
  rcases hanswer with rfl | ⟨hfaults, error, rfl⟩
  · trivial
  · exact hfaults

theorem openBlob_ensures (source : RegistryBlobSource) :
    (client.openBlob P source).Ensures setting.env G w fun outcome w' => w' = w ∧
      match outcome with
      | .ok stream => setting.faults ∨ (stream.failure = none ∧
          ∃ body, w.registry.blobs[source.digest]? = some body ∧
            stream.chunks.flatten = selectedBytes source body)
      | .error _ => setting.faults ∨ ∀ body, w.registry.blobs[source.digest]? = some body →
          ¬WithinBlob source body.length := by
  refine (authorize_ensures w (hrefl w)).bind ?_ ?_
  swap
  · rintro error w' ⟨rfl, hfaults⟩
    exact ⟨rfl, .inl hfaults⟩
  rintro - w ⟨rfl, -⟩
  intro answer w' hanswer
  rcases hanswer with ⟨rfl, rfl⟩ | ⟨hfaults, -, hw'⟩
  · refine ⟨hrefl _, Prog.ensures_ofExcept.mpr ⟨rfl, ?_⟩⟩
    obtain ⟨digest, range⟩ := source
    have hsafe : requireSafeResponseUrl P client.binding
        (setting.policy.responseUrl (.getBlob digest range)) = .ok () := setting.policy.responseUrl_safe _
    simp only [RegistryHttpClient.blobStream, deliver, hsafe, bind, Except.bind]
    cases range with
    | none =>
      rw [w.reply_getBlob digest]
      cases hblob : w.registry.blobs[digest]? with
      | none => simp [errorReply]
      | some body =>
        have hchunks := setting.policy.chunks_flatten body
        simp [header_blobDigest, pure, Except.pure, selectedBytes, hchunks]
    | some bounds =>
      obtain ⟨start, finish⟩ := bounds
      rw [w.reply_getRange digest start finish]
      cases hblob : w.registry.blobs[digest]? with
      | none => simp [errorReply]
      | some body =>
        by_cases hrange : finish < start ∨ body.length ≤ finish
        · have hnot : ¬WithinBlob ⟨digest, some (start, finish)⟩ body.length := by
            intro hwithin
            have := hwithin start finish rfl
            omega
          simp [hrange, errorReply, hnot]
        · have hchunks := setting.policy.chunks_flatten ((body.drop start).take (finish + 1 - start))
          have hprefix : ("bytes " ++ toString start ++ "-" ++ toString finish ++ "/").toList.isPrefixOf
              ("bytes " ++ toString start ++ "-" ++ toString finish ++ "/" ++
                toString body.length).toList = true := by
            rw [List.isPrefixOf_iff_prefix]
            exact ⟨(toString body.length).toList, String.toList_append.symm⟩
          simp only [if_neg hrange, Option.isSome_some, if_true, ne_eq, not_true_eq_false, if_false,
            header_rangedDigest, header_contentRange, Option.getD_some, hprefix, pure, Except.pure,
            selectedBytes, hchunks, Option.some.injEq, exists_eq_left', and_self, or_true]
  · rw [w.apply_getBlob, or_self] at hw'
    subst hw'
    refine ⟨hrefl _, Prog.ensures_ofExcept.mpr ⟨rfl, ?_⟩⟩
    split <;> exact .inl hfaults

include laws in
theorem listTags_ensures (limit : Nat) (last : Option String) :
    (client.listTags P limit last).Ensures setting.env G w fun outcome w' => w' = w ∧
      match outcome with
      | .ok page => page.tags = (w.registry.remainingTags last).take
            (setting.policy.pageLength limit (w.registry.remainingTags last)) ∧
          (page.hasMore = false → page.tags = w.registry.remainingTags last)
      | .error _ => setting.faults ∨ max defaultResponseBytes (limit * 192 + 1024) <
          (respondTags w.registry limit last).body.length := by
  have hG : ∀ a b : World setting.policy, a = b → G a b := fun a _ heq => heq ▸ hrefl a
  refine (listTags_read laws setting.reading hG w limit last).mono ?_
  rintro outcome w' ⟨rfl, h⟩
  exact ⟨rfl, h⟩

end Streams

end MeridianOci.Service
