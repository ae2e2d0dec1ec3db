import MeridianOci.Service.Requests

/-!
# The client over a conforming registry

One fact for each method of the client: what a result says about the registry, what a
raised error may have changed, and that without faults a method raises only for a reason
found in the registry.
-/
namespace MeridianOci.Service

open MeridianOci.Data MeridianOci.Effect MeridianOci.Model

set_option autoImplicit false

variable {P : Platform} {binding : OciDistributionBinding} {policy : Policy P binding}

/-! ## Replies of the registry -/

theorem World.apply_headBlob (w : World policy) (digest : String) :
    w.apply (.headBlob digest) = w := rfl

theorem World.apply_getBlob (w : World policy) (digest : String) (range : Option (Nat × Nat)) :
    w.apply (.getBlob digest range) = w := rfl

theorem World.apply_listTags (w : World policy) (limit : Nat) (last : Option String) :
    w.apply (.listTags limit last) = w := rfl

theorem World.apply_headManifest (w : World policy) (reference : String) :
    w.apply (.headManifest reference) = w := by
  simp only [World.apply, respond, Request.headManifest, respondManifest]
  split <;> rfl

theorem World.apply_getManifest (w : World policy) (reference : String) :
    w.apply (.getManifest reference) = w := by
  simp only [World.apply, respond, Request.getManifest, respondManifest]
  split <;> rfl

theorem World.apply_putManifest (w : World policy) (reference : String) (body : Bytes) :
    w.apply (.putManifest reference body) = { w with registry := w.registry.putTag reference body } := rfl

theorem World.apply_startUpload (w : World policy) :
    w.apply .startUpload = { w with registry := w.registry.openUpload } := rfl

theorem Registry.select_digest (registry : Registry policy) {reference : String}
    (h : ['s', 'h', 'a', '2', '5', '6', ':'].isPrefixOf reference.toList = true) :
    registry.select reference = some reference := by simp [Registry.select, h]

theorem Registry.select_tag (registry : Registry policy) {reference : String}
    (h : ['s', 'h', 'a', '2', '5', '6', ':'].isPrefixOf reference.toList = false) :
    registry.select reference = registry.tags[reference]? := by simp [Registry.select, h]

theorem isPrefixOf_sha256Digest (body : Bytes) :
    ['s', 'h', 'a', '2', '5', '6', ':'].isPrefixOf (sha256Digest P body).toList = true := by
  simp [sha256Digest, List.isPrefixOf]

/-- The code of an error body is the one the registry put there. -/
theorem providerCode_errorReply (laws : P.Lawful) (status : Nat) (code : String) :
    providerCode P (errorReply status code).bounded = .ok code := by
  have hwritable : Json.Writable (.obj
      [("errors", .arr [.obj [("code", .str code), ("message", .str code)]])]) := by
    simp [Json.Writable, Json.WritableFields, Json.WritableItems, Json.keys]
  have hsorted : Json.sortFields [("code", Json.str code), ("message", .str code)] =
      [("code", .str code), ("message", .str code)] := by
    have hlt : ¬"message" < "code" := by decide
    simp [Json.sortFields, Json.sortKeys, Json.insertField, hlt]
  simp only [providerCode, loadJson, errorReply, Reply.bounded, canonicalJson, laws.jsonLimit_dumps false _ hwritable,
    Json.loads_dumps hwritable, bind, Except.bind, pure, Except.pure]
  simp [errorCode, Json.get?_sortFields, Json.get?_cons, Json.sortKeys, Json.sortItems, hsorted]

theorem responseError_notFound {response : BoundedResponse} {code : String} (hstatus : response.status = 404)
    (hprovider : providerCode P response = .ok code) (hcode : code ≠ "UNAUTHORIZED" ∧ code ≠ "DENIED") :
    (responseError P response).kind = .objectNotFound := by
  simp [responseError, hprovider, statusError, hstatus, hcode.1, hcode.2]

theorem loads_nil : Json.loads [] = none := by
  have h : utf8DecodePass (utf8 []) = some [] := utf8DecodePass_utf8 []
  simp only [utf8, List.flatMap_nil] at h
  simp [Json.loads, decodeText, List.isPrefixOf, h, Json.skipSpace, Json.loadValue, Json.loadNumber]

theorem providerCode_nil (laws : P.Lawful) (status : Nat) (headers : Headers) :
    providerCode P ⟨status, headers, []⟩ = .ok "HTTP_ERROR" := by
  simp only [providerCode, loadJson, laws.jsonLimit_nil, loads_nil]
  rfl

/-- A refused 404 is reported as a missing object. -/
theorem refused_notFound (laws : P.Lawful) {expected : List Nat} {maximumBytes : Nat} {code : String} {error : Err}
    (hcode : code ≠ "UNAUTHORIZED" ∧ code ≠ "DENIED") (hnot : 404 ∉ expected)
    (h : Refused P expected maximumBytes (errorReply 404 code) error) : error.kind = .objectNotFound := by
  unfold Refused at h
  rcases h with h | h
  · rcases h.2 with herror | herror
    · rw [herror]
      exact responseError_notFound rfl (providerCode_errorReply laws _ _) hcode
    · rw [herror]
      exact responseError_notFound rfl (providerCode_nil laws _ _) (by decide)
  · exact absurd h.1 hnot

theorem World.reply_headBlob (w : World policy) (digest : String) :
    w.reply (.headBlob digest) =
      match w.registry.blobs[digest]? with
      | none => errorReply 404 "BLOB_UNKNOWN"
      | some body => ⟨200, blobHeaders digest body.length, []⟩ := rfl

theorem World.reply_getBlob (w : World policy) (digest : String) :
    w.reply (.getBlob digest none) =
      match w.registry.blobs[digest]? with
      | none => errorReply 404 "BLOB_UNKNOWN"
      | some body => ⟨200, blobHeaders digest body.length, body⟩ := rfl

/-- A resolvable reference selects the digest of its manifest. -/
theorem Registry.select_of_resolve {registry : Registry policy} {reference : String} {body : Bytes}
    (h : registry.resolve reference = some body) :
    registry.select reference = some (sha256Digest P body) := by
  obtain ⟨digest, hselect, hbody⟩ := Option.bind_eq_some_iff.mp h
  rw [hselect, registry.manifests_addressed _ _ hbody]

theorem World.reply_manifest (w : World policy) (request : Request) (reference : String)
    (hput : request.method ≠ .put) (htarget : request.target = .manifest reference) :
    w.reply request =
      match w.registry.resolve reference with
      | none => errorReply 404 "MANIFEST_UNKNOWN"
      | some body =>
        match request.method with
        | .delete => ⟨202, [], []⟩
        | .head => ⟨200, manifestHeaders (sha256Digest P body) body.length, []⟩
        | .get => ⟨200, manifestHeaders (sha256Digest P body) body.length, body⟩
        | _ => unsupported := by
  obtain ⟨method, target, contentRange, range, content⟩ := request
  obtain rfl : target = .manifest reference := htarget
  cases hbody : w.registry.resolve reference with
  | none => cases method <;> first | exact absurd rfl hput | simp [World.reply, respond, respondManifest, hbody]
  | some body =>
    have hselect := Registry.select_of_resolve hbody
    cases method <;> first
      | exact absurd rfl hput
      | simp [World.reply, respond, respondManifest, hbody, hselect]

theorem World.reply_headManifest (w : World policy) (reference : String) :
    w.reply (.headManifest reference) =
      match w.registry.resolve reference with
      | none => errorReply 404 "MANIFEST_UNKNOWN"
      | some body => ⟨200, manifestHeaders (sha256Digest P body) body.length, []⟩ :=
  w.reply_manifest _ reference (by simp [Request.headManifest]) rfl

theorem World.reply_getManifest (w : World policy) (reference : String) :
    w.reply (.getManifest reference) =
      match w.registry.resolve reference with
      | none => errorReply 404 "MANIFEST_UNKNOWN"
      | some body => ⟨200, manifestHeaders (sha256Digest P body) body.length, body⟩ :=
  w.reply_manifest _ reference (by simp [Request.getManifest]) rfl

theorem World.reply_deleteManifest (w : World policy) (reference : String) :
    w.reply (.deleteManifest reference) =
      match w.registry.resolve reference with
      | none => errorReply 404 "MANIFEST_UNKNOWN"
      | some _ => ⟨202, [], []⟩ :=
  w.reply_manifest _ reference (by simp [Request.deleteManifest]) rfl

theorem World.respond_patchUpload (w : World policy) (url : String) (start finish : Nat) (chunk : Bytes) :
    respond w.registry (.patchUpload url start finish chunk) =
      match w.registry.uploads[url]? with
      | none => (errorReply 404 "BLOB_UPLOAD_UNKNOWN", w.registry)
      | some received =>
        if start = received.length ∧ finish = received.length + chunk.length - 1 then
          (⟨202, uploadHeaders policy url (received ++ chunk).length, []⟩,
            w.registry.setUpload url (received ++ chunk))
        else (errorReply 416 "BLOB_UPLOAD_INVALID", w.registry) := by
  simp only [respond, Request.patchUpload, respondUpload]
  cases w.registry.uploads[url]? with
  | none => rfl
  | some received => simp [Prod.ext_iff]

theorem World.respond_putUpload (w : World policy) (url digest : String) (content : Bytes) :
    respond w.registry (.putUpload url digest content) =
      match w.registry.uploads[url]? with
      | none => (errorReply 404 "BLOB_UPLOAD_UNKNOWN", w.registry)
      | some received =>
        if digest = sha256Digest P (received ++ content) then
          (⟨201, [("Docker-Content-Digest", digest)], []⟩,
            (w.registry.addBlob (received ++ content)).dropUpload url)
        else (errorReply 400 "DIGEST_INVALID", w.registry.setUpload url (received ++ content)) := by
  simp only [respond, Request.putUpload, respondUpload]
  cases w.registry.uploads[url]? with
  | none => rfl
  | some received =>
    simp only [Option.some.injEq]
    split
    · rename_i h
      rw [h]
    · rfl

theorem World.respond_deleteUpload (w : World policy) (url : String) :
    respond w.registry (.deleteUpload url) =
      match w.registry.uploads[url]? with
      | none => (errorReply 404 "BLOB_UPLOAD_UNKNOWN", w.registry)
      | some _ => (⟨204, [], []⟩, w.registry.dropUpload url) := by
  cases hupload : w.registry.uploads[url]? with
  | none => simp only [respond, Request.deleteUpload, respondUpload, hupload]
  | some upload => simp only [respond, Request.deleteUpload, respondUpload, hupload]

theorem header_range (url : String) {received : Nat} (h : received ≠ 0) :
    header (uploadHeaders policy url received) "range" = some ("0-" ++ toString (received - 1)) := by
  rw [uploadHeaders, if_neg h, header_cons_ne (by simp [isNamed]), header_cons_ne (by simp [isNamed]),
    header_cons_self (by simp [isNamed]) (header_nil _)]

theorem header_contentLength (digest : String) (length : Nat) :
    header (blobHeaders digest length) "content-length" = some (toString length) := by
  rw [blobHeaders, header_cons_self (by simp [isNamed]) (by simp [header, isNamed])]

theorem header_blobDigest (digest : String) (length : Nat) :
    header (blobHeaders digest length) "docker-content-digest" = some digest := by
  rw [blobHeaders, header_cons_ne (by simp [isNamed]), header_cons_self (by simp [isNamed])
    (header_nil _)]

theorem header_manifestDigest (digest : String) (length : Nat) :
    header (manifestHeaders digest length) "docker-content-digest" = some digest := by
  rw [manifestHeaders, header_cons_ne (by simp [isNamed]), header_cons_ne (by simp [isNamed]),
    header_cons_self (by simp [isNamed]) (header_nil _)]

theorem header_manifestType (digest : String) (length : Nat) :
    header (manifestHeaders digest length) "content-type" = some ociManifestMediaType := by
  rw [manifestHeaders, header_cons_ne (by simp [isNamed]), header_cons_self (by simp [isNamed])
    (by simp [header, isNamed])]

theorem withLength_manifestHeaders (digest : String) (length : Nat) (body : Bytes) :
    withLength (manifestHeaders digest length) body = manifestHeaders digest length :=
  withLength_of_isSome (by simp [header, manifestHeaders, isNamed]) body

theorem header_digest (digest : String) :
    header [("Docker-Content-Digest", digest)] "docker-content-digest" = some digest := by
  rw [header_cons_self (by simp [isNamed]) (header_nil _)]

theorem location_uploadHeaders (n received : Nat) :
    location P binding (uploadHeaders policy (policy.uploadUrl n) received) =
      .ok (policy.uploadUrl n) := by
  refine policy.location_uploadUrl _ n ?_
  rw [uploadHeaders, header_cons_self (by simp [isNamed])]
  split <;> simp [header, isNamed]

/-- A descriptor of content that exists is valid. -/
theorem OciDescriptor_new_sha256 (laws : P.Lawful) {mediaType : String} (body : Bytes) (size : Nat)
    (hmedia : mediaType.toList.contains '/' = true) :
    ∃ d : OciDescriptor P, OciDescriptor.new P mediaType (sha256Digest P body) size = .ok d ∧
      d.mediaType = mediaType ∧ d.digest = sha256Digest P body ∧ d.size = size := by
  have hvalid : (matchDigest P (sha256Digest P body)).isSome = true := by
    rw [matchDigest_sha256Digest laws]
    rfl
  exact ⟨⟨mediaType, sha256Digest P body, size, hmedia, hvalid⟩, by
    rw [OciDescriptor.new, dif_pos hmedia, dif_pos hvalid], rfl, rfl, rfl⟩

theorem errorReply_short {code : String}
    (h : code = "BLOB_UNKNOWN" ∨ code = "MANIFEST_UNKNOWN" ∨ code = "BLOB_UPLOAD_UNKNOWN") :
    (errorReply 404 code).body.length ≤ defaultResponseBytes := by
  rcases h with rfl | rfl | rfl <;> decide +kernel

/-- A missing resource is not a reason to raise where 404 is expected. -/
theorem not_refused_unknown {code : String} {expected : List Nat} {error : Err} (hin : 404 ∈ expected)
    (h : code = "BLOB_UNKNOWN" ∨ code = "MANIFEST_UNKNOWN" ∨ code = "BLOB_UPLOAD_UNKNOWN") :
    ¬Refused P expected defaultResponseBytes (errorReply 404 code) error := by
  unfold Refused
  rintro (hrefused | hrefused)
  · exact hrefused.1 hin
  · exact absurd hrefused.2 (Nat.not_lt.mpr (errorReply_short h))

theorem not_refused_empty {status : Nat} {headers : Headers} {expected : List Nat} {maximumBytes : Nat}
    {error : Err} (hin : status ∈ expected) :
    ¬Refused P expected maximumBytes ⟨status, headers, []⟩ error := by
  rintro (hrefused | hrefused)
  · exact hrefused.1 hin
  · exact absurd hrefused.2 (Nat.not_lt.mpr (Nat.zero_le _))

/-! ## What requests change -/

def Target.isUpload : Target → Bool
  | .uploads => true
  | .upload _ _ => true
  | _ => false

/-- Manifests and tags stay, and no blob is lost. -/
structure Registry.Grows (registry registry' : Registry policy) : Prop where
  manifests : registry'.manifests = registry.manifests
  tags : registry'.tags = registry.tags
  blobs : ∀ (digest : String) (body : Bytes), registry.blobs[digest]? = some body →
    registry'.blobs[digest]? = some body

theorem Registry.Grows.refl (registry : Registry policy) : registry.Grows registry :=
  ⟨rfl, rfl, fun _ _ h => h⟩

theorem Registry.Grows.trans {a b c : Registry policy} (hab : a.Grows b) (hbc : b.Grows c) : a.Grows c :=
  ⟨hbc.manifests.trans hab.manifests, hbc.tags.trans hab.tags,
    fun digest body h => hbc.blobs digest body (hab.blobs digest body h)⟩

/-- Nothing but uploads and added blobs differs. -/
structure World.Silent (w w' : World policy) : Prop where
  registry : w.registry.Grows w'.registry
  memory : w'.memory = w.memory
  now : w'.now = w.now
  payloads : w'.payloads = w.payloads

theorem World.Silent.refl (w : World policy) : w.Silent w := ⟨.refl _, rfl, rfl, rfl⟩

theorem World.Silent.trans {a b c : World policy} (hab : a.Silent b) (hbc : b.Silent c) : a.Silent c :=
  ⟨hab.registry.trans hbc.registry, hbc.memory.trans hab.memory, hbc.now.trans hab.now,
    hbc.payloads.trans hab.payloads⟩

theorem Registry.grows_setUpload (registry : Registry policy) (url : String) (content : Bytes) :
    registry.Grows (registry.setUpload url content) := by
  unfold Registry.setUpload
  split <;> exact ⟨rfl, rfl, fun _ _ h => h⟩

theorem Registry.grows_addBlob (laws : P.Lawful) (registry : Registry policy) (body : Bytes) :
    registry.Grows (registry.addBlob body) := by
  refine ⟨rfl, rfl, fun digest found h => ?_⟩
  have hsame := registry.blobs_addressed _ _ h
  simp only [Registry.addBlob, Table.get?_insert]
  split
  · rename_i heq
    rw [sha256Digest_injective laws (heq.trans hsame.symm)]
  · exact h

theorem World.silent_apply (laws : P.Lawful) (w : World policy) {request : Request}
    (h : Target.isUpload request.target = true) : w.Silent (w.apply request) := by
  refine ⟨?_, rfl, rfl, rfl⟩
  obtain ⟨method, target, contentRange, range, content⟩ := request
  cases target with
  | uploads => cases method <;> exact ⟨rfl, rfl, fun _ _ h => h⟩
  | upload url digest =>
    simp only [World.apply, respond, respondUpload]
    split
    · exact .refl _
    · split
      · split
        · exact Registry.grows_setUpload _ _ _
        · exact .refl _
      · split
        · exact (Registry.grows_addBlob laws _ _).trans ⟨rfl, rfl, fun _ _ h => h⟩
        · exact Registry.grows_setUpload _ _ _
      · exact .refl _
      · exact ⟨rfl, rfl, fun _ _ h => h⟩
      · exact .refl _
  | _ => cases h

/-- The registries differ at most in how many uploads were issued. -/
structure Registry.Agrees (registry registry' : Registry policy) : Prop where
  blobs : registry'.blobs = registry.blobs
  manifests : registry'.manifests = registry.manifests
  tags : registry'.tags = registry.tags
  uploads : registry'.uploads = registry.uploads

structure World.Agrees (w w' : World policy) : Prop where
  registry : w.registry.Agrees w'.registry
  memory : w'.memory = w.memory
  now : w'.now = w.now
  payloads : w'.payloads = w.payloads

theorem World.Agrees.refl (w : World policy) : w.Agrees w := ⟨⟨rfl, rfl, rfl, rfl⟩, rfl, rfl, rfl⟩

theorem World.Agrees.trans {a b c : World policy} (hab : a.Agrees b) (hbc : b.Agrees c) : a.Agrees c :=
  ⟨⟨hbc.registry.blobs.trans hab.registry.blobs, hbc.registry.manifests.trans hab.registry.manifests,
    hbc.registry.tags.trans hab.registry.tags, hbc.registry.uploads.trans hab.registry.uploads⟩,
    hbc.memory.trans hab.memory, hbc.now.trans hab.now, hbc.payloads.trans hab.payloads⟩

/-- A relation that allows everything except changes to manifests and tags. -/
structure Quiet (G : World policy → World policy → Prop) : Prop where
  refl : ∀ w, G w w
  upload : ∀ w request, Target.isUpload request.target = true → G w (w.apply request)
  memory : ∀ w memory, G w { w with memory }
  now : ∀ w now, G w { w with now }
  payloads : ∀ w payloads, G w { w with payloads }

theorem quiet_true : Quiet fun _ _ : World policy => True := by
  constructor <;> intros <;> trivial

/-- The content of a blob is added and nothing else differs. -/
structure World.Stores (body : Bytes) (w w' : World policy) : Prop where
  blobs : w'.registry.blobs = w.registry.blobs.insert (sha256Digest P body) body
  manifests : w'.registry.manifests = w.registry.manifests
  tags : w'.registry.tags = w.registry.tags
  uploads : w'.registry.uploads = w.registry.uploads
  memory : w'.memory = w.memory
  now : w'.now = w.now
  payloads : w'.payloads = w.payloads

theorem World.Stores.silent (laws : P.Lawful) {body : Bytes} {w w' : World policy}
    (h : World.Stores body w w') : w.Silent w' := by
  refine ⟨⟨h.manifests, h.tags, fun digest found hfound => ?_⟩, h.memory, h.now, h.payloads⟩
  rw [h.blobs]
  exact (Registry.grows_addBlob laws w.registry body).blobs digest found hfound

theorem Registry.uploads_fresh (registry : Registry policy) :
    registry.uploads[policy.uploadUrl registry.issued]? = none := by
  cases h : registry.uploads[policy.uploadUrl registry.issued]? with
  | none => rfl
  | some body =>
    obtain ⟨n, hn, heq⟩ := registry.uploads_issued _ _ h
    rw [policy.uploadUrl_injective heq] at hn
    exact absurd hn (Nat.lt_irrefl n)

/-! ## Reading -/

section Methods

variable (laws : P.Lawful) {client : RegistryHttpClient} {policy : Policy P client.binding}
variable {env : Environment Op Op.Res Err (World policy)} {rely G : World policy → World policy → Prop}
variable {faults : Prop} (reading : Reading env rely faults) (hG : ∀ a b, rely a b → G a b)
variable (w : World policy)

include laws reading hG

theorem headBlob_ensures (digest : String) :
    (client.headBlob P digest).Ensures env G w fun outcome w' => rely w w' ∧
      match outcome with
      | .ok none => w'.registry.blobs[digest]? = none
      | .ok (some descriptor) => ∃ body, w'.registry.blobs[digest]? = some body ∧
          descriptor.size = body.length
      | .error _ => faults := by
  refine (request_read_ensures laws reading hG rfl (by decide)
    fun v => v.apply_headBlob digest).bind ?_ ?_
  · rintro response w' ⟨hrely, rfl, -, -⟩
    rw [w'.reply_headBlob digest]
    cases hblob : w'.registry.blobs[digest]? with
    | none => exact ⟨hrely, hblob⟩
    | some body =>
      obtain ⟨d, hd, -, -, hsize⟩ := OciDescriptor_new_sha256 laws body body.length
        (show "application/octet-stream".toList.contains '/' = true by decide)
      rw [w'.registry.blobs_addressed _ _ hblob] at hd
      have hlength : contentLength P (blobHeaders digest body.length) = .ok body.length := by
        rw [contentLength, header_contentLength]
        simp only [laws.isdigit_toString, laws.int_toString, if_true]
      simp only [Reply.bounded, withLength_nil, hlength, header_blobDigest, Option.getD_some, hd, ne_eq,
        not_true_eq_false, if_false, Action.lift_ok, Prog.ret_bind, Nat.reduceEqDiff]
      exact ⟨hrely, body, hblob, hsize⟩
  · rintro error w' ⟨hrely, hwhy⟩
    refine ⟨hrely, hwhy.resolve_right ?_⟩
    rw [w'.reply_headBlob digest]
    cases w'.registry.blobs[digest]? with
    | none => exact not_refused_unknown (by decide) (.inl rfl)
    | some body => exact not_refused_empty (by decide)

theorem manifestExists_ensures (reference : String) :
    (client.manifestExists P reference).Ensures env G w fun outcome w' => rely w w' ∧
      match outcome with
      | .ok found => found = (w'.registry.resolve reference).isSome
      | .error _ => faults := by
  refine (request_read_ensures laws reading hG rfl (by decide)
    fun v => v.apply_headManifest reference).bind ?_ ?_
  · rintro response w' ⟨hrely, rfl, -, -⟩
    rw [w'.reply_headManifest reference]
    refine ⟨hrely, ?_⟩
    cases w'.registry.resolve reference <;> rfl
  · rintro error w' ⟨hrely, hwhy⟩
    refine ⟨hrely, hwhy.resolve_right ?_⟩
    rw [w'.reply_headManifest reference]
    cases w'.registry.resolve reference with
    | none => exact not_refused_unknown (by decide) (.inr (.inl rfl))
    | some body => exact not_refused_empty (by decide)

theorem getManifest_ensures {reference : String}
    (htag : ['s', 'h', 'a', '2', '5', '6', ':'].isPrefixOf reference.toList = false) :
    (client.getManifest P reference).Ensures env G w fun outcome w' => rely w w' ∧
      match outcome with
      | .ok document => w'.registry.resolve reference = some document.body ∧
          document.body.length ≤ client.binding.maxManifestBytes ∧
          ManifestDocument.parse P document.body none client.binding.maxManifestBytes = .ok document
      | .error error => faults ∨
          (w'.registry.resolve reference = none ∧ error.kind = .objectNotFound) ∨
          ∃ body, w'.registry.resolve reference = some body ∧
            ∀ document, ManifestDocument.parse P body none client.binding.maxManifestBytes ≠
              .ok document := by
  refine (request_read_ensures laws reading hG rfl (by decide)
    fun v => v.apply_getManifest reference).bind ?_ ?_
  · rintro response w' ⟨hrely, rfl, hin, hlen⟩
    have hreply := w'.reply_getManifest reference
    rw [hreply] at hin hlen ⊢
    cases hbody : w'.registry.resolve reference with
    | none => simp [hbody, errorReply, Reply.bounded] at hin
    | some body =>
      simp only [Reply.bounded, withLength_manifestHeaders, htag, Bool.false_eq_true, if_false]
      cases hparse : ManifestDocument.parse P body none client.binding.maxManifestBytes with
      | error error =>
        have hfail : ∀ error : Err, faults ∨
            (w'.registry.resolve reference = none ∧ error.kind = .objectNotFound) ∨
            ∃ found, w'.registry.resolve reference = some found ∧
              ∀ document, ManifestDocument.parse P found none client.binding.maxManifestBytes ≠
                .ok document :=
          fun error => .inr (.inr ⟨body, hbody, fun document h => by rw [hparse] at h; cases h⟩)
        simp only
        split <;> exact ⟨hrely, hfail _⟩
      | ok document =>
        obtain ⟨rfl, hmax, -⟩ := ManifestDocument.parse_ok hparse
        have htype : ociManifestMediaType.toList.takeWhile (· ≠ ';') = ociManifestMediaType.toList := by
          decide
        simp only [header_manifestDigest, header_manifestType, Option.getD_some, htype,
          document.digest_eq, document.mediaType_eq, ne_eq, not_true_eq_false, and_false, if_false]
        exact ⟨hrely, hbody, hmax, hparse⟩
  · rintro error w' ⟨hrely, hwhy⟩
    refine ⟨hrely, hwhy.imp_right fun hrefused => ?_⟩
    have hreply := w'.reply_getManifest reference
    rw [hreply] at hrefused
    cases hbody : w'.registry.resolve reference with
    | none =>
      simp only [hbody] at hrefused
      exact .inl ⟨rfl, refused_notFound laws (by decide) (by decide) hrefused⟩
    | some body =>
      simp only [hbody] at hrefused
      rcases hrefused with hrefused | hrefused
      · exact absurd hrefused.1 (by simp)
      · refine .inr ⟨body, rfl, fun document h => ?_⟩
        exact absurd hrefused.2 (Nat.not_lt.mpr (ManifestDocument.parse_ok h).2.1)

theorem getBlobBytes_ensures (descriptor : OciDescriptor P) (maximumBytes : Nat) :
    (client.getBlobBytes P descriptor maximumBytes).Ensures env G w fun outcome w' => rely w w' ∧
      match outcome with
      | .ok body => w'.registry.blobs[descriptor.digest]? = some body ∧ body.length = descriptor.size
      | .error _ => faults ∨
          ∀ body, w'.registry.blobs[descriptor.digest]? = some body →
            body.length ≠ descriptor.size ∨ maximumBytes < descriptor.size := by
  unfold RegistryHttpClient.getBlobBytes
  split
  · rename_i hlong
    exact ⟨reading.refl w, .inr fun _ _ => .inr hlong⟩
  · refine (request_read_ensures laws reading hG rfl (by decide)
      fun v => v.apply_getBlob descriptor.digest none).bind ?_ ?_
    · rintro response w' ⟨hrely, rfl, hin, hlen⟩
      have hreply := w'.reply_getBlob descriptor.digest
      rw [hreply] at hin hlen ⊢
      cases hblob : w'.registry.blobs[descriptor.digest]? with
      | none => simp [hblob, errorReply, Reply.bounded] at hin
      | some body =>
        simp only [Reply.bounded, w'.registry.blobs_addressed _ _ hblob]
        simp only [hblob] at hlen
        by_cases hsize : body.length = descriptor.size
        · simp only [hsize, ne_eq, not_true_eq_false, or_false, if_false]
          rw [if_neg (by omega)]
          exact ⟨hrely, hblob, hsize⟩
        · rw [if_pos (.inr hsize)]
          refine ⟨hrely, .inr ?_⟩
          rintro found hfound
          obtain rfl := Option.some.inj (hblob.symm.trans hfound)
          exact .inl hsize
    · rintro error w' ⟨hrely, hwhy⟩
      refine ⟨hrely, hwhy.imp_right fun hrefused body hbody => ?_⟩
      rw [w'.reply_getBlob descriptor.digest, hbody] at hrefused
      rcases hrefused with hrefused | hrefused
      · exact absurd hrefused.1 (by simp)
      · have hlong : maximumBytes < body.length := hrefused.2
        exact .inl (by omega)

end Methods

/-! ## Uploading -/

section Uploads

variable (laws : P.Lawful) {client : RegistryHttpClient} {setting : Setting P client.binding}
variable {G : World setting.policy → World setting.policy → Prop} (hG : Quiet G)
variable (w : World setting.policy)

include laws hG

theorem startUpload_ensures :
    (client.startUpload P).Ensures setting.env G w fun outcome w' =>
      match outcome with
      | .ok upload => w' = w.apply .startUpload ∧
          upload.url = setting.policy.uploadUrl w.registry.issued ∧ upload.offset = 0
      | .error _ => (w' = w ∨ w' = w.apply .startUpload) ∧ setting.faults := by
  have hreply : w.reply .startUpload =
      ⟨202, uploadHeaders setting.policy (setting.policy.uploadUrl w.registry.issued) 0, []⟩ := rfl
  refine (request_once_ensures laws .startUpload rfl (by decide) hG.refl
    (hG.upload w _ rfl)).bind ?_ ?_
  · rintro response w' ⟨rfl, -, rfl⟩
    have hminimum : header (uploadHeaders setting.policy
        (setting.policy.uploadUrl w.registry.issued) 0) "oci-chunk-min-length" = none := by
      simp [header, uploadHeaders, isNamed]
    simp only [hreply, Reply.bounded, withLength_nil, location_uploadHeaders, hminimum, Action.lift_ok,
      Prog.ret_bind, Prog.pure_eq]
    exact ⟨rfl, rfl, rfl⟩
  · rintro error w' ⟨hw', hwhy⟩
    refine ⟨hw', hwhy.resolve_right ?_⟩
    rw [hreply]
    exact not_refused_empty (by decide)

/-- A chunk is appended to the upload it was sent to, at the offset it was sent for. -/
theorem patchUpload_ensures (upload : UploadLocation) (chunk : Bytes) :
    (client.patchUpload P upload chunk).Ensures setting.env G w fun outcome w' =>
      match outcome with
      | .ok next => ∃ received, w.registry.uploads[upload.url]? = some received ∧
          received.length = upload.offset ∧
          w' = { w with registry := w.registry.setUpload upload.url (received ++ chunk) } ∧
          next.url = upload.url ∧ next.offset = upload.offset + chunk.length ∧ chunk ≠ []
      | .error _ => (w' = w ∨ (chunk ≠ [] ∧ w' = w.apply (.patchUpload upload.url upload.offset
          (upload.offset + chunk.length - 1) chunk))) ∧ (setting.faults ∨ chunk = [] ∨
          ∀ received, w.registry.uploads[upload.url]? = some received →
            received.length ≠ upload.offset) := by
  unfold RegistryHttpClient.patchUpload
  split
  · rename_i hempty
    exact ⟨.inl rfl, .inr (.inl hempty)⟩
  · rename_i hchunk
    have hpos : 0 < chunk.length := List.length_pos_iff.mpr hchunk
    cases hbuild : (Target.upload upload.url none).build P with
    | error error =>
      have hunbuilt : (Request.patchUpload upload.url upload.offset (upload.offset + chunk.length - 1)
        chunk).target.build P = .error error := hbuild
      simp only [request_unbuilt hunbuilt]
      refine ⟨.inl rfl, .inr (.inr fun received hurl => ?_)⟩
      rw [Registry.build_upload hurl] at hbuild
      cases hbuild
    | ok _ => ?_
    have hreply : w.reply (.patchUpload upload.url upload.offset
        (upload.offset + chunk.length - 1) chunk) = (respond w.registry (.patchUpload upload.url
          upload.offset (upload.offset + chunk.length - 1) chunk)).1 := rfl
    rw [w.respond_patchUpload] at hreply
    refine (request_once_ensures laws (.patchUpload upload.url upload.offset
      (upload.offset + chunk.length - 1) chunk) hbuild (by decide) hG.refl (hG.upload w _ rfl)).bind ?_ ?_
    · rintro response w' ⟨rfl, hin, rfl⟩
      rw [hreply] at hin ⊢
      cases hurl : w.registry.uploads[upload.url]? with
      | none => simp [hurl, errorReply, Reply.bounded] at hin
      | some received =>
        simp only [hurl] at hin ⊢
        by_cases hoffset : upload.offset = received.length ∧
            upload.offset + chunk.length - 1 = received.length + chunk.length - 1
        · obtain ⟨n, -, hn⟩ := w.registry.uploads_issued _ _ hurl
          have hlen : (received ++ chunk).length - 1 = upload.offset + chunk.length - 1 := by
            rw [List.length_append, hoffset.1]
          have happly : w.apply (.patchUpload upload.url upload.offset
              (upload.offset + chunk.length - 1) chunk) =
              { w with registry := w.registry.setUpload upload.url (received ++ chunk) } := by
            rw [World.apply, w.respond_patchUpload, hurl]
            simp only [if_pos hoffset]
          have hlocation : location P client.binding
              (uploadHeaders setting.policy upload.url (received ++ chunk).length) =
                .ok upload.url := by
            rw [hn]
            exact location_uploadHeaders n _
          have hne : (received ++ chunk).length ≠ 0 := by
            rw [List.length_append]
            omega
          have hrange : header (uploadHeaders setting.policy upload.url (received ++ chunk).length)
              "range" = some ("0-" ++ toString ((received ++ chunk).length - 1)) :=
            header_range upload.url hne
          rw [if_pos hoffset, happly]
          simp only [Reply.bounded, withLength_nil, hrange, hlen, Option.getD_some, ne_eq,
            not_true_eq_false, if_false, hlocation, Action.lift_ok, Prog.ret_bind]
          exact ⟨received, rfl, hoffset.1.symm, rfl, rfl, Nat.sub_add_cancel (by omega), hchunk⟩
        · simp [if_neg hoffset, errorReply, Reply.bounded] at hin
    · rintro error w' ⟨hw', hwhy⟩
      refine ⟨hw'.imp_right fun h => ⟨hchunk, h⟩, hwhy.imp_right fun hrefused =>
        .inr fun received hurl hoffset => ?_⟩
      rw [hreply, hurl] at hrefused
      simp only [hoffset, and_self, if_true] at hrefused
      exact not_refused_empty (by decide) hrefused

/-- A digest PUT turns the upload into the blob of that digest. -/
theorem putUpload_ensures (url digest : String) (content : Bytes) :
    (client.request P (.putUpload url digest content) [201] false defaultResponseBytes).Ensures
      setting.env G w fun outcome w' =>
      match outcome with
      | .ok response => ∃ received, w.registry.uploads[url]? = some received ∧
          digest = sha256Digest P (received ++ content) ∧
          header response.headers "docker-content-digest" = some digest ∧
          w' = { w with registry := (w.registry.addBlob (received ++ content)).dropUpload url }
      | .error _ => (w' = w ∨ w' = w.apply (.putUpload url digest content)) ∧ (setting.faults ∨
          ∀ received, w.registry.uploads[url]? = some received →
            digest ≠ sha256Digest P (received ++ content)) := by
  have hreply : w.reply (.putUpload url digest content) =
      (respond w.registry (.putUpload url digest content)).1 := rfl
  rw [w.respond_putUpload] at hreply
  cases hbuild : (Target.upload url (some digest)).build P with
  | error error =>
    rw [request_unbuilt hbuild]
    refine ⟨.inl rfl, .inr fun received hurl => ?_⟩
    rw [Registry.build_upload hurl] at hbuild
    cases hbuild
  | ok _ => ?_
  refine (request_once_ensures laws (.putUpload url digest content) hbuild (by decide) hG.refl
    (hG.upload w _ rfl)).mono ?_
  rintro (error | response) w' h
  · refine ⟨h.1, h.2.imp_right fun hrefused received hurl hdigest => ?_⟩
    rw [hreply, hurl] at hrefused
    simp only [if_pos hdigest] at hrefused
    exact not_refused_empty (by decide) hrefused
  · obtain ⟨rfl, hin, rfl⟩ := h
    rw [hreply] at hin ⊢
    cases hurl : w.registry.uploads[url]? with
    | none => simp [hurl, errorReply, Reply.bounded] at hin
    | some received =>
      simp only [hurl] at hin ⊢
      by_cases hdigest : digest = sha256Digest P (received ++ content)
      · refine ⟨received, rfl, hdigest, ?_, ?_⟩
        · rw [if_pos hdigest]
          exact header_digest digest
        · rw [World.apply, w.respond_putUpload, hurl]
          simp only [if_pos hdigest]
      · simp [if_neg hdigest, errorReply, Reply.bounded] at hin

theorem finishUpload_ensures (upload : UploadLocation) (digest : String) :
    (client.finishUpload P upload digest).Ensures setting.env G w fun outcome w' =>
      match outcome with
      | .ok _ => ∃ received, w.registry.uploads[upload.url]? = some received ∧
          digest = sha256Digest P received ∧
          w' = { w with registry := (w.registry.addBlob received).dropUpload upload.url }
      | .error _ => (w' = w ∨ w' = w.apply (.putUpload upload.url digest [])) ∧ (setting.faults ∨
          ∀ received, w.registry.uploads[upload.url]? = some received →
            digest ≠ sha256Digest P received) := by
  refine (putUpload_ensures laws hG w upload.url digest []).bind ?_ ?_
  · rintro response w' ⟨received, hurl, hdigest, hheader, rfl⟩
    rw [List.append_nil] at hdigest ⊢
    obtain ⟨d, hd, -⟩ := OciDescriptor_new_sha256 laws received upload.offset
      (show "application/octet-stream".toList.contains '/' = true by decide)
    rw [← hdigest] at hd
    simp only [hheader, Option.getD_some, ne_eq, not_true_eq_false, if_false, hd, Action.lift_ok]
    exact ⟨received, hurl, hdigest, rfl⟩
  · rintro error w' ⟨hw', hwhy⟩
    simpa only [List.append_nil] using And.intro hw' hwhy

/-- Aborting never raises; without faults the upload is gone afterwards. -/
theorem abortSafely_ensures (upload : UploadLocation) :
    (client.abortSafely P upload).Ensures setting.env G w fun outcome w' =>
      outcome = .ok () ∧ (w' = w ∨ w' = w.apply (.deleteUpload upload.url)) ∧
        (setting.faults ∨ w' = w.apply (.deleteUpload upload.url)) := by
  have hrepeat : (w.apply (.deleteUpload upload.url)).apply (.deleteUpload upload.url) =
      w.apply (.deleteUpload upload.url) := by
    have happly : ∀ w : World setting.policy, w.apply (.deleteUpload upload.url) =
        { w with registry := (respond w.registry (.deleteUpload upload.url)).2 } := fun _ => rfl
    cases hurl : w.registry.uploads[upload.url]? with
    | none =>
      have hsame : w.apply (.deleteUpload upload.url) = w := by
        rw [happly, w.respond_deleteUpload, hurl]
      rw [hsame, hsame]
    | some received =>
      have hdrop : w.apply (.deleteUpload upload.url) =
          { w with registry := w.registry.dropUpload upload.url } := by
        rw [happly, w.respond_deleteUpload, hurl]
      rw [hdrop, happly, World.respond_deleteUpload]
      simp [Registry.dropUpload]
  refine Prog.Ensures.handle (R := fun _ w' =>
    (w' = w ∨ w' = w.apply (.deleteUpload upload.url)) ∧
      (setting.faults ∨ w' = w.apply (.deleteUpload upload.url))) ?_ ?_
  · cases hbuild : (Target.upload upload.url none).build P with
    | error error =>
      have hnone : w.registry.uploads[upload.url]? = none := by
        by_contra hsome
        obtain ⟨received, hurl⟩ := Option.ne_none_iff_exists'.mp hsome
        rw [Registry.build_upload hurl] at hbuild
        cases hbuild
      have hsame : w.apply (.deleteUpload upload.url) = w := by
        show { w with registry := (respond w.registry (.deleteUpload upload.url)).2 } = w
        rw [w.respond_deleteUpload, hnone]
      rw [RegistryHttpClient.abortUpload, request_unbuilt hbuild, hsame]
      exact ⟨.inl rfl, .inr rfl⟩
    | ok _ => ?_
    refine (request_retry_ensures laws (.deleteUpload upload.url) hbuild (by decide) hG.refl
      (hG.upload w _ rfl) hrepeat).bind ?_ ?_
    · rintro response w' ⟨earlier, hearlier, -, -, -, rfl⟩
      rcases hearlier with rfl | ⟨hfaults, -, rfl⟩
      · exact ⟨.inr rfl, .inr rfl⟩
      · exact ⟨.inr hrepeat, .inl hfaults⟩
    · rintro error w' ⟨hw', hwhy⟩
      exact ⟨hw', hwhy.imp_right And.right⟩
  · rintro outcome w' ⟨hw', hwhy⟩
    exact ⟨rfl, hw', hwhy⟩

end Uploads

end MeridianOci.Service
