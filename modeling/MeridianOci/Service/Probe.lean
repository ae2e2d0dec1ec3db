import MeridianOci.Effect.Trace
import MeridianOci.Model.Probe
import MeridianOci.Service.Frames
import MeridianOci.Service.Sample
import MeridianOci.Service.Streams

/-!
# What the deep probe leaves behind

The canaries in the registry are those that the variables of the probe name, as long as a
manifest is pushed only together with its answer. The cleanup then takes away what was added.
-/
namespace MeridianOci.Service

open MeridianOci.Data MeridianOci.Effect MeridianOci.Model
open MeridianOci.Model.OciDistributionProbe

set_option autoImplicit false

variable {P : Platform}

/-! ## Canaries in a registry -/

section Canaries

variable {binding : OciDistributionBinding} {policy : Policy P binding}
variable {first registry registry' : Registry policy} {canaries canaries' : Set String}

/-- The registry is the first one with manifests of these digests, and tags that point at them. -/
structure Registry.Hosts (first registry : Registry policy) (canaries : Set String) : Prop where
  digests : ∀ digest ∈ canaries, ∃ body, digest = sha256Digest P body
  absent : ∀ digest ∈ canaries, first.manifests[digest]? = none
  manifests : ∀ digest : String, digest ∉ canaries → registry.manifests[digest]? = first.manifests[digest]?
  tags : ∀ tag digest : String, first.tags[tag]? = some digest ↔ registry.tags[tag]? = some digest ∧ digest ∉ canaries

/-- A tag points at a manifest that exists. -/
theorem Registry.tagged_ne {tag digest absent : String} (htag : first.tags[tag]? = some digest)
    (habsent : first.manifests[absent]? = none) : digest ≠ absent := by
  intro heq
  have hstored := first.tags_stored tag digest htag
  rw [heq, habsent] at hstored
  cases hstored

namespace Registry.Hosts

theorem refl (first : Registry policy) : first.Hosts first ∅ :=
  ⟨fun _ h => h.elim, fun _ h => h.elim, fun _ _ => rfl, fun _ _ => ⟨fun h => ⟨h, id⟩, And.left⟩⟩

theorem grows (h : first.Hosts registry canaries) (hgrows : registry.Grows registry') :
    first.Hosts registry' canaries := by
  refine ⟨h.digests, h.absent, fun digest hnot => ?_, fun tag digest => ?_⟩
  · rw [hgrows.manifests]
    exact h.manifests digest hnot
  · rw [hgrows.tags]
    exact h.tags tag digest

/-- More digests may be named, of manifests that the first registry does not have. -/
theorem mono (h : first.Hosts registry canaries) (hsub : canaries ⊆ canaries')
    (hdigests : ∀ digest ∈ canaries', ∃ body, digest = sha256Digest P body)
    (habsent : ∀ digest ∈ canaries', first.manifests[digest]? = none) : first.Hosts registry canaries' := by
  refine ⟨hdigests, habsent, fun digest hnot => h.manifests digest fun hin => hnot (hsub hin), fun tag digest => ?_⟩
  constructor
  · intro htag
    refine ⟨((h.tags tag digest).mp htag).1, fun hin => ?_⟩
    exact Registry.tagged_ne htag (habsent digest hin) rfl
  · intro htag
    exact (h.tags tag digest).mpr ⟨htag.1, fun hin => htag.2 (hsub hin)⟩

/-- A canary is pushed under a free tag. -/
theorem put (h : first.Hosts registry canaries) {tag : String} {body : Bytes} (hfree : first.tags[tag]? = none)
    (habsent : first.manifests[sha256Digest P body]? = none) :
    first.Hosts (registry.putTag tag body) (insert (sha256Digest P body) canaries) := by
  refine ⟨?_, ?_, fun digest hnot => ?_, fun other digest => ?_⟩
  · intro digest hin
    rcases hin with heq | hin
    · exact ⟨body, heq⟩
    · exact h.digests digest hin
  · intro digest hin
    rcases hin with heq | hin
    · rw [heq]
      exact habsent
    · exact h.absent digest hin
  · simp only [Set.mem_insert_iff, not_or] at hnot
    show (registry.manifests.insert _ _)[digest]? = _
    rw [Table.get?_insert, if_neg (Ne.symm hnot.1)]
    exact h.manifests digest hnot.2
  · show _ ↔ (registry.tags.insert _ _)[other]? = _ ∧ _
    rw [Table.get?_insert, Set.mem_insert_iff, not_or]
    constructor
    · intro htag
      obtain ⟨hsame, hnot⟩ := (h.tags other digest).mp htag
      have hother : tag ≠ other := by
        intro heq
        rw [← heq, hfree] at htag
        cases htag
      rw [if_neg hother]
      exact ⟨hsame, Registry.tagged_ne htag habsent, hnot⟩
    · rintro ⟨htag, hne, hnot⟩
      split at htag
      · exact absurd (Option.some.inj htag).symm hne
      · exact (h.tags other digest).mpr ⟨htag, hnot⟩

/-- A manifest that the first registry does not have is deleted. -/
theorem delete (h : first.Hosts registry canaries) {digest : String} (habsent : first.manifests[digest]? = none) :
    first.Hosts (registry.deleteManifest digest) (canaries \ {digest}) := by
  refine ⟨fun _ hin => h.digests _ hin.1, fun _ hin => h.absent _ hin.1, fun other hnot => ?_, fun tag other => ?_⟩
  · show (registry.manifests.erase _)[other]? = _
    rw [Table.get?_erase]
    split
    · rename_i heq
      rw [← heq, habsent]
    · rename_i hne
      exact h.manifests other fun hin => hnot ⟨hin, Ne.symm hne⟩
  · have hfilter : (registry.deleteManifest digest).tags[tag]? = some other ↔
        registry.tags[tag]? = some other ∧ other ≠ digest := by
      show (registry.tags.filter _)[tag]? = _ ↔ _
      rw [Table.get?_filter, decide_eq_true_iff]
    rw [hfilter]
    constructor
    · intro htag
      obtain ⟨hsame, hnot⟩ := (h.tags tag other).mp htag
      exact ⟨⟨hsame, Registry.tagged_ne htag habsent⟩, fun hin => hnot hin.1⟩
    · rintro ⟨⟨htag, hne⟩, hnot⟩
      exact (h.tags tag other).mpr ⟨htag, fun hin => hnot ⟨hin, hne⟩⟩

/-- Where it is already gone, its digest need not be named. -/
theorem gone (h : first.Hosts registry canaries) {digest : String} (habsent : first.manifests[digest]? = none)
    (hgone : registry.manifests[digest]? = none) : first.Hosts registry (canaries \ {digest}) := by
  refine ⟨fun _ hin => h.digests _ hin.1, fun _ hin => h.absent _ hin.1, fun other hnot => ?_, fun tag other => ?_⟩
  · by_cases heq : other = digest
    · rw [heq, habsent, hgone]
    · exact h.manifests other fun hin => hnot ⟨hin, heq⟩
  · constructor
    · intro htag
      obtain ⟨hsame, hnot⟩ := (h.tags tag other).mp htag
      exact ⟨hsame, fun hin => hnot hin.1⟩
    · rintro ⟨htag, hnot⟩
      exact (h.tags tag other).mpr ⟨htag, fun hin => hnot ⟨hin, Registry.tagged_ne htag hgone⟩⟩

/-- A registry without canaries has the manifests and tags of the first one. -/
theorem unchanged (h : first.Hosts registry ∅) :
    registry.manifests = first.manifests ∧ registry.tags = first.tags := by
  constructor
  · exact Std.ExtTreeMap.ext_getElem? fun digest => h.manifests digest id
  · apply Std.ExtTreeMap.ext_getElem?
    intro tag
    apply Option.ext
    intro digest
    rw [h.tags tag digest]
    exact ⟨fun htag => ⟨htag, id⟩, And.left⟩

end Registry.Hosts

/-- The registry carries out a DELETE of a manifest that the first one does not have. -/
theorem World.hosts_deleteManifest {w : World policy} (h : first.Hosts w.registry canaries) {body : Bytes}
    (habsent : first.manifests[sha256Digest P body]? = none) :
    first.Hosts (w.apply (.deleteManifest (sha256Digest P body))).registry (canaries \ {sha256Digest P body}) := by
  rw [w.apply_deleteManifest]
  cases hresolve : w.registry.resolve (sha256Digest P body) with
  | none =>
    rw [Registry.resolve_digest] at hresolve
    exact h.gone habsent hresolve
  | some found => exact h.delete habsent

end Canaries

/-! ## The block -/

section Block

variable {client : RegistryHttpClient} {setting : Setting P client.binding}

/-- The environment of a setting in which no manifest is pushed without its answer. -/
def Setting.answered {binding : OciDistributionBinding} (setting : Setting P binding) :
    Environment Op Op.Res Err (World setting.policy)
  | .send request, w, answer, w' => setting.env (.send request) w answer w' ∧
      ∀ reference body, request = .putManifest reference body → Failure answer → w' = w
  | op, w, answer, w' => setting.env op w answer w'

theorem answered_env {op : Op} {w w' : World setting.policy} {answer : Except Err op.Res}
    (h : setting.answered op w answer w') : setting.env op w answer w' := by
  cases op with
  | send request => exact h.1
  | _ => exact h

/-- Without faults every manifest is pushed with its answer. -/
theorem answered_faultless {op : Op} {w w' : World setting.policy} {answer : Except Err op.Res}
    (h : setting.faultless.env op w answer w') : setting.answered op w answer w' := by
  cases op with
  | send request =>
    obtain ⟨rfl, rfl⟩ | ⟨hfaults, -⟩ := h
    · refine ⟨.inl ⟨rfl, rfl⟩, fun reference body heq hfailure => ?_⟩
      rw [heq] at hfailure
      obtain hbroken | ⟨hstatus, -⟩ := hfailure
      · cases hbroken
      · exact absurd (show 400 ≤ 201 from hstatus) (by decide)
    · exact hfaults.elim
  | clock => exact Setting.env_faultless h
  | authorize => exact Setting.env_faultless h
  | token => exact Setting.env_faultless h
  | _ => exact h

theorem answered_ensures {α : Type} {program : Action α} {w : World setting.policy}
    {Q : Except Err α → World setting.policy → Prop}
    (h : program.Ensures setting.env (fun _ _ => True) w Q) :
    program.Ensures setting.answered (fun _ _ => True) w Q :=
  h.weaken (fun _ _ _ _ => answered_env) (fun _ _ h => h) fun _ _ h => h

/-- A manifest is there exactly if its PUT returned. -/
theorem putManifest_answered (laws : P.Lawful) (w : World setting.policy) (reference : String) (body : Bytes) :
    (client.putManifest P reference body).Ensures setting.answered (fun _ _ => True) w fun outcome w' =>
      match outcome with
      | .ok descriptor => descriptor.digest = sha256Digest P body ∧ w' = w.apply (.putManifest reference body)
      | .error _ => w' = w := by
  unfold RegistryHttpClient.putManifest
  cases hparse : ManifestDocument.parse P body none client.binding.maxManifestBytes with
  | error error => rfl
  | ok document =>
    obtain ⟨rfl, -, -⟩ := ManifestDocument.parse_ok hparse
    obtain ⟨d, hd, -, hdigest, -⟩ := OciDescriptor_new_sha256 laws document.body
      document.body.length (show ociManifestMediaType.toList.contains '/' = true by decide)
    have hreply : w.reply (.putManifest reference document.body) =
        ⟨201, [("Docker-Content-Digest", sha256Digest P document.body)], []⟩ := rfl
    have hexpected : ∀ status ∈ [201], status < 400 ∨ status = 404 := by decide
    have hrequest : (client.request P (.putManifest reference document.body) [201] false
        defaultResponseBytes).Ensures setting.answered (fun _ _ => True) w (Prog.Exits (fun _ w' => w' = w)
        fun response w' => response = (w.reply (.putManifest reference document.body)).bounded ∧
          w' = w.apply (.putManifest reference document.body)) := by
      rw [request_attempt rfl]
      intro answer w' hanswer
      refine ⟨trivial, ?_⟩
      obtain ⟨⟨rfl, rfl⟩ | ⟨-, hfailure, -⟩, hnone⟩ := hanswer
      · rw [judge_deliver laws setting.policy (w.plain_reply _), Prog.ensures_ofExcept]
        exact ⟨rfl, rfl⟩
      · obtain rfl := hnone _ _ rfl hfailure
        obtain hagain | ⟨error, hraise⟩ := judge_failed (P := P) client defaultResponseBytes 0
          (client.attempt P (.putManifest reference document.body) [201] defaultResponseBytes 0) hexpected hfailure
        · rw [hagain]
          rfl
        · rw [hraise]
          rfl
    refine hrequest.bind ?_ fun _ _ h => h
    intro response w' h
    obtain ⟨rfl, rfl⟩ := h
    simp only [hreply, Reply.bounded, withLength_nil, header_digest, Option.getD_some, document.digest_eq, ne_eq,
      not_true_eq_false, if_false, hd, Action.lift_ok]
    exact ⟨hdigest, rfl⟩

/-- An operation that sends nothing, or a request on which the registry does not act. -/
def Op.Idle {binding : OciDistributionBinding} (policy : Policy P binding) (op : Op) : Prop :=
  op = .authorize ∨ ∃ request, op = .send request ∧ ∀ w : World policy, w.apply request = w

theorem idle_request {request : Request} (h : ∀ w : World setting.policy, w.apply request = w) (expected : List Nat)
    (retry : Bool) (maximumBytes : Nat) :
    (client.request P request expected retry maximumBytes).Uses (Op.Idle setting.policy) :=
  (uses_request client request expected retry maximumBytes).mono fun _ heq => .inr ⟨request, heq, h⟩

theorem idle_ping : (client.ping P).Uses (Op.Idle setting.policy) :=
  (idle_request (fun _ => rfl) _ _ _).bind fun _ => trivial

theorem idle_getManifest (reference : String) : (client.getManifest P reference).Uses (Op.Idle setting.policy) := by
  refine (reads_getManifest P client reference).mono fun op hop => ?_
  obtain ⟨request, heq, hreads⟩ := hop
  exact .inr ⟨request, heq, apply_reads hreads⟩

theorem idle_readRange (digest : String) (start finish : Nat) :
    (readRange P client digest start finish).Uses (Op.Idle setting.policy) := by
  refine Prog.Uses.bind ((Prog.uses_perform (.inl rfl)).bind fun _ => ?_) fun stream => uses_lift _
  exact ⟨.inr ⟨_, rfl, fun w => w.apply_getBlob digest _⟩, fun answer => uses_lift _⟩

theorem idle_getReferrers (subjectDigest artifactType : String) :
    (client.getReferrers P subjectDigest artifactType).Uses (Op.Idle setting.policy) := by
  refine (idle_request (fun _ => rfl) _ _ _).bind fun response => ?_
  split
  · trivial
  · refine (uses_lift _).bind fun value => ?_
    split
    · trivial
    · exact uses_lift _

theorem idle_ensures {α : Type} {program : Action α} (h : program.Uses (Op.Idle setting.policy))
    (w : World setting.policy) :
    program.Ensures setting.answered (fun _ _ => True) w fun _ w' => w' = w := by
  refine h.unchanged (fun _ => trivial) (fun op w answer w' hop henv => ?_) w
  obtain rfl | ⟨request, rfl, hidle⟩ := hop
  · exact henv.2
  obtain ⟨⟨-, rfl⟩ | ⟨-, -, rfl | rfl⟩, -⟩ := henv
  · exact hidle w
  · rfl
  · exact hidle w

theorem ping_ensures (laws : P.Lawful) (w : World setting.policy) :
    (client.ping P).Ensures setting.env (fun _ _ => True) w fun outcome w' => w' = w ∧
      ∀ error, outcome = .error error → setting.faults := by
  refine (request_read_ensures laws setting.reading (fun _ _ _ => trivial) rfl (by decide) fun _ => rfl).bind ?_ ?_
  · intro response w' h
    exact ⟨h.1.symm, fun _ h => by cases h⟩
  · intro error w' h
    exact ⟨h.1.symm, fun _ _ => h.2.resolve_right (not_refused_empty (by decide))⟩

theorem datetimeNow_ensures (w : World setting.policy) :
    datetimeNow.Ensures setting.answered (fun _ _ => True) w fun _ w' => w'.registry = w.registry := by
  intro answer w' hanswer
  refine ⟨trivial, ?_⟩
  have hsame : w'.registry = w.registry := by
    obtain ⟨now, -, -, rfl⟩ | ⟨-, -, rfl⟩ := hanswer <;> rfl
  cases answer with
  | error error => exact hsame
  | ok now => cases now <;> exact hsame

/-- A statement that raises leaves the variables as they are. -/
theorem tried_ensures {α : Type} {locals : Locals P} {action : Action α}
    {next : α → Action (Locals P × Option Err)} {w : World setting.policy}
    {R : Except Err α → World setting.policy → Prop}
    {Q : Except Err (Locals P × Option Err) → World setting.policy → Prop}
    (h : action.Ensures setting.answered (fun _ _ => True) w R)
    (hok : ∀ value w', R (.ok value) w' → (next value).Ensures setting.answered (fun _ _ => True) w' Q)
    (herror : ∀ error w', R (.error error) w' → Q (.ok (locals, some error)) w') :
    (tried locals action next).Ensures setting.answered (fun _ _ => True) w Q := by
  refine h.handle fun outcome w' houtcome => ?_
  cases outcome with
  | error error => exact herror error w' houtcome
  | ok value => exact hok value w' houtcome

/-- The digests that the variables name. -/
def canaries (anchor version : Option (OciDescriptor P)) : Set String :=
  {digest | digest ∈ anchor.map OciDescriptor.digest ∨ digest ∈ version.map OciDescriptor.digest}

@[simp] theorem canaries_none : canaries (none : Option (OciDescriptor P)) none = ∅ := by
  ext digest
  simp [canaries]

@[simp] theorem canaries_anchor (anchor : OciDescriptor P) : canaries (some anchor) none = {anchor.digest} := by
  ext digest
  simp [canaries, eq_comm]

@[simp] theorem canaries_both (anchor version : OciDescriptor P) :
    canaries (some anchor) (some version) = {version.digest, anchor.digest} := by
  ext digest
  simp [canaries, eq_comm, or_comm]

/-- The registry has nothing that is made from the token. -/
structure Fresh {binding : OciDistributionBinding} {policy : Policy P binding} (registry : Registry policy)
    (token : String) : Prop where
  anchorTag : registry.tags[anchorReference token]? = none
  versionTag : registry.tags[versionReference token]? = none
  anchor : registry.manifests[sha256Digest P (buildAnchorManifest P (objectIdHash P token))]? = none
  version : ∀ (anchor config payload : OciDescriptor P) (createdAt : String), registry.manifests[sha256Digest P
    (buildObjectManifest anchor config payload (objectIdHash P token) createdAt "immutable")]? = none

/-- What the block leaves: its variables name every canary that is in the registry. -/
def Named (first : World setting.policy) (outcome : Except Err (Locals P × Option Err))
    (w : World setting.policy) : Prop :=
  ∃ locals failure, outcome = .ok (locals, failure) ∧
    first.registry.Hosts w.registry (canaries locals.anchor locals.version)

/-- An upload adds no canary. -/
theorem uploadBlobBytes_hosts (laws : P.Lawful) {first : Registry setting.policy} {names : Set String}
    {w : World setting.policy} (h : first.Hosts w.registry names) (value : Bytes) {mediaType : String}
    (hmedia : mediaType.toList.contains '/' = true) :
    (client.uploadBlobBytes P value mediaType).Ensures setting.answered (fun _ _ => True) w
      fun _ w' => first.Hosts w'.registry names := by
  refine answered_ensures ((uploadBlobBytes_ensures laws w quiet_true value hmedia).mono ?_)
  intro outcome w' houtcome
  cases outcome with
  | error error => exact h.grows houtcome.1.registry
  | ok descriptor => exact h.grows (houtcome.2.2.2.silent laws).registry

/-- A deletion that returned took its canary away; one that raised may have. -/
theorem deleteManifest_hosts (laws : P.Lawful) {first : Registry setting.policy} {names : Set String}
    {w : World setting.policy} (h : first.Hosts w.registry names) {digest : String} (hin : digest ∈ names) :
    (client.deleteManifest P digest).Ensures setting.answered (fun _ _ => True) w fun outcome w' =>
      match outcome with
      | .ok _ => first.Hosts w'.registry (names \ {digest})
      | .error _ => first.Hosts w'.registry names := by
  obtain ⟨body, rfl⟩ := h.digests digest hin
  have hgone := World.hosts_deleteManifest h (h.absent _ hin)
  refine answered_ensures ((deleteManifest_ensures laws w (fun _ => trivial) body trivial).mono ?_)
  intro outcome w' houtcome
  match outcome with
  | .ok true =>
    rw [houtcome.1]
    exact hgone
  | .ok false =>
    rw [houtcome.1]
    exact hgone
  | .error _ =>
    obtain ⟨rfl | rfl, -⟩ := houtcome
    · exact h
    · exact hgone.mono Set.sdiff_subset h.digests h.absent

theorem deepTry_ensures (laws : P.Lawful) (first : World setting.policy) (token : String)
    (hfresh : Fresh first.registry token) :
    (deepTry P client token).Ensures setting.answered (fun _ _ => True) first (Named first) := by
  have hname : ∀ {locals : Locals P} {failure : Option Err} {w : World setting.policy} {names : Set String},
      canaries locals.anchor locals.version = names → first.registry.Hosts w.registry names →
      Named first (.ok (locals, failure)) w := by
    intro locals failure w names hnames h
    exact ⟨locals, failure, rfl, hnames ▸ h⟩
  unfold deepTry
  refine tried_ensures (idle_ensures idle_ping first) ?_ fun _ w hw => ?_
  case refine_2 =>
    rw [hw]
    exact hname canaries_none (.refl _)
  intro apiVersion w hw
  obtain rfl : w = first := hw
  -- nothing is pushed before the anchor
  refine tried_ensures (uploadBlobBytes_hosts laws (.refl w.registry) _ (by decide)) ?_
    fun _ _ h => hname canaries_none h
  intro payload w₁ h₁
  refine tried_ensures (uploadBlobBytes_hosts laws h₁ _ (by decide)) ?_ fun _ _ h => hname canaries_none h
  intro _ w₂ h₂
  refine tried_ensures (putManifest_answered laws w₂ _ _) ?_ fun _ w' hw' => ?_
  case refine_2 =>
    rw [hw']
    exact hname canaries_none h₂
  intro anchor w₃ hanchor
  have h₃ : w.registry.Hosts w₃.registry {anchor.digest} := by
    rw [hanchor.1, hanchor.2, ← LawfulSingleton.insert_empty_eq]
    exact h₂.put hfresh.anchorTag hfresh.anchor
  refine tried_ensures (uploadBlobBytes_hosts laws h₃ _ (by decide)) ?_ fun _ _ h => hname (canaries_anchor anchor) h
  intro config w₄ h₄
  refine tried_ensures (datetimeNow_ensures w₄) ?_ fun _ w' hw' => ?_
  case refine_2 =>
    refine hname (canaries_anchor anchor) ?_
    rw [hw']
    exact h₄
  intro now w₅ hw₅
  refine tried_ensures (putManifest_answered laws w₅ _ _) ?_ fun _ w' hw' => ?_
  case refine_2 =>
    refine hname (canaries_anchor anchor) ?_
    rw [hw', hw₅]
    exact h₄
  intro version w₆ hversion
  have h₆ : w.registry.Hosts w₆.registry {version.digest, anchor.digest} := by
    rw [hversion.1, hversion.2, World.apply_putManifest, hw₅]
    exact h₄.put hfresh.versionTag (hfresh.version _ _ _ _)
  -- what is read in between changes nothing
  refine tried_ensures (idle_ensures (idle_getManifest _) w₆) ?_ fun _ w' hw' => ?_
  case refine_2 =>
    rw [hw']
    exact hname (canaries_both anchor version) h₆
  intro pulled w₇ hw₇
  obtain rfl : w₇ = w₆ := hw₇
  refine tried_ensures (idle_ensures (idle_readRange _ _ _) w₇) ?_ fun _ w' hw' => ?_
  case refine_2 =>
    rw [hw']
    exact hname (canaries_both anchor version) h₆
  intro value w₈ hw₈
  obtain rfl : w₈ = w₇ := hw₈
  refine tried_ensures (idle_ensures (idle_getReferrers _ _) w₈) ?_ fun _ w' hw' => ?_
  case refine_2 =>
    rw [hw']
    exact hname (canaries_both anchor version) h₆
  intro discovered w₉ hw₉
  obtain rfl : w₉ = w₈ := hw₉
  dsimp only
  split
  · exact hname (canaries_both anchor version) h₆
  split
  · refine tried_ensures (deleteManifest_hosts laws h₆ (Set.mem_insert _ _)) ?_ fun _ _ h => ?_
    case refine_2 => exact hname (canaries_both anchor version) h
    intro deletion w₁₀ h₁₀
    have hanchor' : w.registry.Hosts w₁₀.registry {anchor.digest} := by
      refine h₁₀.mono ?_ h₃.digests h₃.absent
      rintro digest ⟨rfl | hin, hnot⟩
      · exact absurd rfl hnot
      · exact hin
    refine tried_ensures (deleteManifest_hosts laws hanchor' rfl) ?_ fun _ _ h => ?_
    case refine_2 => exact hname (canaries_anchor anchor) h
    intro removed w₁₁ h₁₁
    refine hname canaries_none ?_
    rw [Set.sdiff_self] at h₁₁
    exact h₁₁
  · exact hname (canaries_both anchor version) h₆

/-! ## The cleanup -/

/-- A deletion that gets its answer takes the canary away, and does not raise. -/
theorem deleteSafely_ensures (laws : P.Lawful) {first : Registry setting.policy} {names : Set String}
    {w : World setting.policy} (h : first.Hosts w.registry names) {descriptor : Option (OciDescriptor P)}
    (hdigest : ∀ digest ∈ descriptor.map OciDescriptor.digest,
      (∃ body, digest = sha256Digest P body) ∧ first.manifests[digest]? = none) :
    (deleteSafely P client descriptor).Ensures setting.faultless.env (fun _ _ => True) w fun outcome w' =>
      outcome = .ok () ∧
        first.Hosts w'.registry (names \ {digest | digest ∈ descriptor.map OciDescriptor.digest}) := by
  cases descriptor with
  | none =>
    show _ ∧ first.Hosts w.registry _
    simpa using h
  | some descriptor =>
    obtain ⟨⟨body, hbody⟩, habsent⟩ := hdigest descriptor.digest rfl
    have hset : {digest | digest ∈ (some descriptor).map OciDescriptor.digest} = {descriptor.digest} := by
      ext digest
      simp [eq_comm]
    rw [hset]
    dsimp only [deleteSafely]
    rw [hbody] at habsent ⊢
    have hdelete := @deleteManifest_ensures P laws client setting.faultless (fun _ _ => True) w (fun _ => trivial) body
      trivial
    refine Prog.Ensures.handle (R := fun _ w' => first.Hosts w'.registry (names \ {sha256Digest P body})) ?_
      fun outcome w' h => ⟨rfl, h⟩
    refine hdelete.bind ?_ ?_
    · intro deleted w' hw'
      show first.Hosts w'.registry _
      cases deleted with
      | true =>
        rw [hw'.1]
        exact World.hosts_deleteManifest h habsent
      | false =>
        rw [hw'.1]
        exact World.hosts_deleteManifest h habsent
    · intro error w' hw'
      exact hw'.2.elim

/-- The cleanup takes away what the variables name. -/
theorem deepFinally_ensures (laws : P.Lawful) (hdeletion : client.binding.deletionEnabled = true)
    {first : Registry setting.policy} {w : World setting.policy} {locals : Locals P}
    (h : first.Hosts w.registry (canaries locals.anchor locals.version)) :
    (deepFinally P client locals).Ensures setting.faultless.env (fun _ _ => True) w fun outcome w' =>
      outcome = .ok () ∧ first.Hosts w'.registry ∅ := by
  have hnamed : ∀ digest ∈ canaries locals.anchor locals.version,
      (∃ body, digest = sha256Digest P body) ∧ first.manifests[digest]? = none := fun digest hin =>
    ⟨h.digests digest hin, h.absent digest hin⟩
  have hnone : (canaries locals.anchor locals.version \
      {digest | digest ∈ locals.version.map OciDescriptor.digest}) \
        {digest | digest ∈ locals.anchor.map OciDescriptor.digest} = ∅ := by
    ext digest
    simp only [canaries, Set.mem_sdiff, Set.mem_ofPred_eq, Set.mem_empty_iff_false, iff_false]
    tauto
  unfold deepFinally
  rw [if_pos hdeletion]
  refine (deleteSafely_ensures laws h fun digest hin => hnamed digest (.inr hin)).bind ?_ ?_
  · intro _ w₁ h₁
    refine (deleteSafely_ensures laws h₁.2 fun digest hin => hnamed digest (.inl hin)).mono fun _ w₂ h₂ => ?_
    rw [← hnone]
    exact h₂
  · intro error w₁ h₁
    cases h₁.1

end Block

/-! ## What was observed -/

section Answers

variable {client : RegistryHttpClient} {σ : Type} {env : Environment Op Op.Res Err σ} {s s' : σ}
variable {trace : List (Effect.Exchange Op Op.Res Err)}

/-- The client got this response to a request. -/
def Got (P : Platform) (request : Request) (maximumBytes : Nat) (trace : List (Effect.Exchange Op Op.Res Err))
    (response : BoundedResponse) : Prop :=
  ∃ raw, ⟨.send request, .ok raw⟩ ∈ trace ∧ boundedResponse P raw maximumBytes = .ok response

theorem Got.within {request : Request} {maximumBytes : Nat} {response : BoundedResponse}
    (h : Got P request maximumBytes trace response) {whole : List (Effect.Exchange Op Op.Res Err)}
    (hsub : trace ⊆ whole) : Got P request maximumBytes whole response := by
  obtain ⟨raw, hmem, hbounded⟩ := h
  exact ⟨raw, hsub hmem, hbounded⟩

/-- A request that returns was answered. -/
theorem request_got {request : Request} {expected : List Nat} {retry : Bool} {maximumBytes : Nat}
    {response : BoundedResponse}
    (h : Traces env (client.request P request expected retry maximumBytes) s trace (.ok response) s') :
    Got P request maximumBytes trace response ∧ response.status ∈ expected := by
  unfold RegistryHttpClient.request at h
  cases hbuild : request.target.build P with
  | error error =>
    rw [hbuild] at h
    cases h
  | ok _ => ?_
  rw [hbuild] at h
  dsimp only at h
  generalize (if retry then client.maxReadAttempts else 1) = total at h
  induction total generalizing s trace with
  | zero => cases h
  | succ left ih =>
    cases h with
    | call _ _ _ s₁ _ answer trace _ hanswer hrest =>
      obtain hagain | ⟨error, hraise⟩ | ⟨bounded, raw, hret, rfl, -, hbounded, hstatus⟩ :=
        judge_cases (P := P) client expected maximumBytes left
          (client.attempt P request expected maximumBytes left) answer
      · rw [hagain] at hrest
        obtain ⟨hgot, hin⟩ := ih hrest
        exact ⟨hgot.within (List.subset_cons_self _ _), hin⟩
      · rw [hraise] at hrest
        cases hrest
      · rw [hret] at hrest
        cases hrest
        exact ⟨⟨raw, List.mem_cons_self, hbounded⟩, hstatus⟩

/-- What a method makes of the response that it got. -/
theorem request_then {α : Type} {request : Request} {expected : List Nat} {retry : Bool} {maximumBytes : Nat}
    {next : BoundedResponse → Action α} {value : α} {R : BoundedResponse → α → Prop}
    (h : Traces env (client.request P request expected retry maximumBytes >>= next) s trace (.ok value) s')
    (hreturns : ∀ response, (next response).Returns (R response)) :
    ∃ response, Got P request maximumBytes trace response ∧ response.status ∈ expected ∧ R response value := by
  obtain ⟨error, -, heq⟩ | ⟨response, front, s₁, rest, rfl, hfront, hrest⟩ := h.of_bind
  · cases heq
  · obtain ⟨hgot, hin⟩ := request_got hfront
    exact ⟨response, hgot.within (List.subset_append_left _ _), hin, hrest.returns (hreturns response)⟩

theorem OciDescriptor_new_digest {mediaType digest : String} {size : Nat} {descriptor : OciDescriptor P}
    (h : OciDescriptor.new P mediaType digest size = .ok descriptor) : descriptor.digest = digest := by
  unfold OciDescriptor.new at h
  split at h
  · split at h
    · rw [← Except.ok.inj h]
    · cases h
  · cases h

theorem putManifest_traces {reference : String} {body : Bytes} {descriptor : OciDescriptor P}
    (h : Traces env (client.putManifest P reference body) s trace (.ok descriptor) s') :
    descriptor.digest = sha256Digest P body ∧ ∃ response,
      Got P (.putManifest reference body) defaultResponseBytes trace response ∧ response.status = 201 := by
  unfold RegistryHttpClient.putManifest at h
  cases hparse : ManifestDocument.parse P body none client.binding.maxManifestBytes with
  | error error =>
    rw [hparse] at h
    cases h
  | ok document =>
    rw [hparse] at h
    obtain ⟨rfl, -, -⟩ := ManifestDocument.parse_ok hparse
    obtain ⟨response, hgot, hstatus, hdigest⟩ := request_then
      (R := fun _ descriptor => descriptor.digest = sha256Digest P document.body) h fun response => by
        split
        · trivial
        · cases hnew : OciDescriptor.new P ociManifestMediaType document.digest document.body.length with
          | error error => trivial
          | ok descriptor =>
            show descriptor.digest = _
            rw [OciDescriptor_new_digest hnew, document.digest_eq]
    exact ⟨hdigest, response, hgot, List.mem_singleton.mp hstatus⟩

theorem getManifest_traces {reference : String} {document : ManifestDocument P}
    (h : Traces env (client.getManifest P reference) s trace (.ok document) s') :
    ∃ response, Got P (.getManifest reference) client.binding.maxManifestBytes trace response ∧
      response.status = 200 ∧ document.body = response.content := by
  obtain ⟨response, hgot, hstatus, hbody⟩ := request_then
    (R := fun response document => document.body = response.content) h fun response => by
      dsimp only
      generalize hexpected : (if ['s', 'h', 'a', '2', '5', '6', ':'].isPrefixOf reference.toList then some reference
        else none) = expected
      cases hparse : ManifestDocument.parse P response.content expected client.binding.maxManifestBytes with
      | error error =>
        dsimp only
        split <;> trivial
      | ok document =>
        dsimp only
        split
        · trivial
        split
        · trivial
        · exact (ManifestDocument.parse_ok hparse).1
  exact ⟨response, hgot, List.mem_singleton.mp hstatus, hbody⟩

theorem deleteManifest_traces {digest : String}
    (h : Traces env (client.deleteManifest P digest) s trace (.ok true) s') :
    ∃ response, Got P (.deleteManifest digest) defaultResponseBytes trace response ∧ response.status = 202 := by
  obtain ⟨response, hgot, hstatus, hdeleted⟩ := request_then
    (R := fun response deleted => deleted = decide (response.status ≠ 404)) h fun response => rfl
  have hne : response.status ≠ 404 := of_decide_eq_true hdeleted.symm
  rw [List.mem_cons, List.mem_singleton] at hstatus
  exact ⟨response, hgot, hstatus.resolve_right hne⟩

/-- Descriptors that were found were listed in the answer. -/
theorem getReferrers_traces {subjectDigest artifactType : String} {discovered : List (OciDescriptor P)}
    (h : Traces env (client.getReferrers P subjectDigest artifactType) s trace (.ok discovered) s') :
    discovered = [] ∨ ∃ response value, Got P (.getReferrers subjectDigest artifactType)
        client.binding.maxManifestBytes trace response ∧ response.status = 200 ∧
      loadJson P response.content = .ok (some value) ∧ RegistryHttpClient.referrersOf P value = .ok discovered := by
  obtain ⟨response, hgot, hstatus, hfound⟩ := request_then
    (R := fun response discovered => (response.status = 404 ∧ discovered = []) ∨ ∃ value, response.status ≠ 404 ∧
      loadJson P response.content = .ok (some value) ∧
        RegistryHttpClient.referrersOf P value = .ok discovered) h fun response => by
      split
      · rename_i hmissing
        exact .inl ⟨hmissing, rfl⟩
      · rename_i hthere
        cases hload : loadJson P response.content with
        | error error => trivial
        | ok value =>
          cases value with
          | none => trivial
          | some value =>
            cases hreferrers : RegistryHttpClient.referrersOf P value with
            | error error =>
              dsimp only [Action.lift_ok, Prog.ret_bind]
              rw [hreferrers]
              trivial
            | ok discovered =>
              dsimp only [Action.lift_ok, Prog.ret_bind]
              rw [hreferrers]
              exact .inr ⟨value, hthere, rfl, hreferrers⟩
  rcases hfound with ⟨-, hnone⟩ | ⟨value, hthere, hload, hreferrers⟩
  · exact .inl hnone
  · rw [List.mem_cons, List.mem_singleton] at hstatus
    exact .inr ⟨response, value, hgot, hstatus.resolve_right hthere, hload, hreferrers⟩

/-- A range that was read came in one answer that did not break off. -/
theorem readRange_traces {digest : String} {start finish : Nat} {value : Bytes}
    (h : Traces env (readRange P client digest start finish) s trace (.ok value) s') :
    ∃ raw, ⟨.send (.getBlob digest (some (start, finish))), .ok raw⟩ ∈ trace ∧ raw.status = 206 ∧
      raw.failure = none ∧ raw.chunks.flatten = value := by
  obtain ⟨error, -, heq⟩ | ⟨stream, front, s₁, rest, rfl, hopen, hlast⟩ := h.of_bind
  · cases heq
  obtain ⟨rfl, hread, -⟩ := hlast.of_except
  obtain ⟨answer, s₂, front, rfl, -, hsend⟩ := hopen.of_perform
  cases answer with
  | error error => cases hsend
  | ok _ => ?_
  cases hsend with
  | call _ _ _ s₃ _ answer trace _ hanswer hrest =>
    dsimp only at hrest
    cases answer with
    | error error =>
      cases hopened : client.blobStream P ⟨digest, some (start, finish)⟩ (.error error) with
      | error raised =>
        rw [hopened] at hrest
        cases hrest
      | ok stream =>
        rw [blobStream_error] at hopened
        split at hopened <;> cases hopened
    | ok raw =>
      cases hopened : client.blobStream P ⟨digest, some (start, finish)⟩ (.ok raw) with
      | error raised =>
        rw [hopened] at hrest
        cases hrest
      | ok stream =>
        rw [hopened] at hrest
        cases hsafe : requireSafeResponseUrl P client.binding raw.url with
        | error error =>
          rw [RegistryHttpClient.blobStream, hsafe] at hopened
          cases hopened
        | ok _ =>
          obtain ⟨hstatus, -, rfl⟩ := (blobStream_ok_iff hsafe).mp hopened
          obtain ⟨rfl, hsame, -⟩ := hrest.of_except
          obtain rfl := Except.ok.inj hsame
          cases hfailure : raw.failure with
          | some failure =>
            rw [IteratorReader.read_all rfl (show (IteratorReader.new ⟨raw.chunks, raw.failure⟩).failure = some failure
              from hfailure)] at hread
            cases hread
          | none =>
            refine ⟨raw, by simp, hstatus, hfailure, ?_⟩
            rw [hfailure] at hread
            exact (Except.ok.inj hread).symm

theorem returns_new {mediaType digest : String} {size : Nat} :
    (Action.lift (OciDescriptor.new P mediaType digest size)).Returns fun descriptor => descriptor.digest = digest := by
  cases hnew : OciDescriptor.new P mediaType digest size with
  | error error => trivial
  | ok descriptor => exact OciDescriptor_new_digest hnew

theorem uploadBlobBytes_returns (value : Bytes) (mediaType : String) :
    (client.uploadBlobBytes P value mediaType).Returns fun descriptor => descriptor.digest = sha256Digest P value := by
  unfold RegistryHttpClient.uploadBlobBytes
  refine Prog.returns_bind fun existing => ?_
  cases existing with
  | some existing =>
    dsimp only
    split
    · trivial
    · exact returns_new
  | none => exact Prog.returns_bind fun upload => Prog.returns_bind fun _ => returns_new

/-- A block that ended without an exception went on after every statement. -/
theorem tried_ok {α : Type} {locals after : Locals P} {action : Action α}
    {next : α → Action (Locals P × Option Err)}
    (h : Traces env (tried locals action next) s trace (.ok (after, none)) s') :
    ∃ value front s₁ rest, trace = front ++ rest ∧ Traces env action s front (.ok value) s₁ ∧
      Traces env (next value) s₁ rest (.ok (after, none)) s' := by
  obtain ⟨front, outcome, s₁, rest, rfl, hfront, hrest⟩ := h.of_handle
  cases outcome with
  | error error => cases hrest
  | ok value => exact ⟨value, front, s₁, rest, rfl, hfront, hrest⟩

variable (P client) in
/-- The answers that a probe which passed has seen; `body` is the canary version. -/
structure Observed (token : String) (body : Bytes) (trace : List (Effect.Exchange Op Op.Res Err)) : Prop where
  pushed : ∃ response, Got P (.putManifest (versionReference token) body) defaultResponseBytes trace response ∧
    response.status = 201
  pulled : ∃ response, Got P (.getManifest (versionReference token)) client.binding.maxManifestBytes trace response ∧
    response.status = 200 ∧ response.content = body
  range : ∃ raw, ⟨.send (.getBlob (sha256Digest P payloadValue) (some (1, 3))), .ok raw⟩ ∈ trace ∧ raw.status = 206 ∧
    raw.failure = none ∧ raw.chunks.flatten = (payloadValue.take 4).drop 1
  referrers : client.binding.referrersRequired = true → ∃ response value discovered,
    Got P (.getReferrers (sha256Digest P (buildAnchorManifest P (objectIdHash P token))) meridianObjectArtifactType)
      client.binding.maxManifestBytes trace response ∧ response.status = 200 ∧
    loadJson P response.content = .ok (some value) ∧ RegistryHttpClient.referrersOf P value = .ok discovered ∧
    ∃ item ∈ discovered, item.digest = sha256Digest P body
  versionDeleted : ∃ response, Got P (.deleteManifest (sha256Digest P body)) defaultResponseBytes trace response ∧
    response.status = 202
  anchorDeleted : ∃ response,
    Got P (.deleteManifest (sha256Digest P (buildAnchorManifest P (objectIdHash P token)))) defaultResponseBytes trace
      response ∧ response.status = 202

/-- A report that says passed goes back to what was answered. -/
theorem deepTry_observed (laws : P.Lawful) (hdeletion : client.binding.deletionEnabled = true) {token : String}
    {locals : Locals P} {failure : Option Err}
    (h : Traces env (deepTry P client token) s trace (.ok (locals, failure)) s')
    (hpassed : (deepReport P client locals failure).passed = true) : ∃ body, Observed P client token body trace := by
  cases failure with
  | some error => cases hpassed
  | none => ?_
  unfold deepTry at h
  obtain ⟨apiVersion, t₁, s₁, r₁, rfl, -, h⟩ := tried_ok h
  obtain ⟨payload, t₂, s₂, r₂, rfl, hpayload, h⟩ := tried_ok h
  obtain ⟨-, t₃, s₃, r₃, rfl, -, h⟩ := tried_ok h
  obtain ⟨anchor, t₄, s₄, r₄, rfl, hanchor, h⟩ := tried_ok h
  obtain ⟨config, t₅, s₅, r₅, rfl, -, h⟩ := tried_ok h
  obtain ⟨now, t₆, s₆, r₆, rfl, -, h⟩ := tried_ok h
  obtain ⟨version, t₇, s₇, r₇, rfl, hversion, h⟩ := tried_ok h
  obtain ⟨pulled, t₈, s₈, r₈, rfl, hpulled, h⟩ := tried_ok h
  obtain ⟨value, t₉, s₉, r₉, rfl, hvalue, h⟩ := tried_ok h
  obtain ⟨discovered, t₁₀, s₁₀, r₁₀, rfl, hdiscovered, h⟩ := tried_ok h
  dsimp only at h
  have hrequired : (client.binding.referrersRequired &&
      !discovered.any fun item => decide (item.digest = version.digest)) = false := by
    cases hwhich : (client.binding.referrersRequired &&
      !discovered.any fun item => decide (item.digest = version.digest)) with
    | false => rfl
    | true =>
      rw [if_pos hwhich] at h
      cases h
  rw [hrequired, if_neg Bool.false_ne_true, if_pos hdeletion] at h
  obtain ⟨deletion, t₁₁, s₁₁, r₁₁, rfl, hdeleted, h⟩ := tried_ok h
  obtain ⟨removed, t₁₂, s₁₂, r₁₂, rfl, hremoved, h⟩ := tried_ok h
  cases h
  have hpayload' : payload.digest = sha256Digest P payloadValue := hpayload.returns (uploadBlobBytes_returns _ _)
  obtain ⟨hanchor', -⟩ := putManifest_traces hanchor
  obtain ⟨hversion', hpushed⟩ := putManifest_traces hversion
  obtain ⟨response, hgot, hstatus, hbody⟩ := getManifest_traces hpulled
  simp only [deepReport, hdeletion, Bool.not_true, Bool.false_or, Bool.and_eq_true, decide_eq_true_eq,
    Bool.or_eq_true] at hpassed
  obtain ⟨⟨⟨hsame, hread⟩, -⟩, hgone, hgone'⟩ := hpassed
  subst hgone hgone'
  generalize buildObjectManifest anchor config payload (objectIdHash P token) (P.timestamp now) "immutable" = body at *
  rw [hpayload', hread] at hvalue
  rw [hversion'] at hdeleted hsame hrequired
  rw [hanchor'] at hdiscovered hremoved
  refine ⟨body, ?_, ⟨response, hgot.within ?_, hstatus, ?_⟩, ?_, fun hneeded => ?_, ?_, ?_⟩
  · obtain ⟨response, hgot, hstatus⟩ := hpushed
    exact ⟨response, hgot.within fun _ hmem => by simp [hmem], hstatus⟩
  · exact fun _ hmem => by simp [hmem]
  · rw [pulled.digest_eq] at hsame
    rw [← hbody]
    exact sha256Digest_injective laws hsame
  · obtain ⟨raw, hmem, hraw⟩ := readRange_traces hvalue
    exact ⟨raw, by simp [hmem], hraw⟩
  · rw [hneeded, Bool.true_and, Bool.not_eq_false'] at hrequired
    obtain ⟨item, hitem, hfound⟩ := List.any_eq_true.mp hrequired
    obtain hnone | ⟨response, listed, hgot, hstatus, hload, hreferrers⟩ := getReferrers_traces hdiscovered
    · rw [hnone] at hitem
      cases hitem
    · exact ⟨response, listed, discovered, hgot.within fun _ hmem => by simp [hmem], hstatus, hload, hreferrers, item,
        hitem, of_decide_eq_true hfound⟩
  · obtain ⟨response, hgot, hstatus⟩ := deleteManifest_traces hdeleted
    exact ⟨response, hgot.within fun _ hmem => by simp [hmem], hstatus⟩
  · obtain ⟨response, hgot, hstatus⟩ := deleteManifest_traces hremoved
    exact ⟨response, hgot.within fun _ hmem => by simp [hmem], hstatus⟩

end Answers

/-! ## The whole probe -/

section Deep

variable {client : RegistryHttpClient} {setting : Setting P client.binding}

/-- The parts of such a call make a call. -/
theorem traces_deep {σ : Type} {env : Environment Op Op.Res Err σ} {s s₀ s₁ s' : σ} {token : String}
    {front rest : List (Effect.Exchange Op Op.Res Err)} {locals : Locals P} {failure : Option Err}
    (htoken : env .token s (.ok token) s₀) (hblock : Traces env (deepTry P client token) s₀ front (.ok (locals, failure)) s₁)
    (hcleanup : Traces env (deepFinally P client locals) s₁ rest (.ok ()) s') :
    Traces env (deep P client) s (⟨.token, .ok token⟩ :: (front ++ rest)) (.ok (deepReport P client locals failure)) s' := by
  have hreport : Traces env (deepFinally P client locals >>= fun _ => pure (deepReport P client locals failure)) s₁
      (rest ++ []) (.ok (deepReport P client locals failure)) s' := hcleanup.bind_ok (.ret _ _)
  rw [List.append_nil] at hreport
  have hrest : Traces env (deepTry P client token >>= fun outcome => deepFinally P client outcome.1 >>= fun _ =>
      pure (deepReport P client outcome.1 outcome.2)) s₀ (front ++ rest)
      (.ok (deepReport P client locals failure)) s' := hblock.bind_ok hreport
  exact (Traces.perform htoken).bind_ok hrest

variable (client) in
/-- A call of `deep` that returns. The answers of its block come from one environment, those of its
cleanup from the registry. -/
structure Tended (setting : Setting P client.binding) {σ : Type} (block : Environment Op Op.Res Err σ)
    (world : σ → World setting.policy) (token : String) (s s' : σ) (front rest : List (Effect.Exchange Op Op.Res Err))
    (report : OciProbeReport) : Prop where
  returned : Traces block (deep P client) s (⟨.token, .ok token⟩ :: (front ++ rest)) (.ok report) s'
  cleaned : ∃ s₀ locals failure s₁, block .token s (.ok token) s₀ ∧
    Traces block (deepTry P client token) s₀ front (.ok (locals, failure)) s₁ ∧
    Traces setting.faultless.env (deepFinally P client locals) (world s₁) rest (.ok ()) (world s') ∧
    report = deepReport P client locals failure

variable (client) in
/-- The manifests and tags are those from before, and a report that says passed has seen it all
succeed. -/
def CleansUp (setting : Setting P client.binding) {σ : Type} (block : Environment Op Op.Res Err σ)
    (world : σ → World setting.policy) : Prop :=
  ∀ (token : String) (s s' : σ) (front rest : List (Effect.Exchange Op Op.Res Err)) (report : OciProbeReport),
    Fresh (world s).registry token → Tended client setting block world token s s' front rest report →
    ((world s').registry.manifests = (world s).registry.manifests ∧
        (world s').registry.tags = (world s).registry.tags) ∧
      (report.passed = true → ∃ body, Observed P client token body front)

/-- Calls may fail anywhere, any number of times, if no manifest is pushed without its answer. -/
theorem probe_cleans (laws : P.Lawful) (hdeletion : client.binding.deletionEnabled = true) :
    CleansUp client setting setting.answered id := by
  intro token w w' front rest report hfresh hrun
  obtain ⟨w₀, locals, failure, w₁, htoken, hblock, hcleanup, rfl⟩ := hrun.cleaned
  obtain rfl : w₀ = w := htoken.2
  obtain ⟨named, raised, heq, hhosts⟩ := hblock.ensures (deepTry_ensures laws w₀ token hfresh)
  cases heq
  obtain ⟨-, hnone⟩ := hcleanup.ensures (deepFinally_ensures laws hdeletion hhosts)
  exact ⟨hnone.unchanged, deepTry_observed laws hdeletion hblock⟩

end Deep

namespace Sample

open MeridianOci.Model.Sample

/-- A registry without content has room for every token. -/
theorem fresh_empty {limit : Nat} {faults : Prop} (token : String) :
    Fresh (World.empty (Sample.setting limit faults).policy (.aware 0)).registry token := by
  refine ⟨?_, ?_, ?_, fun _ _ _ _ => ?_⟩ <;> simp [World.empty, Registry.empty]

/-- Without faults a program has a trace, also in an environment that allows more. -/
theorem exists_traces (limit : Nat) {α : Type} (program : Action α) (w : World (Sample.setting limit False).policy) :
    ∃ trace outcome w', Traces (Sample.setting limit False).env program w trace outcome w' := by
  obtain ⟨outcome, w', hperforms⟩ := (responsive limit False).performs program w
  obtain ⟨trace, htrace⟩ := hperforms.traces
  exact ⟨trace, outcome, w', htrace⟩

/-- In an empty repository, every call answered. -/
theorem probe_cleans_empty : ∃ w' front rest report,
    Tended (Sample.adapter 0).transport (Sample.setting 0 True) (Sample.setting 0 True).answered id "t"
      (World.empty _ (.aware 0)) w' front rest report ∧
    (w'.registry.manifests = (World.empty (Sample.setting 0 True).policy (.aware 0)).registry.manifests ∧
      w'.registry.tags = (World.empty (Sample.setting 0 True).policy (.aware 0)).registry.tags) := by
  obtain ⟨front, first, w₁, hfirst⟩ := exists_traces 0 (deepTry platform (Sample.adapter 0).transport "t")
    (World.empty (Sample.setting 0 True).policy (.aware 0))
  have hblock : Traces (Sample.setting 0 True).answered (deepTry platform (Sample.adapter 0).transport "t")
      (World.empty _ (.aware 0)) front first w₁ := hfirst.mono fun _ _ _ _ => answered_faultless
  obtain ⟨locals, failure, rfl, hhosts⟩ := hblock.ensures (deepTry_ensures lawful _ "t" (fresh_empty "t"))
  obtain ⟨rest, outcome, w', hcleanup⟩ := exists_traces 0 (deepFinally platform (Sample.adapter 0).transport locals) w₁
  obtain ⟨rfl, -⟩ := hcleanup.ensures (deepFinally_ensures lawful rfl hhosts)
  have htoken : (Sample.setting 0 True).answered .token (World.empty _ (.aware 0)) (.ok "t")
      (World.empty _ (.aware 0)) := ⟨.inl ⟨"t", rfl⟩, rfl⟩
  have hrun : Tended (Sample.adapter 0).transport (Sample.setting 0 True) (Sample.setting 0 True).answered id "t"
      (World.empty _ (.aware 0)) w' front rest (deepReport platform (Sample.adapter 0).transport locals failure) :=
    ⟨traces_deep htoken hblock (hcleanup.mono fun _ _ _ _ => answered_faultless), _, locals, failure, w₁, htoken, hblock,
      hcleanup, rfl⟩
  exact ⟨w', front, rest, _, hrun,
    (@probe_cleans platform _ (Sample.setting 0 True) lawful rfl "t" _ w' front rest _ (fresh_empty "t") hrun).1⟩

/-- The anchor is pushed and its answer is lost: the canary stays. -/
theorem probe_leftover : ∃ limit w' front rest report,
    Tended (Sample.adapter limit).transport (Sample.setting limit True)
      ((Sample.setting limit True).faultless.env.once (Sample.setting limit True).env) Prod.fst "t"
      (World.empty _ (.aware 0), false) (w', true) front rest report ∧
    ⟨.send (.putManifest (anchorReference "t") (buildAnchorManifest platform (objectIdHash platform "t"))),
      .error { kind := .httpError }⟩ ∈ front ∧
    w'.registry.tags[anchorReference "t"]? =
      some (sha256Digest platform (buildAnchorManifest platform (objectIdHash platform "t"))) ∧
    ¬CleansUp (Sample.adapter limit).transport (Sample.setting limit True)
      ((Sample.setting limit True).faultless.env.once (Sample.setting limit True).env) Prod.fst := by
  obtain ⟨limit, hlength⟩ : ∃ limit, (anchorBody platform "t").length ≤ 1024 + limit := ⟨_, Nat.le_add_left _ _⟩
  obtain ⟨t₁, outcome₁, w₁, hping⟩ := exists_traces limit ((Sample.adapter limit).transport.ping platform)
    (World.empty _ (.aware 0))
  obtain ⟨rfl, hok₁⟩ := hping.ensures (ping_ensures lawful _)
  obtain ⟨t₂, outcome₂, w₂, hpayload⟩ := exists_traces limit ((Sample.adapter limit).transport.uploadBlobBytes platform
    payloadValue "application/octet-stream") (World.empty _ (.aware 0))
  have hok₂ := hpayload.ensures (uploadBlobBytes_ensures lawful _ quiet_true _ (by decide))
  obtain ⟨t₃, outcome₃, w₃, hempty⟩ := exists_traces limit ((Sample.adapter limit).transport.uploadBlobBytes platform
    emptyJson "application/vnd.oci.empty.v1+json") w₂
  have hok₃ := hempty.ensures (uploadBlobBytes_ensures lawful w₂ quiet_true _ (by decide))
  cases outcome₁ with
  | error error => exact (hok₁ error rfl).elim
  | ok apiVersion => ?_
  cases outcome₂ with
  | error error => exact hok₂.2.elim
  | ok payload => ?_
  cases outcome₃ with
  | error error => exact hok₃.2.elim
  | ok descriptor => ?_
  obtain ⟨document, hparse, hbody⟩ := parse_anchorBody lawful hlength
  let lost : World (Sample.setting limit True).policy :=
    World.apply w₃ (.putManifest (anchorReference "t") (buildAnchorManifest platform (objectIdHash platform "t")))
  have hput : Traces ((Sample.setting limit True).faultless.env.once (Sample.setting limit True).env)
      ((Sample.adapter limit).transport.putManifest platform (anchorReference "t")
        (buildAnchorManifest platform (objectIdHash platform "t"))) (w₃, false)
      [⟨.send (.putManifest (anchorReference "t") (buildAnchorManifest platform (objectIdHash platform "t"))),
        .error { kind := .httpError }⟩]
      (.error (.of .objectUnavailable "OCI registry request failed")) (lost, true) := by
    have hparse' : ManifestDocument.parse platform (buildAnchorManifest platform (objectIdHash platform "t")) none
        (Sample.adapter limit).transport.binding.maxManifestBytes = .ok document := hparse
    rw [RegistryHttpClient.putManifest, hparse', Action.lift_ok, Prog.ret_bind]
    refine Traces.bind_error ?_
    rw [request_attempt rfl]
    exact .call _ _ _ (lost, true) _ _ _ _ (.inr ⟨rfl, rfl, .inr ⟨trivial, trivial, .inr rfl⟩⟩) (.raise _ _)
  have hblock : Traces ((Sample.setting limit True).faultless.env.once (Sample.setting limit True).env)
      (deepTry platform (Sample.adapter limit).transport "t") (World.empty _ (.aware 0), false)
      (t₁ ++ (t₂ ++ (t₃ ++ (_ ++ [])))) (.ok ({ apiVersion := apiVersion }, _)) (lost, true) :=
    (hping.once false).handle ((hpayload.once false).handle ((hempty.once false).handle (hput.handle (.ret _ _))))
  have htoken : ((Sample.setting limit True).faultless.env.once (Sample.setting limit True).env) .token
      (World.empty _ (.aware 0), false) (.ok "t") (World.empty _ (.aware 0), false) :=
    .inl ⟨⟨.inl ⟨"t", rfl⟩, rfl⟩, rfl⟩
  have hrun : Tended (Sample.adapter limit).transport (Sample.setting limit True)
      ((Sample.setting limit True).faultless.env.once (Sample.setting limit True).env) Prod.fst "t"
      (World.empty _ (.aware 0), false) (lost, true) (t₁ ++ (t₂ ++ (t₃ ++ (_ ++ [])))) []
      (deepReport platform (Sample.adapter limit).transport { apiVersion := apiVersion } _) :=
    ⟨traces_deep htoken hblock (.ret () _), _, _, _, _, htoken, hblock, .ret () _, rfl⟩
  have hpushed : lost.registry.tags[anchorReference "t"]? =
      some (sha256Digest platform (buildAnchorManifest platform (objectIdHash platform "t"))) :=
    (Table.get?_insert w₃.registry.tags _ _ _).trans (if_pos rfl)
  refine ⟨limit, lost, _, [], _, hrun, by simp, hpushed, fun hclaim => ?_⟩
  obtain ⟨⟨-, htags⟩, -⟩ := hclaim "t" _ _ _ _ _ (fresh_empty "t") hrun
  have htag : lost.registry.tags[anchorReference "t"]? = none :=
    (congrArg (fun tags : Table String => tags[anchorReference "t"]?) htags).trans (fresh_empty "t").anchorTag
  rw [hpushed] at htag
  cases htag

end Sample

end MeridianOci.Service
