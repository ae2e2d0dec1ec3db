import MeridianOci.Service.Conflict
import MeridianOci.Service.Equivalence
import MeridianOci.Service.Handles
import MeridianOci.Service.Streams

/-!
# A conflict among others

A put or a completion of one process beside anything that other processes do. What its
requests have changed of the tags when it raises a conflict: the anchor, and if the
registry refused the PUT of the latest tag, also the exact tag of one version.
-/
namespace MeridianOci.Service

open MeridianOci.Data MeridianOci.Effect MeridianOci.Model

set_option autoImplicit false

variable {P : Platform} {binding : OciDistributionBinding} {setting : Setting P binding} {tagsProtected : Prop}

/-- An answer of the registry, or of the process, is sober. -/
theorem Setting.sober {w w' : World setting.policy} {exchange : Effect.Exchange Op Op.Res Err}
    (h : setting.guarded tagsProtected exchange.1 w exchange.2 w') : Sober exchange := by
  obtain ⟨op, answer⟩ := exchange
  cases op with
  | send request =>
    cases h with
    | answered => exact fun failure hfailure => by cases hfailure
    | refused _ _ _ hcredible => exact hcredible
    | lost _ _ _ _ hcredible => exact hcredible
    | lostAfter _ _ _ _ hcredible => exact hcredible
  | release => exact ⟨(), h.1⟩
  | _ => trivial

/-- A request that publishes and is carried out moves at most the tag whose manifest it puts. -/
theorem tagged_publishes (laws : P.Lawful) {w : World setting.policy} {request : Request}
    (hpublishes : Op.Publishes (.send request)) {tag : String}
    (hmoved : (w.apply request).registry.tagged tag ≠ w.registry.tagged tag) :
    ∃ body, request = .putManifest tag body ∧ (w.apply request).registry.tagged tag = some body := by
  rcases hpublishes with hoff | ⟨other, hother, hreads⟩ | ⟨other, body, hput⟩
  · have huntagging : Request.Untagging request := fun reference htarget => absurd htarget (hoff request rfl reference)
    exact absurd (tagged_respond w.registry huntagging tag) hmoved
  · obtain rfl := Op.send.inj hother
    rw [apply_reads hreads] at hmoved
    exact absurd rfl hmoved
  · obtain rfl := Op.send.inj hput
    rw [World.apply_putManifest] at hmoved ⊢
    have htagged := Registry.tagged_putTag laws w.registry other tag body
    by_cases heq : other = tag
    · subst heq
      rw [if_pos rfl] at htagged
      exact ⟨body, rfl, htagged⟩
    · rw [if_neg heq] at htagged
      exact absurd htagged hmoved

/-- An operation that publishes moves at most the tag whose manifest it puts, and only if it is not refused. -/
theorem Setting.tagged_step (laws : P.Lawful) {w w' : World setting.policy} {exchange : Effect.Exchange Op Op.Res Err}
    (h : setting.guarded tagsProtected exchange.1 w exchange.2 w') (hpublishes : Op.Publishes exchange.1) {tag : String}
    (hmoved : w'.registry.tagged tag ≠ w.registry.tagged tag) : ∃ body, exchange.1 = .send (.putManifest tag body) ∧
      ¬Refusal exchange ∧ w'.registry.tagged tag = some body := by
  obtain ⟨op, answer⟩ := exchange
  cases op with
  | send request =>
    cases h with
    | answered =>
      obtain ⟨body, rfl, htagged⟩ := tagged_publishes laws hpublishes hmoved
      refine ⟨body, rfl, ?_, htagged⟩
      intro hrefusal
      obtain ⟨other, reply, heq, hrefused⟩ := hrefusal
      cases heq
      -- a manifest that was put is answered with status 201
      have hstatus : (201 : Nat) = 409 := hrefused
      omega
    | refused => exact absurd rfl hmoved
    | lost => exact absurd rfl hmoved
    | lostAfter _ _ _ hnot =>
      obtain ⟨body, rfl, htagged⟩ := tagged_publishes laws hpublishes hmoved
      refine ⟨body, rfl, ?_, htagged⟩
      intro hrefusal
      obtain ⟨other, reply, heq, hrefused⟩ := hrefusal
      cases heq
      exact hnot hrefused
  | clock =>
    rcases h with ⟨now, -, -, hw'⟩ | ⟨-, -, hw'⟩
    · exact absurd (by rw [hw']) hmoved
    · exact absurd (by rw [hw']) hmoved
  | register source length digest =>
    obtain ⟨id, -, hw'⟩ := h
    exact absurd (by rw [hw']) hmoved
  | _ => exact absurd (by rw [h.2]) hmoved

/-! ## One process among others -/

/-- Whatever comes to a process among others may come to one beside any registry. -/
theorem Setting.desk_step {op : Op} {w w' : World setting.policy} {answer : Except Err op.Res} {desk : Desk}
    (hsame : desk.memory = w.memory) (h : (setting.guarded tagsProtected).beside World.Apart op w answer w') :
    ∃ desk', Desk.env P op desk answer desk' ∧ desk'.memory = w'.memory := by
  obtain ⟨w₁, hapart, hanswer⟩ := h
  have hmemory : desk.memory = w₁.memory := hsame.trans hapart.1.symm
  cases op with
  | memory update =>
    obtain ⟨rfl, rfl⟩ := hanswer
    exact ⟨{ desk with memory := update desk.memory }, ⟨by rw [hmemory], rfl⟩, by rw [hmemory]⟩
  | send request =>
    have hkept : w'.memory = w₁.memory := by cases hanswer <;> rfl
    exact ⟨_, rfl, hmemory.trans hkept.symm⟩
  | clock =>
    have hkept : w'.memory = w₁.memory := by
      rcases hanswer with ⟨now, -, -, hw'⟩ | ⟨-, -, hw'⟩
      · rw [hw']
      · rw [hw']
    exact ⟨_, rfl, hmemory.trans hkept.symm⟩
  | register source length digest =>
    obtain ⟨id, -, hw'⟩ := hanswer
    exact ⟨_, rfl, hmemory.trans (by rw [hw'])⟩
  | _ => exact ⟨_, rfl, hmemory.trans (by rw [hanswer.2])⟩

/-- The process of an adapter between two of its calls. -/
def Process.Reached (P : Platform) (adapter : OciDistributionAdapter) (process : Process) : Prop :=
  ∃ seen history, DeskReachable P adapter ⟨⟨process.memory, seen⟩, .idle, history⟩

theorem Process.Reached.sound (laws : P.Lawful) {adapter : OciDistributionAdapter} {process : Process}
    (h : process.Reached P adapter) : SoundMemory process.memory := by
  obtain ⟨seen, history, hrun⟩ := h
  exact (hrun.holds laws).sound

variable {ι κ : Type} [DecidableEq ι] {home : ι → κ} {programs rest : ι → Action Answer}
variable {first last : Site setting.policy κ}
variable {log : List (Occurrence ι Op Op.Res Err (Site setting.policy κ))}

/-- A tag leads somewhere else after an operation. -/
def Moved (turn : Occurrence ι Op Op.Res Err (Site setting.policy κ)) (tag : String) : Prop :=
  turn.after.registry.tagged tag ≠ turn.before.registry.tagged tag

/-- A put or a completion that raises a conflict has moved no tag but the anchor, unless the registry refused to
point the latest tag at the version whose exact tag it put before. -/
theorem conflict_reserved (laws : P.Lawful) (hlimits : Platform.LimitsRaw P) (hfails : Platform.Fails P) {i : ι}
    {peer : Peer binding} {call : Call} {objectId : String} {error : Err} (hcall : call.published = some objectId)
    (hprogram : programs i = call.program P peer.adapter) (halone : ∀ j, j ≠ i → home i ≠ home j)
    (hreached : (first.process (home i)).Reached P peer.adapter)
    (hturns : Turns (fun j => Site.env (setting.guarded tagsProtected) (home j)) programs first rest last log)
    (herror : rest i = .raise error) (hconflict : ErrorKind.IsConflict error.kind) :
    (∀ turn ∈ log, turn.who = i → ∀ tag, Moved turn tag → tag = anchorName P objectId) ∨
      ∃ digest body, (∃ turn ∈ log, turn.who = i ∧
          turn.exchange.1 = .send (.putManifest (latestName P objectId) body) ∧ Refusal turn.exchange) ∧
        ∀ turn ∈ log, turn.who = i → ∀ tag, Moved turn tag → tag = anchorName P objectId ∨
          (tag = versionName P objectId digest ∧ turn.after.registry.tagged tag = some body) := by
  have hanswered := hturns.answered
  have hrefl : ∀ w : World setting.policy, w.Apart w := World.Apart.refl
  have htrans : ∀ a b c : World setting.policy, a.Apart b → b.Apart c → a.Apart c := fun _ _ _ h h' => h.trans h'
  have hothers : ∀ turn ∈ log, turn.who ≠ i →
      (turn.before.world (home i)).Apart (turn.after.world (home i)) :=
    fun turn hmem hne => Site.apart (hanswered turn hmem) (halone turn.who hne)
  obtain ⟨w, hadvances, -⟩ := hturns.advances (fun _ _ _ _ h => h.1) hrefl htrans hothers
  rw [herror, hprogram] at hadvances
  have htraces : Traces ((setting.guarded tagsProtected).beside World.Apart) (call.program P peer.adapter)
      (first.world (home i)) (Turns.own i log) (.error error) w := hadvances.ends
  -- the same answers come to a process beside any registry
  have hstep : ∀ op (w : World setting.policy) answer w' (desk : Desk), desk.memory = w.memory →
      (setting.guarded tagsProtected).beside World.Apart op w answer w' →
      ∃ desk', Desk.env P op desk answer desk' ∧ desk'.memory = w'.memory :=
    fun _ _ _ _ _ hsame hanswer => Setting.desk_step hsame hanswer
  have hstart : (⟨(first.process (home i)).memory, []⟩ : Desk).memory = (first.world (home i)).memory := rfl
  obtain ⟨desk, hdesk, -⟩ := htraces.simulate hstep hstart
  have hsober : ∀ exchange ∈ Turns.own i log, Sober exchange := by
    intro exchange hmem
    obtain ⟨turn, hturn, rfl, rfl⟩ := Turns.mem_own.mp hmem
    exact Setting.sober (hanswered turn hturn).1
  have hreserved := call_reserves laws hlimits hfails hcall (hreached.sound laws) hdesk error rfl hsober hconflict
  have hmoved : ∀ turn ∈ log, turn.who = i → ∀ tag, Moved turn tag → turn.exchange ∈ Turns.own i log ∧
      ∃ body, turn.exchange.1 = .send (.putManifest tag body) ∧ ¬Refusal turn.exchange ∧
        turn.after.registry.tagged tag = some body := by
    intro turn hturn hwho tag hmoved
    have hmem : turn.exchange ∈ Turns.own i log := Turns.mem_own.mpr ⟨turn, hturn, hwho, rfl⟩
    have hpublishes := htraces.uses (publishes_call hcall) turn.exchange hmem
    exact ⟨hmem, Setting.tagged_step laws (hanswered turn hturn).1 hpublishes hmoved⟩
  rcases hreserved with hversionless | ⟨digest, body, ⟨exchange, hmem, hlatest, hrefused⟩, honly⟩
  · left
    intro turn hturn hwho tag htag
    obtain ⟨hmem, body, hput, hnot, -⟩ := hmoved turn hturn hwho tag htag
    rcases hversionless _ hmem with hanchors | hrefusal
    · exact hanchors tag body hput
    · exact absurd hrefusal hnot
  · right
    obtain ⟨turn, hturn, hwho, rfl⟩ := Turns.mem_own.mp hmem
    refine ⟨digest, body, ⟨turn, hturn, hwho, hlatest, hrefused⟩, ?_⟩
    intro other hother hwho tag htag
    obtain ⟨hmem, found, hput, hnot, htagged⟩ := hmoved other hother hwho tag htag
    rcases honly _ hmem with (hanchors | hrefusal) | hversion
    · exact .inl (hanchors tag found hput)
    · exact absurd hrefusal hnot
    · cases hput.symm.trans hversion
      exact .inr ⟨rfl, htagged⟩

/-! ## A latest tag that is refused -/

section Refused

variable {adapter : OciDistributionAdapter} {setting : Setting P adapter.transport.binding} {α β : Type}
variable {w w' : World setting.policy} {property : World setting.policy → Prop}

/-- A registry that may refuse to move tags need not do so. -/
theorem guarded_of_env (hfaults : ¬setting.faults) {op : Op} {answer : Except Err op.Res}
    (h : setting.env op w answer w') : setting.guarded False op w answer w' := by
  cases op with
  | send request =>
    rcases h with ⟨rfl, rfl⟩ | ⟨hfault, -⟩
    · exact .answered fun hfalse => hfalse.elim
    · exact absurd hfault hfaults
  | _ => exact h

/-- A program that may raise a conflict in a world with some property. -/
def MayConflict (setting : Setting P adapter.transport.binding) (program : Action α) (w : World setting.policy)
    (property : World setting.policy → Prop) : Prop :=
  ∃ error w', Performs (setting.guarded False) program w (.error error) w' ∧ ErrorKind.IsConflict error.kind ∧
    property w'

theorem MayConflict.bind {program : Action α} (h : MayConflict setting program w property) (next : α → Action β) :
    MayConflict setting (program >>= next) w property := by
  obtain ⟨error, w', hperforms, hrest⟩ := h
  exact ⟨error, w', hperforms.handle (.raise _ _), hrest⟩

theorem MayConflict.after (hfaults : ¬setting.faults) {program : Action α} {next : α → Action β} {value : α}
    (hfirst : Performs setting.env program w (.ok value) w') (h : MayConflict setting (next value) w' property) :
    MayConflict setting (program >>= next) w property := by
  obtain ⟨error, w'', hperforms, hrest⟩ := h
  have hmono := hfirst.mono fun op w answer w' hanswer => guarded_of_env hfaults hanswer
  exact ⟨error, w'', hmono.bind hperforms, hrest⟩

theorem MayConflict.failing (hfails : Platform.Fails P) {machine : PutState} {physicalCommit : Bool}
    {action : Action α} (h : MayConflict setting action w property) :
    MayConflict setting (failing P machine physicalCommit action) w property := by
  obtain ⟨error, w', hperforms, hrest⟩ := h
  refine ⟨error, w', hperforms.handle ?_, hrest⟩
  unfold Prog.onError
  dsimp only
  by_cases hmachine : machine = .uploading ∨ machine = .verifying
  · obtain ⟨last, hlast⟩ := hfails.1 machine physicalCommit hmachine
    rw [if_pos hmachine, hlast]
    exact .raise _ _
  · rw [if_neg hmachine]
    exact .raise _ _

theorem MayConflict.locked {action : Action α} (h : MayConflict setting action w property) :
    MayConflict setting (Action.locked action) w property := by
  obtain ⟨error, w', hperforms, hrest⟩ := h
  refine ⟨error, w', Performs.bind (.call _ _ _ w _ (.ok ()) _ ⟨rfl, rfl⟩ (.ret _ _)) ?_, hrest⟩
  exact hperforms.handle (.call _ _ _ w' _ (.ok ()) _ ⟨rfl, rfl⟩ (.raise _ _))

/-- The registry refuses to point a tag somewhere else. -/
theorem putManifest_refused (laws : P.Lawful) {reference : String} {body : Bytes} {document : ManifestDocument P}
    (hparse : ManifestDocument.parse P body none adapter.transport.binding.maxManifestBytes = .ok document)
    (hrepoints : w.registry.Repoints (.putManifest reference body)) (hproperty : property w) :
    MayConflict setting (adapter.transport.putManifest P reference body) w property := by
  let refusal : Reply := ⟨409, [], []⟩
  have hplain : refusal.Plain := ⟨by decide, by simp [refusal]⟩
  have hverdict : verdict P [201] defaultResponseBytes refusal = .error (statusError 409 "HTTP_ERROR") := by
    simp [verdict, refusal, Reply.bounded, responseError, providerCode_nil laws]
  have hsend : Performs (setting.guarded False) (adapter.transport.request P (.putManifest reference body) [201] false
      defaultResponseBytes) w (.error (statusError 409 "HTTP_ERROR")) w := by
    rw [request_attempt rfl]
    refine .call _ _ w w w (.ok (deliver setting.policy (.putManifest reference body) refusal)) _ ?_ ?_
    · exact .refused _ hrepoints rfl fun failure hfailure => by cases hfailure
    · rw [judge_deliver laws setting.policy hplain, hverdict]
      exact .raise _ _
  refine ⟨statusError 409 "HTTP_ERROR", w, ?_, by decide, hproperty⟩
  unfold RegistryHttpClient.putManifest
  rw [hparse, Action.lift_ok, Prog.ret_bind]
  exact hsend.handle (.raise _ _)

/-- Before a manifest is put, whatever every step keeps holds. -/
theorem putManifest_kept {G : World setting.policy → World setting.policy → Prop}
    {Q : Except Err β → World setting.policy → Prop} {reference : String} {body : Bytes} {document : ManifestDocument P}
    (hparse : ManifestDocument.parse P body none adapter.transport.binding.maxManifestBytes = .ok document)
    {next : OciDescriptor P → Action β}
    (h : (adapter.transport.putManifest P reference body >>= next).Ensures setting.env G w Q) :
    G w (w.apply (.putManifest reference body)) := by
  unfold RegistryHttpClient.putManifest at h
  rw [hparse, Action.lift_ok, Prog.ret_bind, request_attempt rfl] at h
  exact (h _ _ (.inl ⟨rfl, rfl⟩)).1

section Layers

variable (laws : P.Lawful) (hfaults : ¬setting.faults)
variable {G : World setting.policy → World setting.policy → Prop}

include laws hfaults

/-- A version that is published may be in conflict over its latest tag, when its exact tag is there. -/
theorem publishVersion_refused {Q : Except Err ObjectMetadata → World setting.policy → Prop} {objectId digest : String}
    {identity : ContentIdentity} {anchor : OciDescriptor P} {stored : StoredObject}
    {metadata : ObjectMetadata} {old : Bytes}
    (h : Performs setting.env (adapter.publishVersion P objectId identity anchor stored (versionName P objectId digest))
      w (.ok metadata) w')
    (hens : (adapter.publishVersion P objectId identity anchor stored (versionName P objectId digest)).Ensures
      setting.env G w Q)
    (hold : w.registry.tagged (latestName P objectId) = some old)
    (hnew : w'.registry.tagged (latestName P objectId) ≠ some old) :
    MayConflict setting (adapter.publishVersion P objectId identity anchor stored (versionName P objectId digest)) w
      fun w₂ => w₂.registry.tagged (versionName P objectId digest) =
        w'.registry.tagged (versionName P objectId digest) ∧ ∃ w₃, G w₂ w₃ := by
  have hquiet : Quiet fun _ _ : World setting.policy => True := quiet_true
  unfold OciDistributionAdapter.publishVersion at h hens ⊢
  dsimp only at h hens ⊢
  by_cases hlong : adapter.binding.maxMetadataBytes < (stored.toBytes P).length
  · rw [if_pos hlong] at h
    cases h
  rw [if_neg hlong] at h hens ⊢
  obtain ⟨config, w₁, hconfig, h⟩ := h.of_bind
  replace hens := hconfig.then_ensures hens
  obtain ⟨payload, hpayload, h⟩ := performs_lift h
  rw [hpayload, Action.lift_ok, Prog.ret_bind] at hens
  obtain ⟨exact, w₂, hexact, h⟩ := h.of_bind
  replace hens := hexact.then_ensures hens
  rw [latestTag_eq laws, Action.lift_ok, Prog.ret_bind] at h hens
  obtain ⟨moving, w₃, hmoving, hlast⟩ := h.of_bind
  cases hlast
  obtain ⟨-, -, -, hstores⟩ := hconfig.ensures (uploadBlobBytes_ensures laws w hquiet (stored.toBytes P)
    (show meridianObjectConfigMediaType.toList.contains '/' = true by decide))
  obtain ⟨-, -, -, -, hw₂⟩ := hexact.ensures
    (putManifest_ensures (G := fun _ _ => True) laws w₁ (fun _ => trivial) _ _ fun _ => trivial)
  obtain ⟨-, -, -, -, hw₃⟩ := hmoving.ensures
    (putManifest_ensures (G := fun _ _ => True) laws w₂ (fun _ => trivial) _ _ fun _ => trivial)
  obtain ⟨document, hparse, -⟩ := performs_lift hmoving
  -- the latest tag still leads to the version before
  have hkept : w₂.registry.tagged (latestName P objectId) = some old := by
    rw [hw₂, World.apply_putManifest, Registry.tagged_putTag laws, if_neg (latestName_ne_versionName _ _ _).symm,
      (hstores.silent laws).registry.tagged, hold]
  have hsame : w₂.registry.tagged (versionName P objectId digest) =
      w'.registry.tagged (versionName P objectId digest) := by
    rw [hw₃, World.apply_putManifest, Registry.tagged_putTag laws, if_neg (latestName_ne_versionName _ _ _)]
  refine .after hfaults hconfig ?_
  rw [hpayload, Action.lift_ok, Prog.ret_bind]
  refine .after hfaults hexact ?_
  rw [latestTag_eq laws, Action.lift_ok, Prog.ret_bind]
  refine MayConflict.bind (putManifest_refused laws hparse ?_ ⟨hsame, _, putManifest_kept hparse hens⟩) _
  refine ⟨_, _, _, rfl, (Registry.tagged_eq_some.mp hkept).1, fun hdigest => hnew ?_⟩
  rw [sha256Digest_injective laws hdigest, hw₃, World.apply_putManifest, Registry.tagged_putTag laws, if_pos rfl]

/-- The same while the anchor is made sure of. -/
theorem commitFresh_refused {Q : Except Err ObjectMetadata → World setting.policy → Prop} {value : PutInput}
    {digest : String} {identity : ContentIdentity} {immutability : ImmutabilityRequest}
    {retention : Option RetentionRequest} {metadata : ObjectMetadata} {old : Bytes} (hintact : Intact w.registry)
    (h : Performs setting.env (adapter.commitFresh P value identity immutability retention
      (versionName P value.objectId digest)) w (.ok metadata) w')
    (hens : (adapter.commitFresh P value identity immutability retention
      (versionName P value.objectId digest)).Ensures setting.env G w Q)
    (hold : w.registry.tagged (latestName P value.objectId) = some old)
    (hnew : w'.registry.tagged (latestName P value.objectId) ≠ some old) :
    MayConflict setting (adapter.commitFresh P value identity immutability retention
      (versionName P value.objectId digest)) w fun w₂ => w₂.registry.tagged (versionName P value.objectId digest) =
        w'.registry.tagged (versionName P value.objectId digest) ∧ ∃ w₃, G w₂ w₃ := by
  unfold OciDistributionAdapter.commitFresh at h hens ⊢
  obtain ⟨anchor, w₁, hanchor, h⟩ := h.of_bind
  replace hens := hanchor.then_ensures hens
  obtain ⟨provenance, hprovenance, h⟩ := performs_lift h
  rw [hprovenance, Action.lift_ok, Prog.ret_bind] at hens
  obtain ⟨createdAt, w₂, hnow, h⟩ := h.of_bind
  replace hens := hnow.then_ensures hens
  obtain ⟨fields, hfields, h⟩ := performs_lift h
  rw [hfields, Action.lift_ok, Prog.ret_bind] at hens
  obtain ⟨-, -, -, -, -, hagrees⟩ := hanchor.ensures (ensureAnchor_ensures laws w hintact value.objectId)
  obtain ⟨hw₂, -⟩ := hnow.ensures (now_ensures laws w₁)
  have hkept : w₂.registry.tagged (latestName P value.objectId) = some old := by
    rw [hw₂, Registry.tagged, hagrees.tags, hagrees.manifests]
    exact (Registry.tagged_withAnchor_ne laws (anchorName_ne_latestName _ _)).trans hold
  refine .after hfaults hanchor ?_
  rw [hprovenance, Action.lift_ok, Prog.ret_bind]
  refine .after hfaults hnow ?_
  rw [hfields, Action.lift_ok, Prog.ret_bind]
  exact publishVersion_refused laws hfaults h hens hkept hnew

/-- A commit of a version that is not there may be in conflict over its latest tag. -/
theorem commitObject_refused {Q : Except Err ObjectMetadata → World setting.policy → Prop} {value : PutInput}
    {content : Bytes} {immutability : ImmutabilityRequest} {retention : Option RetentionRequest} {createOnly : Bool}
    {metadata : ObjectMetadata} {old : Bytes} (hintact : Intact w.registry)
    (h : Performs setting.env (adapter.commitObject P value (identityOf P content) immutability retention createOnly) w
      (.ok metadata) w')
    (hens : (adapter.commitObject P value (identityOf P content) immutability retention createOnly).Ensures
      setting.env G w Q)
    (hfree : w.registry.tagged (versionName P value.objectId (sha256Digest P content)) = none)
    (hold : w.registry.tagged (latestName P value.objectId) = some old)
    (hnew : w'.registry.tagged (latestName P value.objectId) ≠ some old) :
    MayConflict setting (adapter.commitObject P value (identityOf P content) immutability retention createOnly) w
      fun w₂ => w₂.registry.tagged (versionName P value.objectId (sha256Digest P content)) =
        w'.registry.tagged (versionName P value.objectId (sha256Digest P content)) ∧ ∃ w₃, G w₂ w₃ := by
  have hreads : Quiet fun _ _ : World setting.policy => True := quiet_true
  have hversion : versionTag P value.objectId (identityOf P content).digest =
      .ok (versionName P value.objectId (sha256Digest P content)) := versionTag_eq laws _ _
  unfold OciDistributionAdapter.commitObject at h hens ⊢
  obtain ⟨_, w₁, hcheck, hchecked⟩ := h.of_bind
  have hens₁ := hcheck.then_ensures hens
  obtain rfl := hcheck.ensures
    (reads_ensures (reads_requireCreateAvailable P adapter _ _ _) (G := fun _ _ => True) (fun _ => trivial) w)
  rw [hversion, Action.lift_ok, Prog.ret_bind] at hchecked hens₁
  obtain ⟨found, w₂, hfound, hcommit⟩ := hchecked.of_bind
  have hens₂ := hfound.then_ensures hens₁
  obtain ⟨rfl, hresolve⟩ := hfound.ensures (manifestExists_ensures laws setting.reading hreads.of_eq _ _)
  rw [Registry.resolve_tag (isPrefixOf_versionName _ _), hfree] at hresolve
  subst hresolve
  refine .after hfaults hcheck ?_
  rw [hversion, Action.lift_ok, Prog.ret_bind]
  refine .after hfaults hfound ?_
  exact commitFresh_refused laws hfaults hintact hcommit hens₂ hold hnew

/-- So may a put of a content that is not there. -/
theorem put_refused (hfails : Platform.Fails P) {Q : Except Err Result → World setting.policy → Prop} {value : PutInput}
    {result : Result} {old : Bytes} (hintact : Intact w.registry)
    (h : Performs setting.env (adapter.put P value) w (.ok result) w')
    (hens : (adapter.put P value).Ensures setting.env G w Q)
    (hfree : ∀ content, payloadSource setting value content →
      w.registry.tagged (versionName P value.objectId (sha256Digest P content)) = none)
    (hold : w.registry.tagged (latestName P value.objectId) = some old)
    (hnew : w'.registry.tagged (latestName P value.objectId) ≠ some old) :
    ∃ content, payloadSource setting value content ∧ MayConflict setting (adapter.put P value) w fun w₂ =>
      w₂.registry.tagged (versionName P value.objectId (sha256Digest P content)) =
        w'.registry.tagged (versionName P value.objectId (sha256Digest P content)) ∧ ∃ w₃, G w₂ w₃ := by
  have hacquire : Performs setting.env (Prog.perform Op.acquire : Action Unit) w (.ok ()) w :=
    .call _ _ _ w _ (.ok ()) _ ⟨rfl, rfl⟩ (.ret _ _)
  unfold OciDistributionAdapter.put at h hens ⊢
  obtain ⟨payload, hpayload, h⟩ := performs_lift h
  rw [hpayload, Action.lift_ok, Prog.ret_bind] at hens ⊢
  obtain ⟨immutability, himmutability, h⟩ := performs_lift h
  rw [himmutability, Action.lift_ok, Prog.ret_bind] at hens ⊢
  obtain ⟨retention, hretention, h⟩ := performs_lift h
  rw [hretention, Action.lift_ok, Prog.ret_bind] at hens ⊢
  have hinner := performs_locked h
  have hens₀ := Prog.ensures_handle.mp (hacquire.then_ensures hens)
  obtain ⟨_, w₀, hcheck, hchecked⟩ := hinner.of_bind
  have hens₁ := hcheck.then_ensures hens₀
  obtain rfl := hcheck.ensures
    (reads_ensures (reads_requireCreateAvailable P adapter _ _ _) (G := fun _ _ => True) (fun _ => trivial) w)
  obtain ⟨machine, hmachine, hsending⟩ := performs_lift hchecked
  rw [hmachine, Action.lift_ok, Prog.ret_bind] at hens₁
  obtain ⟨identity, w₁, hupload, hsent⟩ := hsending.of_bind
  have hens₂ := hupload.then_ensures hens₁
  obtain ⟨content, hdelivers, rfl, -, hsilent, -⟩ :=
    (performs_failing hupload).ensures (uploadPayload_ensures laws quiet_true _ payload)
  obtain ⟨machine', w₂, hverifying, hverified⟩ := hsent.of_bind
  have hens₃ := hverifying.then_ensures hens₂
  obtain ⟨-, rfl⟩ := performs_pure (performs_failing hverifying)
  obtain ⟨metadata, w₃, hcommit, hdone⟩ := hverified.of_bind
  obtain ⟨_, w₄, hcommitted, hreturn⟩ := hdone.of_bind
  cases hreturn
  obtain ⟨-, rfl⟩ := performs_pure (performs_failing hcommitted)
  have hens₄ := Prog.ensures_handle.mp (Prog.ensures_handle.mp hens₃)
  have hsource : payloadSource setting value content := ⟨payload, hpayload, hdelivers⟩
  have htagged : ∀ tag, w₂.registry.tagged tag = w₀.registry.tagged tag := fun tag => hsilent.registry.tagged
  have hintact₂ : Intact w₂.registry := (Move.quiet _ _ hsilent.registry).intact laws hintact
  refine ⟨content, hsource, MayConflict.locked ?_⟩
  refine .after hfaults hcheck ?_
  rw [hmachine, Action.lift_ok, Prog.ret_bind]
  refine .after hfaults hupload (.after hfaults hverifying (MayConflict.bind (.failing hfails ?_) _))
  exact commitObject_refused laws hfaults hintact₂ (performs_failing hcommit) hens₄
    ((htagged _).trans (hfree content hsource)) ((htagged _).trans hold) hnew

end Layers

end Refused

/-- A process that nobody else is beside. -/
def World.alone {policy : Policy P binding} (w : World policy) : Site policy Unit :=
  ⟨w.registry, fun _ => ⟨w.memory, w.now, w.payloads⟩⟩

theorem performs_alone {α : Type} {env : Environment Op Op.Res Err (World setting.policy)} {program : Action α}
    {w w' : World setting.policy} {outcome : Except Err α} (h : Performs env program w outcome w') :
    Performs (Site.env env ()) program w.alone outcome w'.alone := by
  have hstep : ∀ op (w : World setting.policy) answer w', True → env op w answer w' →
      True ∧ Site.env env () op w.alone answer w'.alone :=
    fun _ _ _ _ _ hanswer => ⟨trivial, hanswer, fun other hother => absurd (Subsingleton.elim other ()) hother⟩
  exact h.map hstep trivial

namespace Sample

open MeridianOci.Model.Sample

/-- The object of the first put with another content. -/
def secondPut : Plain := { objectId := "a", text := "y" }

/-- The exact reference of that version. -/
abbrev second (limit : Nat) : ObjectReference :=
  exactReference (Sample.adapter limit) "a" (sha256Digest platform secondPut.content)

/-- A second version is published and the registry refuses to point the latest tag at it. -/
theorem refused_run : ∃ limit, ∃ (w w' : World (Sample.setting limit False).policy) (error : Err)
    (resolved : ResolvedObject platform), Intact w.registry ∧ w.memory = ⟨[], []⟩ ∧
      Performs ((Sample.setting limit False).guarded False)
        ((Call.execute secondPut.operation).program platform (Sample.adapter limit)) w (.error error) w' ∧
      ErrorKind.IsConflict error.kind ∧
      (∀ other, w.lookup (second limit) ≠ .ok other) ∧
      w'.lookup (second limit) = .ok resolved := by
  obtain ⟨limit, hfits⟩ := exists_limit [firstPut, secondPut] (by simp; decide)
  have hfits₁ : firstPut.Fits limit := hfits _ (by simp)
  have hfits₂ : secondPut.Fits limit := hfits _ (by simp)
  obtain ⟨w₁, hrun, hcatalog⟩ := run_start hfits₁ (.aware 0)
  let w : World (Sample.setting limit False).policy := ⟨w₁.registry, ⟨[], []⟩, .aware 0, []⟩
  have hintact : Intact w.registry := hrun.intact lawful
  have hne : firstPut.content ≠ secondPut.content := by decide
  have hnew : ∀ other ∈ (catalogOf w.registry).live,
      other.metadata.digest ≠ sha256Digest platform secondPut.content := by
    intro other hother
    rw [show catalogOf w.registry = _ from hcatalog] at hother
    obtain rfl := hother
    exact digest_ne hne
  have hlatest : ∃ old, (Sample.adapter limit).Published platform firstPut.stored old ∧
      w.registry.tagged (latestName platform "a") = some old := by
    have hmem : firstPut.stored ∈ (catalogOf w.registry).latest := by
      rw [show catalogOf w.registry = _ from hcatalog]
      exact Set.mem_singleton _
    exact hmem
  obtain ⟨old, hold, htagged⟩ := hlatest
  -- the put succeeds where nothing is refused
  have hvalid := validPut hfits₂ (w := w) (fun hcreate => by cases hcreate)
    (not_blocked lawful hintact fun other hother hdigest _ => absurd hdigest (hnew other hother))
  obtain ⟨outcome, w₂, hput⟩ :=
    (responsive limit False).performs ((Sample.adapter limit).put platform secondPut.input) w
  obtain ⟨-, metadata, rfl, hsucceeded⟩ := hput.ensures (put_valid_ensures lawful hintact id hvalid)
  obtain ⟨rfl, hcatalog₂⟩ := plain_catalog hintact hsucceeded hnew
  have hlive₂ : secondPut.stored ∈ (catalogOf w₂.registry).live := by
    rw [hcatalog₂]
    exact .inl rfl
  have hlatest₂ : secondPut.stored ∈ (catalogOf w₂.registry).latest := by
    rw [hcatalog₂]
    exact .inl rfl
  obtain ⟨new, hnewPublished, hnewTagged⟩ := hlatest₂
  have hmoved : w₂.registry.tagged (latestName platform secondPut.input.objectId) ≠ some old := by
    intro hsame
    obtain rfl := Option.some.inj (hnewTagged.symm.trans hsame)
    have hstored := congrArg (·.metadata.digest) (hnewPublished.injective lawful hold)
    exact digest_ne hne hstored.symm
  have hfree : ∀ content, payloadSource (Sample.setting limit False) secondPut.input content →
      w.registry.tagged (versionName platform secondPut.input.objectId (sha256Digest platform content)) = none := by
    intro content hsource
    obtain rfl := source_plain (w := w) hfits₂.content hsource
    cases hfound : w.registry.tagged (versionName platform secondPut.input.objectId _) with
    | none => rfl
    | some body =>
      obtain ⟨stored, hpublished, hdigest, hname⟩ := hintact.exact lawful hfound
      exact absurd hdigest (hnew stored ⟨body, hpublished, hname ▸ hfound⟩)
  have hkept : ∀ s s' : World (Sample.setting limit False).policy, Intact s.registry → World.Change s s' →
      Intact s'.registry := fun _ _ hs hmove => Move.intact lawful hmove hs
  have hens := (put_ensures lawful w hintact secondPut.input).invariant hkept hintact
  obtain ⟨content, hsource, error, w', hperforms, hconflict, hsame, w₃, -, hintact', -⟩ :=
    put_refused lawful id fails hintact hput hens hfree htagged hmoved
  obtain rfl := source_plain (w := w) hfits₂.content hsource
  obtain ⟨body, hpublished, hexact⟩ := hlive₂
  have hresolves : ∃ resolved, Found w'.registry (second limit) resolved ∧ resolved.stored = secondPut.stored :=
    Found.of_published hpublished (hsame.trans hexact) rfl fun _ hdigest => Option.some.inj hdigest
  obtain ⟨resolved, hfound, -⟩ := hresolves
  refine ⟨limit, w, w', error, resolved, hintact, rfl, ?_, hconflict, ?_, (lookup_ok lawful hintact').mpr hfound⟩
  · show Performs _ ((Sample.adapter limit).execute platform secondPut.operation >>= _) _ _ _
    rw [execute_put accepted_put rfl]
    exact hperforms.handle (.raise _ _)
  · intro other hother
    have hsome := ((lookup_ok lawful hintact).mp hother).tagged
    cases (hfree _ hsource).symm.trans hsome

/-- The put alone, as the turns of one thread. -/
theorem refused_turns : ∃ limit, ∃ (first last : Site (Sample.setting limit False).policy Unit)
    (rest : Unit → Action Answer)
    (log : List (Occurrence Unit Op Op.Res Err (Site (Sample.setting limit False).policy Unit)))
    (error : Err) (resolved : ResolvedObject platform),
    (first.process ()).Reached platform (Sample.adapter limit) ∧
      Turns (fun _ : Unit => Site.env ((Sample.setting limit False).guarded False) ())
        (fun _ => (Call.execute secondPut.operation).program platform (Sample.adapter limit)) first rest last log ∧
      rest () = .raise error ∧ ErrorKind.IsConflict error.kind ∧
      (∀ other, (first.world ()).lookup
        (second limit) ≠ .ok other) ∧
      (last.world ()).lookup
        (second limit) = .ok resolved := by
  obtain ⟨limit, w, w', error, resolved, -, hmemory, hperforms, hconflict, hbefore, hafter⟩ := refused_run
  have hreached : (w.alone.process ()).Reached platform (Sample.adapter limit) := by
    refine ⟨[], [], ?_⟩
    rw [show (w.alone.process ()).memory = ⟨[], []⟩ from hmemory]
    exact .refl
  have hstart : Turns (fun _ : Unit => Site.env ((Sample.setting limit False).guarded False) ())
      (fun _ => (Call.execute secondPut.operation).program platform (Sample.adapter limit)) w.alone _ w.alone [] :=
    .start
  obtain ⟨more, hturns, -⟩ := hstart.performs (i := ()) (performs_alone hperforms)
  refine ⟨limit, w.alone, w'.alone, _, [] ++ more, error, resolved, hreached, hturns, ?_, hconflict, hbefore, hafter⟩
  exact Function.update_self ..

/-- A conflict whose version is there afterwards. -/
theorem conflict_publishes : ∃ limit, ∃ (first last : Site (Sample.setting limit False).policy Unit)
    (rest : Unit → Action Answer)
    (log : List (Occurrence Unit Op Op.Res Err (Site (Sample.setting limit False).policy Unit)))
    (error : Err) (resolved : ResolvedObject platform),
    Turns (fun _ : Unit => Site.env ((Sample.setting limit False).guarded False) ())
        (fun _ => (Call.execute secondPut.operation).program platform (Sample.adapter limit)) first rest last log ∧
      rest () = .raise error ∧ ErrorKind.IsConflict error.kind ∧
      (∀ other, (first.world ()).lookup
        (second limit) ≠ .ok other) ∧
      (last.world ()).lookup
        (second limit) = .ok resolved := by
  obtain ⟨limit, first, last, rest, log, error, resolved, -, h⟩ := refused_turns
  exact ⟨limit, first, last, rest, log, error, resolved, h⟩

/-- What that conflict has moved. -/
theorem conflict_reserved_refused : ∃ limit, ∃ (first last : Site (Sample.setting limit False).policy Unit)
    (rest : Unit → Action Answer)
    (log : List (Occurrence Unit Op Op.Res Err (Site (Sample.setting limit False).policy Unit))) (error : Err),
    rest () = .raise error ∧ ErrorKind.IsConflict error.kind ∧
      Turns (fun _ : Unit => Site.env ((Sample.setting limit False).guarded False) ())
        (fun _ => (Call.execute secondPut.operation).program platform (Sample.adapter limit)) first rest last log ∧
      ((∀ turn ∈ log, turn.who = () → ∀ tag, Moved turn tag → tag = anchorName platform "a") ∨
        ∃ digest body, (∃ turn ∈ log, turn.who = () ∧
            turn.exchange.1 = .send (.putManifest (latestName platform "a") body) ∧ Refusal turn.exchange) ∧
          ∀ turn ∈ log, turn.who = () → ∀ tag, Moved turn tag → tag = anchorName platform "a" ∨
            (tag = versionName platform "a" digest ∧ turn.after.registry.tagged tag = some body)) := by
  obtain ⟨limit, first, last, rest, log, error, resolved, hreached, hturns, herror, hconflict, -⟩ := refused_turns
  let peer : Peer (Sample.adapter limit).transport.binding :=
    ⟨(Sample.adapter limit).binding, (Sample.adapter limit).transport.maxReadAttempts,
      (Sample.adapter limit).transport.maxReadAttempts_pos⟩
  have hprogram : (Call.execute secondPut.operation).program platform (Sample.adapter limit) =
      (Call.execute secondPut.operation).program platform peer.adapter := rfl
  have halone : ∀ j, j ≠ () → (fun _ : Unit => ()) () ≠ (fun _ : Unit => ()) j :=
    fun j hj => absurd (Subsingleton.elim j ()) hj
  have hreserved := @conflict_reserved _ _ _ _ _ _ _ (fun _ => ()) _ _ _ _ _ lawful limitsRaw fails () peer _ "a" _ rfl
    hprogram halone hreached hturns herror hconflict
  exact ⟨limit, first, last, rest, log, error, herror, hconflict, hturns, hreserved⟩

end Sample

end MeridianOci.Service
