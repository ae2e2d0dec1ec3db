import MeridianOci.Effect.Trace
import MeridianOci.Service.Agreement

/-!
# How much one list call does

`_list` against any registry, which may answer the tag request with any page. The scan
goes on until the page ends, a tag does not resolve or `limit` objects were found; the
bound on scanned tags is only sent along, the bound on the page only advertised. What the
tags of the page resolve to decides whether a call stays within both.
-/
namespace MeridianOci.Service

open MeridianOci.Data MeridianOci.Effect MeridianOci.Model

set_option autoImplicit false

/-! ## A scan that stops at a limit -/

section Scan

/-- What looking at a version tag gave: an error, or whether its object is asked for. -/
abbrev Sight := Except Err Bool

def Sight.hit : Sight → Nat
  | .ok true => 1
  | _ => 0

def hits (sights : List Sight) : Nat := (sights.map Sight.hit).sum

/-- With `n` objects before, a scan looks at some tags and returns a number of objects, or raises. -/
inductive ScanRun (limit : Nat) : Nat → List Sight → Nat → Option Nat → Prop where
  | exhausted (n : Nat) : ScanRun limit n [] 0 (some n)
  | failed (n : Nat) (error : Err) : ScanRun limit n [.error error] 1 none
  | full (n : Nat) (asked : Bool) (rest : List Sight) :
      n + Sight.hit (.ok asked) = limit → ScanRun limit n (.ok asked :: rest) 1 (some limit)
  | more (n : Nat) (asked : Bool) (rest : List Sight) (looked : Nat) (returned : Option Nat) :
      n + Sight.hit (.ok asked) ≠ limit → ScanRun limit (n + Sight.hit (.ok asked)) rest looked returned →
      ScanRun limit n (.ok asked :: rest) (looked + 1) returned

/-- After `k` tags the scan has found as many objects as were asked for. -/
structure Fills (limit n : Nat) (sights : List Sight) (k : Nat) : Prop where
  pos : 0 < k
  le : k ≤ sights.length
  resolved : ∀ sight ∈ sights.take k, sight.isOk = true
  count : n + hits (sights.take k) = limit

variable {limit n k : Nat} {sights rest : List Sight}

theorem hits_cons (sight : Sight) (rest : List Sight) : hits (sight :: rest) = sight.hit + hits rest := rfl

theorem not_fills_nil : ¬Fills limit n [] k := by
  intro h
  have hpos := h.pos
  have hle := h.le
  rw [List.length_nil] at hle
  omega

theorem not_fills_error {error : Err} : ¬Fills limit n [.error error] k := by
  intro h
  obtain ⟨j, rfl⟩ := Nat.exists_eq_add_one_of_ne_zero (Nat.pos_iff_ne_zero.mp h.pos)
  have hresolved := h.resolved (.error error) (by simp)
  cases hresolved

/-- Whether a scan is full after its first tags depends on the first one and on the rest. -/
theorem fills_cons {asked : Bool} : Fills limit n (.ok asked :: rest) (k + 1) ↔
    (k = 0 ∧ n + Sight.hit (.ok asked) = limit) ∨ Fills limit (n + Sight.hit (.ok asked)) rest k := by
  constructor
  · intro h
    have hcount := h.count
    rw [List.take_succ_cons, hits_cons] at hcount
    by_cases hk : k = 0
    · subst hk
      exact .inl ⟨rfl, by simpa [hits] using hcount⟩
    · refine .inr ⟨Nat.pos_iff_ne_zero.mpr hk, by simpa using h.le, fun sight hsight => ?_, by omega⟩
      exact h.resolved sight (by rw [List.take_succ_cons]; exact List.mem_cons_of_mem _ hsight)
  · intro h
    rcases h with ⟨rfl, hcount⟩ | h
    · exact ⟨by omega, by simp, by simp [Except.isOk, Except.toBool], by simpa [hits] using hcount⟩
    · refine ⟨by omega, by simpa using h.le, fun sight hsight => ?_, ?_⟩
      · rw [List.take_succ_cons] at hsight
        rcases List.mem_cons.mp hsight with rfl | hmem
        · rfl
        · exact h.resolved sight hmem
      · rw [List.take_succ_cons, hits_cons]
        have hcount := h.count
        omega

/-- A scan ends where it is first full, or has looked at everything. -/
theorem ScanRun.ends {looked : Nat} {returned : Option Nat} (h : ScanRun limit n sights looked returned) :
    (Fills limit n sights looked ∧ (∀ k, Fills limit n sights k → looked ≤ k) ∧ returned = some limit) ∨
    ((∀ k, ¬Fills limit n sights k) ∧ looked = sights.length ∧
      (returned = some (n + hits sights) ∨ returned = none ∧ ∃ sight ∈ sights, sight.isOk = false) ∧
      (returned ≠ none → ∀ sight ∈ sights, sight.isOk = true)) := by
  induction h with
  | exhausted n => exact .inr ⟨fun k => not_fills_nil, rfl, .inl rfl, by simp⟩
  | failed n error =>
    exact .inr ⟨fun k => not_fills_error, rfl, .inr ⟨rfl, _, List.mem_singleton_self _, rfl⟩,
      fun h => absurd rfl h⟩
  | full n asked rest hfull =>
    exact .inl ⟨fills_cons.mpr (.inl ⟨rfl, hfull⟩), fun k hk => hk.pos, rfl⟩
  | more n asked rest looked returned hmore _ ih =>
    have hrest : ∀ k, Fills limit n (.ok asked :: rest) k →
        ∃ j, k = j + 1 ∧ Fills limit (n + Sight.hit (.ok asked)) rest j := by
      intro k hk
      obtain ⟨j, rfl⟩ := Nat.exists_eq_add_one_of_ne_zero (Nat.pos_iff_ne_zero.mp hk.pos)
      rcases fills_cons.mp hk with ⟨-, hfull⟩ | hrest
      · exact absurd hfull hmore
      · exact ⟨j, rfl, hrest⟩
    rcases ih with ⟨hfills, hfirst, hreturned⟩ | ⟨hnone, hlooked, hreturned, hresolved⟩
    · refine .inl ⟨fills_cons.mpr (.inr hfills), fun k hk => ?_, hreturned⟩
      obtain ⟨j, rfl, hj⟩ := hrest k hk
      exact Nat.succ_le_succ (hfirst j hj)
    · refine .inr ⟨fun k hk => ?_, by rw [hlooked, List.length_cons], ?_, fun hsome sight hsight => ?_⟩
      · obtain ⟨j, -, hj⟩ := hrest k hk
        exact hnone j hj
      · rcases hreturned with hsome | ⟨hraised, sight, hsight, herror⟩
        · left
          rw [hsome, hits_cons, Nat.add_assoc]
        · exact .inr ⟨hraised, sight, List.mem_cons_of_mem _ hsight, herror⟩
      · rcases List.mem_cons.mp hsight with rfl | hmem
        · rfl
        · exact hresolved hsome sight hmem

/-- The tags looked at and the objects returned are within these bounds. -/
structure Within (limit maxScan maxPage : Nat) (sights : List Sight) : Prop where
  scanned : sights.length ≤ maxScan ∨ ∃ k ≤ maxScan, Fills limit 0 sights k
  full : ∀ k, Fills limit 0 sights k → limit ≤ maxPage
  exhausted : (∀ k, ¬Fills limit 0 sights k) → (∀ sight ∈ sights, sight.isOk = true) →
    hits sights ≤ min limit maxPage

theorem ScanRun.within_iff {looked maxScan maxPage : Nat} {returned : Option Nat}
    (h : ScanRun limit 0 sights looked returned) :
    (looked ≤ maxScan ∧ ∀ m, returned = some m → m ≤ min limit maxPage) ↔
      Within limit maxScan maxPage sights := by
  rcases h.ends with ⟨hfills, hfirst, rfl⟩ | ⟨hnone, rfl, hreturned, hresolved⟩
  · constructor
    · intro hbounds
      have hlimit := hbounds.2 limit rfl
      exact ⟨.inr ⟨looked, hbounds.1, hfills⟩, fun k _ => by omega, fun hnone => absurd hfills (hnone looked)⟩
    · intro hwithin
      constructor
      · rcases hwithin.scanned with hlength | ⟨k, hk, hfull⟩
        · exact hfills.le.trans hlength
        · exact (hfirst k hfull).trans hk
      · intro m hm
        obtain rfl := Option.some.inj hm
        exact le_min (le_refl _) (hwithin.full looked hfills)
  · constructor
    · intro hbounds
      refine ⟨.inl hbounds.1, fun k hk => absurd hk (hnone k), fun _ hall => ?_⟩
      rcases hreturned with hsome | ⟨-, sight, hsight, herror⟩
      · have hle := hbounds.2 _ hsome
        rwa [Nat.zero_add] at hle
      · rw [hall sight hsight] at herror
        cases herror
    · intro hwithin
      constructor
      · rcases hwithin.scanned with hlength | ⟨k, -, hfull⟩
        · exact hlength
        · exact absurd hfull (hnone k)
      · intro m hm
        have hle := hwithin.exhausted hnone (hresolved (by rw [hm]; simp))
        rcases hreturned with hsome | ⟨hraised, -⟩
        · rw [hsome] at hm
          obtain rfl := Option.some.inj hm
          rwa [Nat.zero_add]
        · rw [hraised] at hm
          cases hm

end Scan

variable {P : Platform} {adapter : OciDistributionAdapter} {σ : Type}
variable {answer : (op : Op) → σ → Except Err (Op.Res op) × σ}

/-! ## What a call looks at -/

/-- A request for a manifest. -/
def resolving : Op → Bool
  | .send request =>
    match request.method, request.target with
    | .get, .manifest _ => true
    | _, _ => false
  | _ => false

/-- The manifests that a run resolved or tried to, each with its retries. -/
def resolutions (trace : List (Exchange Op Op.Res Err)) : Nat := starts resolving false trace

variable (P adapter answer) in
/-- What the version tags among these resolve to, one after the other, up to the first that fails. -/
def sights (prefixText : String) : List String → σ → List Sight
  | [], _ => []
  | tag :: rest, s =>
    if IsVersionTag tag then
      match (adapter.transport.getManifest P tag >>= adapter.storedFromManifest P).run answer s with
      | (.error error, _) => [.error error]
      | (.ok resolved, s') =>
        .ok (prefixText.toList.isPrefixOf resolved.stored.metadata.objectRef.objectId.toList) ::
          sights prefixText rest s'
    else sights prefixText rest s

variable (P adapter) in
/-- The page of tags that a call asks for. -/
def tagPage (cursor : Option String) : Action TagPage :=
  Action.lift
    (match cursor with
      | none => .ok none
      | some cursor => (CursorCodec.decode P adapter.binding.cursorSigningKey cursor).map some) >>=
    adapter.transport.listTags P adapter.binding.maxScanTags

variable (P adapter answer) in
/-- What the tags of the page that the registry answers with resolve to. -/
def pageSights (prefixText : String) (cursor : Option String) (s : σ) : List Sight :=
  match (tagPage P adapter cursor).run answer s with
  | (.ok page, s') => sights P adapter answer prefixText page.tags s'
  | (.error _, _) => []

section Resolution

variable {s s' : σ} {trace : List (Exchange Op Op.Res Err)}

theorem resolving_getManifest (client : RegistryHttpClient) (reference : String) :
    (client.getManifest P reference).Uses fun op => resolving op = true := by
  refine ((uses_request client (.getManifest reference) _ _ _).mono ?_).bind fun response => ?_
  · rintro op rfl
    rfl
  · dsimp only
    repeat' split
    all_goals trivial

theorem quiet_listTags (client : RegistryHttpClient) (limit : Nat) (last : Option String) :
    (client.listTags P limit last).Uses fun op => resolving op = false := by
  refine ((uses_request client (.listTags limit last) _ _ _).mono ?_).bind fun response => ?_
  · rintro op rfl
    rfl
  · split
    · trivial
    · refine (uses_lift _).bind fun value => ?_
      repeat' split
      all_goals trivial

theorem uses_getBlobBytes (client : RegistryHttpClient) (descriptor : OciDescriptor P) (maximumBytes : Nat) :
    (client.getBlobBytes P descriptor maximumBytes).Uses (· = .send (.getBlob descriptor.digest none)) := by
  unfold RegistryHttpClient.getBlobBytes
  split
  · trivial
  · refine (uses_request client (.getBlob descriptor.digest none) _ _ _).bind fun response => ?_
    dsimp only
    repeat' split
    all_goals trivial

/-- Resolving a manifest only reads its config. -/
theorem uses_storedFromManifest (document : ManifestDocument P) :
    (adapter.storedFromManifest P document).Uses fun op => ∃ digest, op = .send (.getBlob digest none) := by
  unfold OciDistributionAdapter.storedFromManifest
  cases manifestDescriptors document with
  | error error =>
    dsimp only
    split <;> trivial
  | ok descriptors =>
    obtain ⟨config, payload, subject⟩ := descriptors
    simp only [Prog.pure_eq, Prog.ret_bind]
    refine ((uses_getBlobBytes _ _ _).mono fun op heq => ⟨_, heq⟩).bind fun configBytes => ?_
    repeat' split
    all_goals trivial

/-- A request that can be built is sent. -/
theorem request_sends {client : RegistryHttpClient} {request : Request} {expected : List Nat} {maximumBytes : Nat}
    {env : Environment Op Op.Res Err σ} {outcome : Except Err BoundedResponse}
    (hbuild : request.target.build P = .ok ())
    (h : Traces env (client.request P request expected true maximumBytes) s trace outcome s') : trace ≠ [] := by
  rintro rfl
  unfold RegistryHttpClient.request at h
  rw [hbuild] at h
  obtain ⟨left, hleft⟩ := Nat.exists_eq_add_one_of_ne_zero (Nat.pos_iff_ne_zero.mp client.maxReadAttempts_pos)
  simp only [if_true, hleft] at h
  cases h

theorem getManifest_sends {client : RegistryHttpClient} {reference : String} {env : Environment Op Op.Res Err σ}
    {outcome : Except Err (ManifestDocument P)}
    (h : Traces env (client.getManifest P reference) s trace outcome s') : trace ≠ [] := by
  obtain ⟨front, first, s₁, rest, rfl, hfront, -⟩ := h.of_handle
  have hne := request_sends rfl hfront
  simp [hne]

/-- A manifest is not resolved without reading its config. -/
theorem storedFromManifest_sends {document : ManifestDocument P} {env : Environment Op Op.Res Err σ}
    {resolved : ResolvedObject P} (h : Traces env (adapter.storedFromManifest P document) s trace (.ok resolved) s') :
    trace ≠ [] := by
  unfold OciDistributionAdapter.storedFromManifest at h
  cases hdescriptors : manifestDescriptors document with
  | error error =>
    rw [hdescriptors] at h
    dsimp only at h
    split at h <;> cases h
  | ok descriptors =>
    obtain ⟨config, payload, subject⟩ := descriptors
    simp only [hdescriptors, Prog.pure_eq, Prog.ret_bind] at h
    obtain ⟨front, first, s₁, rest, rfl, hfront, hrest⟩ := h.of_handle
    cases first with
    | error error => cases hrest
    | ok configBytes =>
      unfold RegistryHttpClient.getBlobBytes at hfront
      split at hfront
      · cases hfront
      · obtain ⟨sent, response, s₂, later, rfl, hsent, -⟩ := hfront.of_handle
        have hne := request_sends rfl hsent
        simp [hne]

end Resolution

/-! ## One list call -/

section List

variable {s s' : σ} {trace : List (Exchange Op Op.Res Err)}

theorem scan_run (prefixText : String) (limit : Nat) {tags : List String} {items : List ObjectMetadata}
    {scanned : Option String} {outcome : Except Err (List ObjectMetadata × Option String × Bool)}
    (h : Traces (Environment.ofFunction answer) (adapter.scanTags P prefixText limit tags items scanned) s trace
      outcome s') :
    ScanRun limit items.length (sights P adapter answer prefixText tags s) (resolutions trace)
      (outcome.toOption.map (·.1.length)) := by
  induction tags generalizing items scanned s trace with
  | nil =>
    cases h
    exact .exhausted _
  | cons tag rest ih =>
    unfold OciDistributionAdapter.scanTags at h
    rw [sights]
    by_cases htag : IsVersionTag tag
    · rw [if_pos htag]
      rw [if_neg (by simpa [IsVersionTag] using htag), ← Prog.bind_assoc] at h
      obtain ⟨front, first, s₁, later, rfl, hfront, hlater⟩ := h.of_handle
      rw [hfront.run_eq]
      -- the manifest, then the config
      obtain ⟨manifest, document, s₂, config, rfl, hmanifest, hconfig⟩ := hfront.of_handle
      have hsent := getManifest_sends hmanifest
      have hresolving := hmanifest.uses (resolving_getManifest _ _)
      have hothers : ∀ exchange ∈ config, resolving exchange.1 = false := by
        intro exchange hmem
        cases document with
        | error error =>
          cases hconfig
          cases hmem
        | ok document =>
          obtain ⟨digest, heq⟩ := hconfig.uses (uses_storedFromManifest document) exchange hmem
          rw [heq]
          rfl
      rw [List.append_assoc, resolutions, starts_round hsent hresolving hothers]
      cases first with
      | error error =>
        cases hlater
        exact .failed _ _
      | ok resolved =>
        have hne : config ≠ [] := by
          cases document with
          | error error => cases hconfig
          | ok document => exact storedFromManifest_sends hconfig
        rw [List.isEmpty_eq_false_iff.mpr hne, Nat.add_comm 1]
        dsimp only [Prog.onOk] at hlater ⊢
        have hlength : (if prefixText.toList.isPrefixOf resolved.stored.metadata.objectRef.objectId.toList then
            items ++ [resolved.stored.metadata] else items).length =
              items.length + Sight.hit
                (.ok (prefixText.toList.isPrefixOf resolved.stored.metadata.objectRef.objectId.toList)) := by
          cases prefixText.toList.isPrefixOf resolved.stored.metadata.objectRef.objectId.toList <;> simp [Sight.hit]
        generalize (if prefixText.toList.isPrefixOf resolved.stored.metadata.objectRef.objectId.toList then
          items ++ [resolved.stored.metadata] else items) = found at hlater hlength
        split at hlater
        · rename_i hfull
          cases hlater
          rw [show starts resolving false ([] : List (Exchange Op Op.Res Err)) = 0 from rfl]
          dsimp only [Except.toOption, Option.map_some]
          rw [hfull]
          exact .full _ _ _ (hlength.symm.trans hfull)
        · rename_i hmore
          refine .more _ _ _ _ _ (hlength ▸ hmore) ?_
          rw [← hlength]
          exact ih hlater
    · rw [if_neg htag]
      rw [if_pos (by rw [Bool.not_eq_true', ← Bool.not_eq_true]; exact htag)] at h
      exact ih h

/-- What a call does is a scan of what the page resolves to. -/
theorem list_scan (prefixText : String) (limit : Nat) (cursor : Option String) {outcome : Except Err Result}
    (h : Traces (Environment.ofFunction answer) (adapter.list P prefixText limit cursor) s trace outcome s') :
    ∃ returned, ScanRun limit 0 (pageSights P adapter answer prefixText cursor s) (resolutions trace) returned ∧
      ((∃ items next, outcome = .ok (.list items next) ∧ returned = some items.length) ∨
        (∃ error, outcome = .error error) ∧ (returned = none ∨ returned = some 0)) := by
  unfold OciDistributionAdapter.list at h
  rw [← Prog.bind_assoc] at h
  obtain ⟨front, page, s₁, later, rfl, hfront, hlater⟩ := h.of_handle
  have hrun : (tagPage P adapter cursor).run answer s = (page, s₁) := hfront.run_eq
  rw [pageSights, hrun]
  have hquiet : ∀ exchange ∈ front, resolving exchange.1 = false :=
    hfront.uses ((uses_lift _).bind fun last => quiet_listTags adapter.transport _ last)
  have hcount : resolutions (front ++ later) = resolutions later := starts_of_other hquiet false
  rw [hcount]
  cases page with
  | error error =>
    cases hlater
    exact ⟨some 0, .exhausted 0, .inr ⟨⟨error, rfl⟩, .inr rfl⟩⟩
  | ok page =>
    obtain ⟨scan, found, s₂, rest, rfl, hscan, hrest⟩ := hlater.of_handle
    have hscan := scan_run prefixText limit hscan
    -- the cursor is made without looking at anything
    have hidle : rest = [] ∧ ((∃ items next, outcome = .ok (.list items next) ∧
        found.toOption.map (·.1.length) = some items.length) ∨
        (∃ error, outcome = .error error) ∧ found.toOption.map (·.1.length) = none) := by
      cases found with
      | error error =>
        cases hrest
        exact ⟨rfl, .inr ⟨⟨error, rfl⟩, rfl⟩⟩
      | ok found =>
        obtain ⟨items, scanned, stopped⟩ := found
        dsimp only [Prog.onOk] at hrest
        split at hrest
        · split at hrest
          all_goals
            cases hrest
            exact ⟨rfl, .inl ⟨items, _, rfl, rfl⟩⟩
        · cases hrest
          exact ⟨rfl, .inl ⟨items, _, rfl, rfl⟩⟩
    obtain ⟨rfl, hresult⟩ := hidle
    rw [List.append_nil]
    exact ⟨_, hscan, hresult.imp_right fun h => ⟨h.1, .inl h.2⟩⟩

/-- The bounds of a binding, kept by one list call. -/
structure WithinBinding (adapter : OciDistributionAdapter) (limit : Nat) (trace : List (Exchange Op Op.Res Err))
    (outcome : Except Err Result) : Prop where
  scanned : resolutions trace ≤ adapter.binding.maxScanTags
  returned : ∀ items next, outcome = .ok (.list items next) →
    items.length ≤ min limit adapter.binding.maxListPageSize

theorem list_bounded_iff (prefixText : String) (limit : Nat) (cursor : Option String) {outcome : Except Err Result}
    (h : Traces (Environment.ofFunction answer) (adapter.list P prefixText limit cursor) s trace outcome s') :
    WithinBinding adapter limit trace outcome ↔
      Within limit adapter.binding.maxScanTags adapter.binding.maxListPageSize
        (pageSights P adapter answer prefixText cursor s) := by
  obtain ⟨returned, hscan, hreturned⟩ := list_scan prefixText limit cursor h
  rw [← hscan.within_iff]
  constructor
  · intro hbounded
    refine ⟨hbounded.scanned, fun m hm => ?_⟩
    rcases hreturned with ⟨items, next, houtcome, hsome⟩ | ⟨-, hnone | hzero⟩
    · obtain rfl := Option.some.inj (hm.symm.trans hsome)
      exact hbounded.returned items next houtcome
    · rw [hnone] at hm
      cases hm
    · obtain rfl := Option.some.inj (hm.symm.trans hzero)
      exact Nat.zero_le _
  · rintro ⟨hlooked, hle⟩
    refine ⟨hlooked, fun items next houtcome => ?_⟩
    rcases hreturned with ⟨items', next', heq, hsome⟩ | ⟨⟨error, herror⟩, -⟩
    · cases houtcome.symm.trans heq
      exact hle _ hsome
    · cases houtcome.symm.trans herror

theorem execute_list {operation : Operation} {prefixText : String} {limit : Nat} {cursor : Option String}
    (h : Accepted P adapter operation "list") (hinput : operation.input = .list prefixText limit cursor) :
    adapter.execute P operation = adapter.list P prefixText limit cursor := by
  unfold OciDistributionAdapter.execute
  simp only [h.validated, h.capable, Action.lift_ok, Prog.ret_bind, hinput, if_true]

/-- Against any registry: an accepted list call stays within the bounds of its binding exactly
when what the tags of the page resolve to lets its scan end in time. -/
theorem list_bounded {operation : Operation} {prefixText : String} {limit : Nat} {cursor : Option String}
    (haccepted : Accepted P adapter operation "list") (hinput : operation.input = .list prefixText limit cursor)
    {outcome : Except Err Result}
    (h : Traces (Environment.ofFunction answer) (adapter.execute P operation) s trace outcome s') :
    WithinBinding adapter limit trace outcome ↔
      Within limit adapter.binding.maxScanTags adapter.binding.maxListPageSize
        (pageSights P adapter answer prefixText cursor s) := by
  rw [execute_list haccepted hinput] at h
  exact list_bounded_iff prefixText limit cursor h

end List

namespace Sample

open MeridianOci.Model.Sample

variable {limit : Nat}

/-- A registry that answers a request for tags with one of them many times. -/
def crowded (tag : String) (n : Nat) :
    (op : Op) → World (Sample.setting limit False).policy →
      Except Err (Op.Res op) × World (Sample.setting limit False).policy
  | .send request, w =>
    match request.target with
    | .tags _ _ =>
      (.ok (deliver (policy limit) request
        ⟨200, [], canonicalJson [("tags", .arr ((List.replicate n tag).map .str))]⟩), w)
    | _ => World.answer (.send request) w
  | op, w => World.answer op w

theorem tagPage_crowded {tag : String} {n : Nat} (htag : isTag platform tag = true)
    (hlength : tag.toList.length ≤ 128)
    (hn : n ≤ 101) (w : World (Sample.setting limit False).policy) :
    ∃ more, (tagPage platform (Sample.adapter limit) none).run (crowded tag n) w =
      (.ok ⟨List.replicate n tag, more⟩, w) := by
  have hplain : Reply.Plain ⟨200, [], canonicalJson [("tags", .arr ((List.replicate n tag).map .str))]⟩ :=
    ⟨(by decide : 200 ∉ retriableStatus), by simp⟩
  have hshort := @length_page platform (List.replicate n tag) fun name hname => by
    rw [List.eq_of_mem_replicate hname]
    exact ⟨htag, hlength⟩
  rw [List.length_replicate] at hshort
  have hrequest : ((Sample.adapter limit).transport.request platform (.listTags 100 none) [200, 404] true
      (max defaultResponseBytes (100 * 192 + 1024))).run (crowded tag n) w =
        (.ok (Reply.bounded ⟨200, [], canonicalJson [("tags", .arr ((List.replicate n tag).map .str))]⟩), w) := by
    rw [request_attempt rfl, if_pos rfl, show (Sample.adapter limit).transport.maxReadAttempts = 2 + 1 from rfl,
      RegistryHttpClient.attempt, Prog.run]
    simp only [crowded, Request.listTags]
    rw [judge_deliver lawful (policy limit) hplain, verdict, if_neg, if_pos (by simp)]
    · rfl
    · have hle : (canonicalJson [("tags", .arr ((List.replicate n tag).map .str))]).length ≤ 65536 := by omega
      exact not_lt.mpr (hle.trans (by decide))
  obtain ⟨value, hload, hnames⟩ := tagNames_page lawful (List.replicate n tag)
  refine ⟨decide (100 ≤ (List.replicate n tag).length), ?_⟩
  rw [tagPage, Action.lift_ok, Prog.ret_bind, RegistryHttpClient.listTags, Prog.run_bind]
  rw [show (Sample.adapter limit).binding.maxScanTags = 100 from rfl, hrequest]
  simp only [Reply.bounded, hload, hnames, Action.lift_ok, Prog.ret_bind,
    header_withLength _ _ (show "link" ≠ "content-length" by decide)]
  rfl

/-- Resolving a tag is not disturbed by the crowd. -/
theorem sights_crowded {w : World (Sample.setting limit False).policy} {prefixText tag : String}
    {metadata : ObjectMetadata}
    (hentry : w.entry prefixText tag = some metadata) (m n : Nat) :
    sights platform (Sample.adapter limit) (crowded tag m) prefixText (List.replicate n tag) w =
      List.replicate n (.ok true) := by
  obtain ⟨htag, resolved, hinspect, hmatch, -⟩ := World.entry_eq_some.mp hentry
  have hreads : ((Sample.adapter limit).transport.getManifest platform tag >>=
      (Sample.adapter limit).storedFromManifest platform).Uses Op.Reads :=
    (reads_getManifest _ _ tag).bind fun document => reads_storedFromManifest _ _ document
  have hother : ∀ op, (resolving op = true ∨ ∃ digest, op = .send (.getBlob digest none)) →
      ∀ v : World (Sample.setting limit False).policy, crowded tag m op v = World.answer op v := by
    rintro op (hresolving | ⟨digest, rfl⟩) v
    · cases op with
      | send request =>
        obtain ⟨method, target, contentRange, range, content⟩ := request
        cases target with
        | tags limit last => cases method <;> cases hresolving
        | _ => rfl
      | _ => rfl
    · rfl
  have hrun : ((Sample.adapter limit).transport.getManifest platform tag >>=
      (Sample.adapter limit).storedFromManifest platform).run (crowded tag m) w = (.ok resolved, w) := by
    have huses : ((Sample.adapter limit).transport.getManifest platform tag >>=
        (Sample.adapter limit).storedFromManifest platform).Uses
          fun op => resolving op = true ∨ ∃ digest, op = .send (.getBlob digest none) :=
      ((resolving_getManifest _ _).mono fun _ h => .inl h).bind fun document =>
        (uses_storedFromManifest document).mono fun _ h => .inr h
    rw [huses.run_congr (fun op v hop => hother op hop v) w]
    exact Prod.ext hinspect (run_reads w hreads)
  induction n with
  | zero => rfl
  | succ n ih =>
    rw [List.replicate_succ, List.replicate_succ, sights, if_pos htag, hrun]
    dsimp only
    rw [hmatch, ih]

/-- A list of everything under a prefix. -/
def listing (prefixText : String) (items : Nat) : Operation where
  catalog := "object"
  operationContract := "meridian.object.list"
  operationVersion := "1.0.0"
  resources := [⟨"object", "tenant", "bucket"⟩]
  requirements := []
  input := .list prefixText items none

theorem accepted_listing (prefixText : String) (items : Nat) :
    Accepted platform (Sample.adapter limit) (listing prefixText items) "list" := by
  refine ⟨?_, rfl⟩
  simp [OciDistributionAdapter.validateOperation, listing, operationVersion, availableOperationContracts, Sample.adapter,
    binding]

theorem hits_replicate (n : Nat) : hits (List.replicate n (.ok true)) = n := by
  simp [hits, Sight.hit]

theorem not_fills_crowded {n m k : Nat} (h : n < m) : ¬Fills m 0 (List.replicate n (.ok true)) k := by
  intro hfills
  have hcount := hfills.count
  rw [List.take_replicate, hits_replicate] at hcount
  omega

/-- After a put, a registry that answers with its version tag `n` times. -/
theorem exists_crowded (n : Nat) (hn : n ≤ 101) : ∃ limit tag, ∃ w : World (Sample.setting limit False).policy,
    pageSights platform (Sample.adapter limit) (crowded tag n) "a" none w = List.replicate n (.ok true) := by
  obtain ⟨limit, hfits⟩ := Plain.exists_fits { objectId := "a", text := "x" } (by decide)
  obtain ⟨w, hrun, hcatalog⟩ := run_start hfits (.aware 0)
  have hintact : Intact w.registry := hrun.intact lawful
  have hentry : w.entry "a" ((Plain.stored { objectId := "a", text := "x" }).exactName platform) =
      some (Plain.stored { objectId := "a", text := "x" }).metadata :=
    (hintact.entry_iff lawful).mpr ⟨_, by rw [hcatalog]; rfl, rfl, rfl, by decide⟩
  have htag := (wellNamed_start hintact hcatalog (by decide) (by decide) (by decide) _
    (mem_tagSet_of_entry lawful (by rw [hentry]; rfl))).1
  obtain ⟨more, hpage⟩ := tagPage_crowded htag (by decide) hn w
  refine ⟨limit, (Plain.stored { objectId := "a", text := "x" }).exactName platform, w, ?_⟩
  rw [pageSights, hpage]
  exact sights_crowded hentry n n

/-- One tag more than was asked for is resolved and returned, although both bounds are lower. -/
theorem list_unbounded : ∃ limit, ∃ answer : (op : Op) → World (Sample.setting limit False).policy →
      Except Err (Op.Res op) × World (Sample.setting limit False).policy,
    ∃ w trace outcome w',
    Accepted platform (Sample.adapter limit) (listing "a" 200) "list" ∧
    Traces (Environment.ofFunction answer) ((Sample.adapter limit).execute platform (listing "a" 200)) w trace
      outcome w' ∧
    (Sample.adapter limit).binding.maxScanTags < resolutions trace ∧
    ∃ items next, outcome = .ok (.list items next) ∧
      min 200 (Sample.adapter limit).binding.maxListPageSize < items.length := by
  obtain ⟨limit, tag, w, hsights⟩ := exists_crowded 101 (by decide)
  obtain ⟨trace, htrace⟩ := (@Performs.run _ _ _ _ _ (crowded tag 101)
    ((Sample.adapter limit).execute platform (listing "a" 200)) w).traces
  refine ⟨limit, crowded tag 101, w, trace, _, _, accepted_listing _ _, htrace, ?_⟩
  have hlist := htrace
  rw [execute_list (accepted_listing _ _) rfl] at hlist
  obtain ⟨returned, hscan, hreturned⟩ := list_scan "a" 200 none hlist
  rw [hsights] at hscan
  rcases hscan.ends with ⟨hfills, -⟩ | ⟨-, hlooked, hresult, -⟩
  · exact absurd hfills (not_fills_crowded (by decide))
  rw [hits_replicate] at hresult
  rw [List.length_replicate] at hlooked
  refine ⟨hlooked ▸ (by decide : 100 < 101), ?_⟩
  rcases hresult with hsome | ⟨-, sight, hsight, herror⟩
  · rcases hreturned with ⟨items, next, houtcome, heq⟩ | ⟨-, hnone | hzero⟩
    · have hlength := Option.some.inj (heq.symm.trans hsome)
      refine ⟨items, next, ?_, ?_⟩
      · rw [execute_list (accepted_listing _ _) rfl]
        exact houtcome
      · rw [hlength]
        exact (by decide : min 200 100 < 0 + 101)
    · cases hnone.symm.trans hsome
    · cases hzero.symm.trans hsome
  · rw [List.eq_of_mem_replicate hsight] at herror
    cases herror

/-- As many tags as were asked for are within the bounds. -/
theorem list_bounded_crowded : ∃ limit, ∃ answer : (op : Op) → World (Sample.setting limit False).policy →
      Except Err (Op.Res op) × World (Sample.setting limit False).policy,
    ∃ w trace outcome w',
    Traces (Environment.ofFunction answer) ((Sample.adapter limit).execute platform (listing "a" 200)) w trace
      outcome w' ∧
    WithinBinding (Sample.adapter limit) 200 trace outcome := by
  obtain ⟨limit, tag, w, hsights⟩ := exists_crowded 100 (by decide)
  obtain ⟨trace, htrace⟩ := (@Performs.run _ _ _ _ _ (crowded tag 100)
    ((Sample.adapter limit).execute platform (listing "a" 200)) w).traces
  refine ⟨limit, crowded tag 100, w, trace, _, _, htrace, (list_bounded (accepted_listing _ _) rfl htrace).mpr ?_⟩
  rw [hsights]
  refine ⟨.inl (by rw [List.length_replicate]; exact le_refl 100), fun k hk => ?_, fun _ _ => ?_⟩
  · exact absurd hk (not_fills_crowded (by decide))
  · rw [hits_replicate]
    exact (by decide : 100 ≤ min 200 100)

end Sample

end MeridianOci.Service
