import MeridianOci.Data.Paging
import MeridianOci.Service.Integrity

/-!
# Listing

`_list` over any repository: a page of tags after the one that the cursor names, each
version tag on it resolved. What a list call returns is what its tags resolve to, and
following the cursors is a paged walk over the tags.
-/
namespace MeridianOci.Service

open MeridianOci.Data MeridianOci.Effect MeridianOci.Model

set_option autoImplicit false

variable {P : Platform} {adapter : OciDistributionAdapter}
variable {setting : Setting P adapter.transport.binding}

/-! ## Reads that return -/

/-- What a program that reads returns, is what it reads in this world. -/
abbrev Reliable (setting : Setting P adapter.transport.binding) {α : Type} (w : World setting.policy)
    (program : Action α) : Prop :=
  program.Truthful setting.env World.answer setting.faults w

section Reads

variable (laws : P.Lawful) (w : World setting.policy)

include laws

theorem reliable_request {request : Request} (hreads : Request.Reads request) {expected : List Nat}
    (hexpected : ∀ status ∈ expected, status < 400 ∨ status = 404) (maximumBytes : Nat) :
    Reliable setting w (adapter.transport.request P request expected true maximumBytes) := by
  have hread : ∀ v : World setting.policy, v.apply request = v := apply_reads hreads
  by_cases hfaults : setting.faults
  · refine (request_read_ensures laws setting.reading (fun _ _ _ => trivial) (build_reads hreads) hexpected hread).mono ?_
    rintro outcome w' ⟨rfl, h⟩
    refine ⟨rfl, ?_⟩
    cases outcome with
    | error error => exact .inr ⟨hfaults, error, rfl⟩
    | ok response =>
      left
      obtain ⟨rfl, hstatus, hlength⟩ := h
      have hstatus : (w.reply request).status ∈ expected := hstatus
      rw [request_run laws w (build_reads hreads), hread, verdict, if_neg (by omega), if_pos hstatus]
  · refine (reads_request P adapter.transport hreads expected true maximumBytes).truthful ?_
    rintro op v answer v' ⟨other, rfl, hother⟩ henv
    rcases henv with ⟨rfl, rfl⟩ | ⟨h, -⟩
    · refine ⟨apply_reads hother v, ?_⟩
      rw [World.answer, apply_reads hother v]
    · exact absurd h hfaults

theorem reliable_getManifest (reference : String) :
    Reliable setting w (adapter.transport.getManifest P reference) := by
  unfold RegistryHttpClient.getManifest
  refine (reliable_request laws w ⟨reference, none, .inr (.inr (.inr (.inl rfl)))⟩ (by decide) _).bind
    fun response => ?_
  dsimp only
  repeat' split
  all_goals first | exact Prog.truthful_raise _ | exact Prog.truthful_ret _

theorem reliable_getBlobBytes (descriptor : OciDescriptor P) (maximumBytes : Nat) :
    Reliable setting w (adapter.transport.getBlobBytes P descriptor maximumBytes) := by
  unfold RegistryHttpClient.getBlobBytes
  split
  · exact Prog.truthful_raise _
  · refine (reliable_request laws w ⟨descriptor.digest, none, .inl rfl⟩ (by decide) _).bind fun response => ?_
    dsimp only
    repeat' split
    all_goals first | exact Prog.truthful_raise _ | exact Prog.truthful_ret _

theorem reliable_storedFromManifest (document : ManifestDocument P) :
    Reliable setting w (adapter.storedFromManifest P document) := by
  unfold OciDistributionAdapter.storedFromManifest
  cases manifestDescriptors document with
  | error error =>
    dsimp only
    split <;> exact Prog.truthful_raise _
  | ok descriptors =>
    obtain ⟨config, payload, subject⟩ := descriptors
    simp only [Prog.pure_eq, Prog.ret_bind]
    refine (reliable_getBlobBytes laws w _ _).bind fun configBytes => ?_
    cases StoredObject.fromBytes P configBytes adapter.binding.maxMetadataBytes with
    | error error =>
      dsimp only
      split <;> exact Prog.truthful_raise _
    | ok stored =>
      dsimp only [Prog.ret_bind]
      split
      · exact Prog.truthful_raise _
      · exact Prog.truthful_ret _

theorem reliable_storedForReference (reference : ObjectReference) :
    Reliable setting w (adapter.storedForReference P reference) := by
  unfold OciDistributionAdapter.storedForReference
  refine (Prog.truthful_ofExcept _).bind fun tag => ?_
  refine (reliable_getManifest laws w tag).bind fun document => ?_
  refine (reliable_storedFromManifest laws w document).bind fun resolved => ?_
  dsimp only
  split
  · exact Prog.truthful_raise _
  split
  · exact Prog.truthful_raise _
  split
  · exact Prog.truthful_raise _
  refine (Prog.truthful_ofExcept _).bind fun anchorReference => ?_
  refine (reliable_getManifest laws w anchorReference).bind fun anchor => ?_
  refine (Prog.truthful_ofExcept _).bind fun descriptors => ?_
  split
  · exact Prog.truthful_raise _
  · exact Prog.truthful_ret _

end Reads

/-! ## One list call -/

section Scan

variable {policy : Policy P adapter.transport.binding}

/-- What a tag resolves to. -/
def World.inspect (w : World policy) (tag : String) : Except Err (ResolvedObject P) :=
  ((adapter.transport.getManifest P tag >>= adapter.storedFromManifest P).run World.answer w).1

def IsVersionTag (tag : String) : Prop := versionTagPrefix.toList.isPrefixOf tag.toList = true

instance (tag : String) : Decidable (IsVersionTag tag) := inferInstanceAs (Decidable (_ = true))

/-- The item that a tag contributes to a listing. -/
def World.entry (w : World policy) (prefixText tag : String) : Option ObjectMetadata :=
  if IsVersionTag tag then
    match w.inspect tag with
    | .ok resolved =>
      if prefixText.toList.isPrefixOf resolved.stored.metadata.objectRef.objectId.toList then
        some resolved.stored.metadata
      else none
    | .error _ => none
  else none

/-- Every version tag among these resolves. -/
def World.Sound (w : World policy) (tags : List String) : Prop :=
  ∀ tag ∈ tags, IsVersionTag tag → ∃ resolved, w.inspect tag = .ok resolved

theorem World.entry_eq_some {w : World policy} {prefixText tag : String} {metadata : ObjectMetadata} :
    w.entry prefixText tag = some metadata ↔ IsVersionTag tag ∧ ∃ resolved, w.inspect tag = .ok resolved ∧
      prefixText.toList.isPrefixOf resolved.stored.metadata.objectRef.objectId.toList = true ∧
      resolved.stored.metadata = metadata := by
  unfold World.entry
  by_cases htag : IsVersionTag tag
  · rw [if_pos htag]
    cases w.inspect tag with
    | error error => simp
    | ok resolved => simp [htag]
  · simp [htag]

end Scan

/-! ## Pages of tags -/

variable (adapter) in
/-- The bound that a cursor stands for. -/
def Cursor (P : Platform) (bound : Option String) (cursor : Option String) : Prop :=
  cursor = bound.map (CursorCodec.encode P adapter.binding.cursorSigningKey) ∧
    ∀ tag, bound = some tag → isTag P tag = true

/-- Tags as the distribution specification allows them. -/
def Registry.WellNamed {policy : Policy P adapter.transport.binding} (registry : Registry policy) : Prop :=
  ∀ tag ∈ registry.tags.keys, isTag P tag = true ∧ tag.toList.length ≤ 128

/-- The tags of a registry. -/
def Registry.tagSet {policy : Policy P adapter.transport.binding} (registry : Registry policy) : Set String :=
  {tag | tag ∈ registry.tags.keys}

theorem mem_remainingTags {policy : Policy P adapter.transport.binding} {registry : Registry policy}
    {bound : Option String} {tag : String} :
    tag ∈ registry.remainingTags bound ↔ tag ∈ registry.tagSet ∧ Paging.After bound tag := by
  cases bound with
  | none => simp [Registry.remainingTags, Registry.tagSet, Paging.After]
  | some last => simp [Registry.remainingTags, Registry.tagSet, Paging.After]

theorem sorted_remainingTags {policy : Policy P adapter.transport.binding} (registry : Registry policy)
    (bound : Option String) : (registry.remainingTags bound).Pairwise (· < ·) := by
  have hkeys : registry.tags.keys.Pairwise (· < ·) :=
    (Std.ExtTreeMap.ordered_keys (t := registry.tags)).imp fun h => compare_lt_iff_lt.mp h
  cases bound with
  | none => exact hkeys
  | some last => exact hkeys.filter _

/-- A tag character is written as itself, in one byte. -/
theorem isTagChar_written {c : Char} (h : isTagChar c = true) :
    Json.escapeChar false c = [c] ∧ (String.utf8EncodeChar c).length = 1 := by
  have hle := CursorCodec.isTagChar_le h
  have hge : 45 ≤ c.toNat := by
    simp only [isTagChar, Char.isAlphanum, Char.isDigit, Bool.or_eq_true] at h
    delta Char.isAlpha Char.isUpper Char.isLower at h
    simp only [Bool.or_eq_true, Bool.and_eq_true, decide_eq_true_eq] at h
    have hval : ∀ a b : Char, a ≤ b → a.toNat ≤ b.toNat := fun a b h => h
    rcases h with ((((⟨h, _⟩ | ⟨h, _⟩) | ⟨h, _⟩) | rfl) | rfl) | rfl
    · exact le_trans (by decide) (hval 'A' _ h)
    · exact le_trans (by decide) (hval 'a' _ h)
    · exact le_trans (by decide) (hval '0' _ h)
    all_goals decide
  have hne : ∀ other : Char, isTagChar other = false → c ≠ other := by
    rintro other hother rfl
    rw [h] at hother
    cases hother
  constructor
  · simp only [Json.escapeChar, hne '"' (by decide), hne '\\' (by decide), hne '\n' (by decide),
      hne '\r' (by decide), hne '\t' (by decide), if_false, Bool.false_and]
    rw [if_neg (by omega), if_neg (by omega), if_neg (by omega)]
    rfl
  · rw [String.length_utf8EncodeChar]
    exact Char.utf8Size_eq_one_iff.mpr (by
      have : c.val.toNat ≤ 127 := by
        have : c.val.toNat = c.toNat := rfl
        omega
      exact this)

theorem length_utf8_append (text rest : List Char) : (utf8 (text ++ rest)).length = (utf8 text).length + (utf8 rest).length := by
  simp [utf8]

theorem length_dumpString {text : List Char} (h : ∀ c ∈ text, isTagChar c = true) :
    (utf8 (Json.dumpString false text)).length = text.length + 2 := by
  have hchars : text.flatMap (Json.escapeChar false) = text := by
    rw [List.flatMap_congr fun c hc => (isTagChar_written (h c hc)).1]
    exact List.flatMap_singleton' text
  have htext : (utf8 text).length = text.length := by
    rw [utf8, List.length_flatMap, List.map_congr_left fun c hc => (isTagChar_written (h c hc)).2]
    simp
  rw [Json.dumpString, hchars, ← List.singleton_append, length_utf8_append, length_utf8_append, htext]
  have hquote : (utf8 ['"']).length = 1 := by decide
  omega

theorem isTagChar_of_isTag {tag : String} (h : isTag P tag = true) : ∀ c ∈ tag.toList, isTagChar c = true := by
  intro c hc
  unfold isTag at h
  split at h
  · cases h
  · rename_i head rest heq
    simp only [Bool.and_eq_true, List.all_eq_true] at h
    rw [heq] at hc
    rcases List.mem_cons.mp hc with rfl | hrest
    · rw [isTagChar, h.1.1]
      rfl
    · exact h.1.2 c hrest

/-- A page of short tags fits within the bound that the client sets for it. -/
theorem length_page {names : List String} (h : ∀ name ∈ names, isTag P name = true ∧ name.toList.length ≤ 128) :
    (canonicalJson [("tags", .arr (names.map .str))]).length ≤ 131 * names.length + 16 := by
  have hitems : ∀ names : List String, (∀ name ∈ names, isTag P name = true ∧ name.toList.length ≤ 128) →
      (utf8 (Json.dumpItems false (names.map .str))).length ≤ 131 * names.length + 1 := by
    intro names hnames
    induction names with
    | nil => decide
    | cons name rest ih =>
      have hname := hnames name List.mem_cons_self
      have hlength := length_dumpString (isTagChar_of_isTag hname.1)
      have hrest := ih fun other hother => hnames other (List.mem_cons_of_mem _ hother)
      have hcomma : (utf8 [',']).length = 1 := by decide
      rw [List.map_cons, Json.dumpItems, Json.dump, ← List.singleton_append, length_utf8_append,
        length_utf8_append, List.length_cons]
      omega
  have harr : (utf8 (Json.dump false (.arr (names.map .str)))).length ≤ 131 * names.length + 2 := by
    cases names with
    | nil => decide
    | cons name rest =>
      have hname := h name List.mem_cons_self
      have hlength := length_dumpString (isTagChar_of_isTag hname.1)
      have hrest := hitems rest fun other hother => h other (List.mem_cons_of_mem _ hother)
      have hbracket : (utf8 ['[']).length = 1 := by decide
      rw [List.map_cons, Json.dump, Json.dump, ← List.singleton_append, length_utf8_append,
        length_utf8_append, List.length_cons]
      omega
  have hsorted : ∀ names : List String, Json.sortItems (names.map .str) = names.map .str := by
    intro names
    induction names with
    | nil => rfl
    | cons name rest ih => simp only [List.map_cons, Json.sortItems, Json.sortKeys, ih]
  have hkey : (utf8 (Json.dumpString false "tags".toList)).length = 6 := length_dumpString (List.all_eq_true.mp (by decide))
  have hopen : (utf8 ['\x7b']).length = 1 := by decide
  have hcolon : (utf8 [':']).length = 1 := by decide
  have hclose : (utf8 ['\x7d']).length = 1 := by decide
  simp only [canonicalJson, Json.dumps, Json.sortKeys, Json.sortFields, hsorted, Json.insertField, Json.dump,
    Json.dumpFields]
  rw [← List.singleton_append, length_utf8_append, length_utf8_append, ← List.singleton_append (l := _ ++ _),
    length_utf8_append, length_utf8_append, hopen, hkey, hcolon, hclose]
  omega

/-- What was looked at is a page if it is an initial part of what lies after the bound. -/
theorem page_of_prefix {policy : Policy P adapter.transport.binding} {registry : Registry policy}
    {bound next : Option String} {front : List String} (hinitial : front <+: registry.remainingTags bound)
    (hnext : ∀ tag, next = some tag → front.getLast? = some tag)
    (hnone : next = none → front = registry.remainingTags bound) :
    Paging.Page registry.tagSet bound front next := by
  obtain ⟨later, happend⟩ := hinitial
  have hsorted := sorted_remainingTags registry bound
  rw [← happend] at hsorted
  obtain ⟨hfront, -, hbefore⟩ := List.pairwise_append.mp hsorted
  refine ⟨hfront, fun tag htag => mem_remainingTags.mp (happend ▸ List.mem_append_left _ htag), ?_,
    hnext, fun hend tag hpresent hafter => ?_⟩
  · intro tag hpresent hafter other hother hle
    have htag := mem_remainingTags.mpr ⟨hpresent, hafter⟩
    rw [← happend] at htag
    rcases List.mem_append.mp htag with hmem | hlater
    · exact hmem
    · exact absurd (hbefore other hother tag hlater) (not_lt.mpr hle)
  · rw [hnone hend]
    exact mem_remainingTags.mpr ⟨hpresent, hafter⟩

/-- The client takes in every page of tags that are well named. -/
theorem page_fits {policy : Policy P adapter.transport.binding} {registry : Registry policy}
    (hnamed : registry.WellNamed) (bound : Option String) :
    (respondTags registry adapter.binding.maxScanTags bound).body.length ≤
      max defaultResponseBytes (adapter.binding.maxScanTags * 192 + 1024) := by
  have hshort := @length_page P ((registry.remainingTags bound).take
    (policy.pageLength adapter.binding.maxScanTags (registry.remainingTags bound)))
    fun name hname => hnamed name (mem_remainingTags.mp (List.mem_of_mem_take hname)).1
  have hcount : ((registry.remainingTags bound).take (policy.pageLength adapter.binding.maxScanTags
      (registry.remainingTags bound))).length ≤ adapter.binding.maxScanTags :=
    (List.length_take_le _ _).trans (policy.pageLength_le _ _)
  have hbody : (respondTags registry adapter.binding.maxScanTags bound).body = canonicalJson [("tags",
      .arr (((registry.remainingTags bound).take (policy.pageLength adapter.binding.maxScanTags
        (registry.remainingTags bound))).map .str))] := rfl
  rw [hbody]
  omega

/-- The page after a bound holds something if anything remains. -/
def Registry.Advances {policy : Policy P adapter.transport.binding} (registry : Registry policy) (limit : Nat)
    (bound : Option String) : Prop :=
  registry.remainingTags bound ≠ [] → 0 < policy.pageLength limit (registry.remainingTags bound)

/-- An empty page is the last one. -/
theorem remainingTags_eq_nil {policy : Policy P adapter.transport.binding} {registry : Registry policy}
    {limit : Nat} {bound : Option String} (hadvances : registry.Advances limit bound)
    (h : (registry.remainingTags bound).take (policy.pageLength limit (registry.remainingTags bound)) = []) :
    registry.remainingTags bound = [] := by
  by_contra hne
  have hpos := hadvances hne
  have hlength := congrArg List.length h
  rw [List.length_nil, List.length_take] at hlength
  have := List.length_pos_iff.mpr hne
  omega

section List

variable (laws : P.Lawful) (w : World setting.policy)

include laws

theorem inspect_ensures (tag : String) :
    (adapter.transport.getManifest P tag >>= adapter.storedFromManifest P).Ensures setting.env
      (fun _ _ => True) w fun outcome w' => w' = w ∧
        (w.inspect tag = outcome ∨ (setting.faults ∧ ∃ error, outcome = .error error)) := by
  refine ((reliable_getManifest laws w tag).bind fun document =>
    reliable_storedFromManifest laws w document).mono ?_
  rintro outcome w' ⟨rfl, h⟩
  refine ⟨rfl, h.imp_left fun hrun => ?_⟩
  rw [World.inspect, hrun]

/-- How far a scan of tags got, and what it found. -/
structure Scanned (w : World setting.policy) (prefixText : String) (tags : List String)
    (items : List ObjectMetadata) (scanned : Option String) (result : List ObjectMetadata × Option String × Bool)
    (front rest : List String) : Prop where
  tags : tags = front ++ rest
  sound : w.Sound front
  items : result.1 = items ++ front.filterMap (w.entry prefixText)
  last : result.2.1 = front.getLast?.or scanned
  stopped : result.2.2 = true → front ≠ []
  finished : result.2.2 = false → rest = []

theorem scanTags_ensures (prefixText : String) (limit : Nat) (tags : List String)
    (items : List ObjectMetadata) (scanned : Option String) :
    (adapter.scanTags P prefixText limit tags items scanned).Ensures setting.env (fun _ _ => True) w
      fun outcome w' => w' = w ∧
        match outcome with
        | .ok result => ∃ front rest, Scanned w prefixText tags items scanned result front rest
        | .error _ => setting.faults ∨ ¬w.Sound tags := by
  induction tags generalizing items scanned with
  | nil => exact ⟨rfl, [], [], rfl, (fun _ h => by cases h), by simp, rfl, (fun h => by cases h), fun _ => rfl⟩
  | cons tag rest ih =>
    -- the scan goes on behind the first tag
    have hnext : ∀ items', (IsVersionTag tag → ∃ resolved, w.inspect tag = .ok resolved) →
        items' = items ++ [tag].filterMap (w.entry prefixText) →
        (adapter.scanTags P prefixText limit rest items' (some tag)).Ensures setting.env (fun _ _ => True) w
          fun outcome w' => w' = w ∧
            match outcome with
            | .ok result => ∃ front rest', Scanned w prefixText (tag :: rest) items scanned result front rest'
            | .error _ => setting.faults ∨ ¬w.Sound (tag :: rest) := by
      rintro items' hsound rfl
      refine (ih _ (some tag)).mono ?_
      rintro outcome w' ⟨rfl, h⟩
      refine ⟨rfl, ?_⟩
      cases outcome with
      | error error =>
        refine h.imp_right fun hbad hgood => hbad fun other hother => ?_
        exact hgood other (List.mem_cons_of_mem _ hother)
      | ok result =>
        obtain ⟨front, rest', h⟩ := h
        refine ⟨tag :: front, rest', by rw [h.tags, List.cons_append], ?_, ?_, ?_, fun _ => by simp, h.finished⟩
        · intro other hother htag
          rcases List.mem_cons.mp hother with rfl | hmem
          · exact hsound htag
          · exact h.sound other hmem htag
        · rw [h.items, List.append_assoc, ← List.filterMap_append, List.singleton_append]
        · rw [h.last, List.getLast?_cons]
          cases front.getLast? <;> rfl
    unfold OciDistributionAdapter.scanTags
    split
    · rename_i htag
      have htag : ¬IsVersionTag tag := fun h => by simp [show _ = true from h] at htag
      refine hnext items (fun h => absurd h htag) ?_
      simp [World.entry, htag]
    · rename_i htag
      have htag : IsVersionTag tag := by
        rw [IsVersionTag]
        simpa using htag
      rw [← Prog.bind_assoc]
      refine (inspect_ensures laws w tag).bind ?_ ?_
      · rintro resolved w' ⟨rfl, h⟩
        have hinspect : w'.inspect tag = .ok resolved := by
          rcases h with h | ⟨-, error, heq⟩
          · exact h
          · cases heq
        -- the items with the contribution of this tag
        have hentry : (if prefixText.toList.isPrefixOf resolved.stored.metadata.objectRef.objectId.toList then
            items ++ [resolved.stored.metadata] else items) =
              items ++ [tag].filterMap (w'.entry prefixText) := by
          cases hmatch : prefixText.toList.isPrefixOf resolved.stored.metadata.objectRef.objectId.toList
          · simp [World.entry, htag, hinspect, hmatch]
          · simp [World.entry, htag, hinspect, hmatch]
        dsimp only
        rw [hentry]
        split
        · refine ⟨rfl, [tag], rest, rfl, ?_, rfl, rfl, fun _ => by simp, fun h => by cases h⟩
          intro other hother _
          rw [List.mem_singleton.mp hother]
          exact ⟨resolved, hinspect⟩
        · exact hnext _ (fun _ => ⟨resolved, hinspect⟩) rfl
      · rintro error w' ⟨rfl, h⟩
        refine ⟨rfl, ?_⟩
        rcases h with h | ⟨hfaults, -⟩
        · right
          intro hgood
          obtain ⟨resolved, hinspect⟩ := hgood tag List.mem_cons_self htag
          rw [h] at hinspect
          cases hinspect
        · exact .inl hfaults

/-- What an error of a list call says of a repository. -/
def Unlistable (w : World setting.policy) : Prop :=
  setting.faults ∨ ¬w.registry.WellNamed ∨ ¬w.Sound w.registry.tags.keys

/-- A list call that returns has looked at one page of tags. -/
theorem list_ensures (prefixText : String) (limit : Nat) {bound cursor : Option String}
    (hcursor : Cursor adapter P bound cursor) :
    (adapter.list P prefixText limit cursor).Ensures setting.env (fun _ _ => True) w fun outcome w' => w' = w ∧
      match outcome with
      | .ok result => ∃ items scanned next,
          result = .list items (next.map (CursorCodec.encode P adapter.binding.cursorSigningKey)) ∧
          ((next = none → w.registry.Advances adapter.binding.maxScanTags bound) →
            Paging.Page w.registry.tagSet bound scanned next) ∧
          items = scanned.filterMap (w.entry prefixText) ∧ w.Sound scanned ∧
          scanned <+: (w.registry.remainingTags bound).take
            (setting.policy.pageLength adapter.binding.maxScanTags (w.registry.remainingTags bound))
      | .error _ => Unlistable w := by
  unfold OciDistributionAdapter.list
  refine Prog.Ensures.bind (R := fun outcome w' => outcome = .ok bound ∧ w' = w) ?_ ?_
    (by rintro error w' ⟨heq, -⟩; cases heq)
  · obtain ⟨rfl, htag⟩ := hcursor
    cases bound with
    | none => exact ⟨rfl, rfl⟩
    | some tag =>
      simp only [Option.map_some, CursorCodec.decode_encode laws _ (htag tag rfl), Except.map]
      exact ⟨rfl, rfl⟩
  rintro last w' ⟨heq, rfl⟩
  obtain rfl := Except.ok.inj heq
  refine (listTags_ensures laws (fun _ => trivial) w' adapter.binding.maxScanTags last).bind ?_ ?_
  · rintro page w ⟨rfl, htags, hmore⟩
    have hpage : ∀ tag ∈ page.tags, tag ∈ w.registry.tags.keys := by
      intro tag htag
      rw [htags] at htag
      exact (mem_remainingTags.mp (List.mem_of_mem_take htag)).1
    refine (scanTags_ensures laws w prefixText limit page.tags [] none).bind ?_ ?_
    · rintro ⟨items, scanned, stopped⟩ w ⟨rfl, front, rest, h⟩
      have hitems := h.items
      have hscanned := h.last
      simp only [List.nil_append, Option.or_none] at hitems hscanned
      have hsub : front ⊆ page.tags := by
        rw [h.tags]
        exact List.subset_append_left _ _
      -- what was looked at is an initial part of what lies after the cursor
      have hfront : front <+: (w.registry.remainingTags last).take
          (setting.policy.pageLength adapter.binding.maxScanTags (w.registry.remainingTags last)) :=
        htags ▸ ⟨rest, h.tags.symm⟩
      have hinitial : front <+: w.registry.remainingTags last := hfront.trans (List.take_prefix _ _)
      have hpage : ∀ next, (∀ tag, next = some tag → front.getLast? = some tag) →
          (next = none → front = w.registry.remainingTags last) →
          Paging.Page w.registry.tagSet last front next := fun next => page_of_prefix hinitial
      have hrest : stopped = false → page.tags = front := by
        intro hstopped
        rw [h.tags, h.finished hstopped, List.append_nil]
      cases hlast : front.getLast? with
      | some tag =>
        obtain rfl : scanned = some tag := hscanned.trans hlast
        dsimp only
        split
        · exact ⟨rfl, items, front, some tag, rfl,
            fun _ => hpage _ (fun _ heq => heq ▸ hlast) (fun heq => by cases heq), hitems, h.sound, hfront⟩
        · rename_i hend
          simp only [Bool.or_eq_true, not_or, Bool.not_eq_true] at hend
          refine ⟨rfl, items, front, none, rfl, fun _ => hpage _ (fun _ heq => by cases heq) fun _ => ?_, hitems,
            h.sound, hfront⟩
          rw [← hrest hend.1, hmore hend.2]
      | none =>
        obtain rfl : scanned = none := hscanned.trans hlast
        have hempty := List.getLast?_eq_none_iff.mp hlast
        refine ⟨rfl, items, front, none, rfl, fun hadvances => hpage _ (fun _ heq => by cases heq) fun _ => ?_,
          hitems, h.sound, hfront⟩
        -- an empty page is the last one
        have hstopped : stopped = false := by
          cases stopped with
          | false => rfl
          | true => exact absurd hempty (h.stopped rfl)
        rw [hempty]
        exact (remainingTags_eq_nil (hadvances rfl) (htags.symm.trans ((hrest hstopped).trans hempty))).symm
    · rintro error w ⟨rfl, h⟩
      refine ⟨rfl, h.imp_right fun hbad => .inr fun hgood => hbad fun tag htag => ?_⟩
      exact hgood tag (hpage tag htag)
  · rintro error w ⟨rfl, h⟩
    refine ⟨rfl, h.imp_right fun hlong => .inl fun hnamed => ?_⟩
    exact absurd hlong (not_lt.mpr (page_fits hnamed last))

/-- An empty page ends a walk, whatever remains behind the cursor. -/
theorem list_ends (prefixText : String) (limit : Nat) {bound cursor : Option String}
    (hcursor : Cursor adapter P bound cursor)
    (hempty : setting.policy.pageLength adapter.binding.maxScanTags (w.registry.remainingTags bound) = 0) :
    (adapter.list P prefixText limit cursor).Ensures setting.env (fun _ _ => True) w fun outcome _ =>
      outcome = .ok (.list [] none) ∨ Unlistable w := by
  refine (list_ensures laws w prefixText limit hcursor).mono ?_
  rintro outcome w' ⟨-, h⟩
  cases outcome with
  | error error => exact .inr h
  | ok result =>
    obtain ⟨items, scanned, next, rfl, hpage, rfl, -, hscanned⟩ := h
    rw [hempty, List.take_zero] at hscanned
    obtain rfl := List.prefix_nil.mp hscanned
    cases next with
    | none => exact .inl rfl
    | some tag =>
      have hpage := hpage fun h => by cases h
      cases hpage.last_mem

end List

/-! ## The limit of a call -/

theorem scanTags_length (prefixText : String) {limit : Nat} (tags : List String) {items : List ObjectMetadata}
    (scanned : Option String) (hitems : items.length < limit) :
    (adapter.scanTags P prefixText limit tags items scanned).Returns fun result => result.1.length ≤ limit := by
  induction tags generalizing items scanned with
  | nil => exact hitems.le
  | cons tag rest ih =>
    unfold OciDistributionAdapter.scanTags
    split
    · exact ih _ hitems
    · refine Prog.returns_bind fun document => Prog.returns_bind fun resolved => ?_
      dsimp only
      generalize hnext : (if prefixText.toList.isPrefixOf resolved.stored.metadata.objectRef.objectId.toList then
        items ++ [resolved.stored.metadata] else items) = next
      have hlength : next.length ≤ items.length + 1 := by
        rw [← hnext]
        split
        · exact (List.length_append ..).le
        · exact Nat.le_succ _
      split
      · rename_i heq
        exact heq.le
      · exact ih _ (by omega)

/-- A list call returns no more items than it was asked for. -/
theorem list_length (prefixText : String) {limit : Nat} (hlimit : 0 < limit) (cursor : Option String) :
    (adapter.list P prefixText limit cursor).Returns fun result => ∀ items next, result = .list items next →
      items.length ≤ limit := by
  unfold OciDistributionAdapter.list
  refine Prog.returns_bind fun last => Prog.returns_bind fun page => ?_
  refine (scanTags_length prefixText page.tags none hlimit).bind ?_
  rintro ⟨items, scanned, stopped⟩ hitems
  have hlist : ∀ found items' next, Result.list items found = .list items' next → items'.length ≤ limit := by
    intro found items' next heq
    obtain ⟨rfl, -⟩ := Result.list.inj heq
    exact hitems
  dsimp only
  repeat' split
  all_goals exact hlist _

/-! ## Version tags of an intact repository -/

section Intact

variable {policy : Policy P adapter.transport.binding} (laws : P.Lawful) {w : World policy}
variable (hintact : Intact w.registry)

theorem isVersionTag_versionName (objectId digest : String) : IsVersionTag (versionName P objectId digest) := by
  simp [IsVersionTag, versionTagPrefix, versionName, List.isPrefixOf]

theorem not_isVersionTag_latestName (objectId : String) : ¬IsVersionTag (latestName P objectId) := by
  simp [IsVersionTag, versionTagPrefix, latestName, List.isPrefixOf]

theorem mem_tagSet {registry : Registry policy} {tag : String} :
    tag ∈ registry.tagSet ↔ ∃ body, registry.tagged tag = some body := by
  rw [Registry.tagSet, Set.mem_ofPred_eq, Std.ExtTreeMap.mem_keys, Std.ExtTreeMap.mem_iff_isSome_getElem?,
    ← not_iff_not, Option.not_isSome_iff_eq_none, ← Registry.tagged_eq_none]
  simp [Option.eq_none_iff_forall_ne_some]

include laws

omit laws in
theorem storedFromManifest_manifest (document : ManifestDocument P) :
    (adapter.storedFromManifest P document).Returns fun resolved => resolved.manifest = document := by
  unfold OciDistributionAdapter.storedFromManifest
  cases manifestDescriptors document with
  | error error =>
    dsimp only
    split <;> trivial
  | ok descriptors =>
    obtain ⟨config, payload, subject⟩ := descriptors
    simp only [Prog.pure_eq, Prog.ret_bind]
    refine Prog.returns_bind fun configBytes => ?_
    cases StoredObject.fromBytes P configBytes adapter.binding.maxMetadataBytes with
    | error error =>
      dsimp only
      split <;> trivial
    | ok stored =>
      dsimp only [Prog.ret_bind]
      split
      · trivial
      · exact rfl

omit laws in
theorem isPrefixOf_of_isVersionTag {tag : String} (h : IsVersionTag tag) :
    ['s', 'h', 'a', '2', '5', '6', ':'].isPrefixOf tag.toList = false := by
  have hversion := List.isPrefixOf_iff_prefix.mp h
  rw [← Bool.not_eq_true, List.isPrefixOf_iff_prefix]
  intro hsha
  rcases List.prefix_or_prefix_of_prefix hversion hsha with hle | hle
  · exact absurd hle (by decide)
  · exact absurd hle (by decide)

/-- Only what is tagged resolves. -/
theorem tagged_of_inspect {tag : String} (htag : IsVersionTag tag) {resolved : ResolvedObject P}
    (h : w.inspect tag = .ok resolved) : w.registry.tagged tag = some resolved.manifest.body := by
  have hplain := isPrefixOf_of_isVersionTag htag
  obtain ⟨document, w', hfirst, hsecond⟩ := Prog.run_bind_ok h
  have hdocument := (getManifest_ensures laws reading_answer (G := Eq) (fun _ _ h => h) w hplain).run
  rw [hfirst] at hdocument
  obtain ⟨rfl, htagged, -⟩ := hdocument
  rw [Registry.resolve_tag hplain] at htagged
  rw [(storedFromManifest_manifest document).run hsecond, htagged]

include hintact

/-- The version tags of an intact repository are the exact tags of its versions. -/
theorem Intact.inspect {tag : String} (htag : IsVersionTag tag) {body : Bytes}
    (h : w.registry.tagged tag = some body) : ∃ stored resolved, adapter.Published P stored body ∧
      tag = stored.exactName P ∧ w.inspect tag = .ok resolved ∧ resolved.stored = stored := by
  have hplain := isPrefixOf_of_isVersionTag htag
  obtain ⟨stored, hpublished, hname⟩ : ∃ stored, adapter.Published P stored body ∧ tag = stored.exactName P := by
    cases hintact.tags tag body h with
    | anchor objectId hbody =>
      rw [IsVersionTag, isPrefixOf_versionTagPrefix] at htag
      cases htag
    | exact stored hpublished => exact ⟨stored, hpublished, rfl⟩
    | latest stored hpublished hexact => exact absurd htag (not_isVersionTag_latestName _)
  have hinspect : (adapter.transport.getManifest P tag >>= adapter.storedFromManifest P).Ensures
      (Environment.ofFunction World.answer) Eq w fun outcome _ =>
        ∃ resolved, outcome = .ok resolved ∧ resolved.stored = stored := by
    refine (getManifest_ensures laws reading_answer (G := Eq) (fun _ _ h => h) w hplain).bind ?_ ?_
    · rintro document w' ⟨rfl, htagged, -⟩
      rw [Registry.resolve_tag hplain, h] at htagged
      obtain rfl := Option.some.inj htagged
      refine (storedFromManifest_ensures laws reading_answer (G := Eq) (fun _ _ h => h)
        (by rintro a _ rfl; exact .refl) w hpublished (hintact.complete _ _ _ h hpublished)).mono ?_
      rintro (error | resolved) w' ⟨-, hresolved⟩
      · exact hresolved.elim
      · exact ⟨resolved, rfl, hresolved.1⟩
    · rintro error w' ⟨rfl, hfalse | ⟨hnone, -⟩ | ⟨other, hother, hparse⟩⟩
      · exact hfalse.elim
      · rw [Registry.resolve_tag hplain, h] at hnone
        cases hnone
      · rw [Registry.resolve_tag hplain, h] at hother
        obtain rfl := Option.some.inj hother
        obtain ⟨document, hdocument, -⟩ := hpublished.manifest.parse laws hpublished.fits
        exact absurd hdocument (hparse document)
  obtain ⟨resolved, hok, hstored⟩ := hinspect.run
  exact ⟨stored, resolved, hpublished, hname, hok, hstored⟩

/-- The tags of an intact repository are well formed. -/
theorem Intact.isTag {tag : String} {body : Bytes} (h : w.registry.tagged tag = some body) :
    isTag P tag = true := by
  cases hintact.tags tag body h with
  | anchor objectId hbody => exact isTag_of_tag (anchorTag_eq laws objectId)
  | exact stored hpublished =>
    obtain ⟨content, hdigest, -⟩ := hpublished.content
    have htag := versionTag_eq laws stored.objectId content
    rw [versionTag, matchDigest_sha256Digest laws] at htag
    rw [StoredObject.exactName, hdigest]
    exact isTag_of_tag htag
  | latest stored hpublished _ => exact isTag_of_tag (latestTag_eq laws stored.objectId)

theorem Intact.sound (tags : List String) (htags : ∀ tag ∈ tags, tag ∈ w.registry.tagSet) : w.Sound tags := by
  intro tag hmem htag
  obtain ⟨body, hbody⟩ := mem_tagSet.mp (htags tag hmem)
  obtain ⟨stored, resolved, -, -, hinspect, -⟩ := hintact.inspect laws htag hbody
  exact ⟨resolved, hinspect⟩

/-- In an intact repository the tags that contribute items are those of the live versions with
a matching object id. -/
theorem Intact.entry_iff {prefixText tag : String} {metadata : ObjectMetadata} :
    w.entry prefixText tag = some metadata ↔ ∃ stored ∈ (catalogOf w.registry).live,
      stored.exactName P = tag ∧ stored.metadata = metadata ∧
      prefixText.toList.isPrefixOf stored.objectId.toList = true := by
  rw [World.entry_eq_some]
  constructor
  · rintro ⟨htag, resolved, hinspect, hmatch, rfl⟩
    have htagged := tagged_of_inspect laws htag hinspect
    obtain ⟨stored, other, hpublished, rfl, hother, rfl⟩ := hintact.inspect laws htag htagged
    obtain rfl := Except.ok.inj (hinspect.symm.trans hother)
    exact ⟨resolved.stored, ⟨_, hpublished, htagged⟩, rfl, rfl, hmatch⟩
  · rintro ⟨stored, ⟨body, hpublished, htagged⟩, rfl, rfl, hmatch⟩
    have htag : IsVersionTag (stored.exactName P) := isVersionTag_versionName _ _
    obtain ⟨other, resolved, hpublished', -, hinspect, rfl⟩ := hintact.inspect laws htag htagged
    obtain rfl := hpublished.injective laws hpublished'
    exact ⟨htag, resolved, hinspect, hmatch, rfl⟩

end Intact

/-! ## Following cursors -/

/-- A list call of a walk: where it was made, with which cursor, and what it returned. -/
structure Listed (setting : Setting P adapter.transport.binding) where
  world : World setting.policy
  cursor : Option String
  items : List ObjectMetadata

/-- The call is answered with an empty page only if no tags remain. -/
def Listed.Advances (step : Listed setting) : Prop :=
  ∀ bound, Cursor adapter P bound step.cursor → step.world.registry.Advances adapter.binding.maxScanTags bound

/-- List calls that return, each with the cursor of the one before it; anything may happen in
between. -/
inductive ListWalk (setting : Setting P adapter.transport.binding) (prefixText : String) :
    Option String → List (Listed setting) → Option String → Prop where
  | stop (cursor) : ListWalk setting prefixText cursor [] cursor
  | call (w w' : World setting.policy) (limit : Nat) (items : List ObjectMetadata) (cursor next steps final) :
      Performs setting.env (adapter.list P prefixText limit cursor) w (.ok (.list items next)) w' →
      (next = none → steps = []) → ListWalk setting prefixText next steps final →
      ListWalk setting prefixText cursor (⟨w, cursor, items⟩ :: steps) final

/-- The items of a call are those of the tags on its page. -/
structure Shows (prefixText : String) (step : Listed setting) (page : Set String × List String) : Prop where
  present : page.1 = step.world.registry.tagSet
  items : step.items = page.2.filterMap (step.world.entry prefixText)
  sound : step.world.Sound page.2

/-- The cursor that a call returns names a tag on its page. -/
theorem cursor_next {w : World setting.policy} (hnamed : w.registry.WellNamed) {bound next : Option String}
    {scanned : List String} (hpage : (next = none → w.registry.Advances adapter.binding.maxScanTags bound) →
      Paging.Page w.registry.tagSet bound scanned next) :
    Cursor adapter P next (next.map (CursorCodec.encode P adapter.binding.cursorSigningKey)) := by
  refine ⟨rfl, ?_⟩
  rintro tag rfl
  have hpage := hpage fun h => by cases h
  exact (hnamed tag (hpage.mem tag hpage.last_mem).1).1

/-- The cursor that a walk has reached names a tag, or is the start or the end. -/
theorem ListWalk.cursor (laws : P.Lawful) {prefixText : String} {bound cursor final : Option String}
    {steps : List (Listed setting)} (h : ListWalk setting prefixText cursor steps final)
    (hcursor : Cursor adapter P bound cursor) (hnamed : ∀ step ∈ steps, step.world.registry.WellNamed) :
    ∃ last, Cursor adapter P last final := by
  induction h generalizing bound with
  | stop cursor => exact ⟨bound, hcursor⟩
  | call w w' limit items cursor next steps final hperforms _ _ ih =>
    obtain ⟨-, items', scanned, next', heq, hpage, -⟩ :=
      hperforms.ensures (list_ensures laws w prefixText limit hcursor)
    obtain ⟨-, rfl⟩ := Result.list.inj heq
    exact ih (cursor_next (hnamed _ List.mem_cons_self) hpage) fun step hstep =>
      hnamed step (List.mem_cons_of_mem _ hstep)

/-- Following the cursors of list calls is a paged walk over the tags. -/
theorem ListWalk.paged (laws : P.Lawful) {prefixText : String} {bound cursor final : Option String}
    {steps : List (Listed setting)} (h : ListWalk setting prefixText cursor steps final)
    (hcursor : Cursor adapter P bound cursor) (hnamed : ∀ step ∈ steps, step.world.registry.WellNamed)
    (hadvances : ∀ step ∈ steps, step.Advances) :
    ∃ pages last, Paging.Walk bound pages last ∧ Cursor adapter P last final ∧
      List.Forall₂ (Shows prefixText) steps pages := by
  induction h generalizing bound with
  | stop cursor => exact ⟨[], bound, .stop bound, hcursor, .nil⟩
  | call w w' limit items cursor next steps final hperforms hnone _ ih =>
    obtain ⟨-, items', scanned, next', heq, hpage, hitems, hsound, -⟩ :=
      hperforms.ensures (list_ensures laws w prefixText limit hcursor)
    obtain ⟨rfl, rfl⟩ := Result.list.inj heq
    have hnext := cursor_next (hnamed _ List.mem_cons_self) hpage
    have hpage := hpage fun _ => hadvances _ List.mem_cons_self bound hcursor
    obtain ⟨pages, last, hwalk, hlast, hshows⟩ := ih hnext
      (fun step hstep => hnamed step (List.mem_cons_of_mem _ hstep))
      fun step hstep => hadvances step (List.mem_cons_of_mem _ hstep)
    refine ⟨_, last, .page _ _ _ _ pages _ hpage (fun hend => ?_) hwalk, hlast, .cons ⟨rfl, hitems, hsound⟩ hshows⟩
    subst hend
    obtain rfl := hnone rfl
    cases hshows
    rfl

/-- A walk that is not at its end is followed by a call. -/
theorem ListWalk.snoc {prefixText : String} {cursor next final : Option String} {steps : List (Listed setting)}
    {w w' : World setting.policy} {limit : Nat} {items : List ObjectMetadata}
    (h : ListWalk setting prefixText cursor steps next) (hopen : steps = [] ∨ next ≠ none)
    (hperforms : Performs setting.env (adapter.list P prefixText limit next) w (.ok (.list items final)) w') :
    ListWalk setting prefixText cursor (steps ++ [⟨w, next, items⟩]) final := by
  induction h with
  | stop cursor => exact .call _ _ _ _ _ _ [] _ hperforms (fun _ => rfl) (.stop final)
  | call v v' limit' items' cursor middle steps last hfirst hnone hwalk ih =>
    have hlast : last ≠ none := hopen.resolve_left (List.cons_ne_nil _ _)
    refine .call _ _ _ _ _ _ _ _ hfirst (fun hmiddle => ?_) (ih (.inr hlast) hperforms)
    obtain rfl := hnone hmiddle
    cases hwalk
    exact absurd hmiddle hlast

/-- In this world every walk from the start can be followed to its end. -/
def GoesOn (setting : Setting P adapter.transport.binding) (w : World setting.policy) (prefixText : String) : Prop :=
  ∀ steps cursor, ListWalk setting prefixText none steps cursor → (∀ step ∈ steps, step.world = w) →
    (steps = [] ∨ cursor ≠ none) → ∀ limit outcome w',
    Performs setting.env (adapter.list P prefixText limit cursor) w outcome w' →
    ∃ items next, outcome = .ok (.list items next)

theorem goesOn_of_listable (laws : P.Lawful) {w : World setting.policy} (hlistable : ¬Unlistable w)
    (prefixText : String) : GoesOn setting w prefixText := by
  intro steps cursor hwalk hworld hopen limit outcome w' hperforms
  have hnamed : w.registry.WellNamed := by
    by_contra hbad
    exact hlistable (.inr (.inl hbad))
  have hstart : Cursor adapter P none none := ⟨rfl, fun tag h => by cases h⟩
  obtain ⟨last, hcursor⟩ := hwalk.cursor laws hstart fun step hstep => hworld step hstep ▸ hnamed
  have hlist := hperforms.ensures (list_ensures laws w prefixText limit hcursor)
  cases outcome with
  | error error => exact absurd hlist.2 hlistable
  | ok result =>
    obtain ⟨-, items, scanned, next, rfl, -⟩ := hlist
    exact ⟨items, _, rfl⟩

/-- A list call has an outcome. -/
theorem exists_list (w : World setting.policy) (prefixText : String) (limit : Nat) (cursor : Option String) :
    ∃ outcome w', Performs setting.env (adapter.list P prefixText limit cursor) w outcome w' := by
  have hanswer : ∀ op (v : World setting.policy), Op.Reads op → ∃ r v', setting.env op v r v' := by
    rintro _ v ⟨request, rfl, -⟩
    exact ⟨_, _, .inl ⟨rfl, rfl⟩⟩
  exact exists_performs hanswer (reads_list P adapter prefixText limit cursor) w

/-- Behind the last tag of a page fewer tags remain. -/
theorem remainingTags_lt {policy : Policy P adapter.transport.binding} {registry : Registry policy}
    {bound : Option String} {scanned : List String} {tag : String}
    (hpage : Paging.Page registry.tagSet bound scanned (some tag)) :
    (registry.remainingTags (some tag)).length < (registry.remainingTags bound).length := by
  have htag := hpage.mem tag hpage.last_mem
  rw [← List.toFinset_card_of_nodup ((sorted_remainingTags registry (some tag)).imp ne_of_lt),
    ← List.toFinset_card_of_nodup ((sorted_remainingTags registry bound).imp ne_of_lt)]
  refine Finset.card_lt_card ⟨fun other hother => ?_, fun hsub => ?_⟩
  · have hother := mem_remainingTags.mp (List.mem_toFinset.mp hother)
    exact List.mem_toFinset.mpr (mem_remainingTags.mpr ⟨hother.1, hpage.after_next hother.2⟩)
  · have hself := hsub (List.mem_toFinset.mpr (mem_remainingTags.mpr htag))
    have hafter := (mem_remainingTags.mp (List.mem_toFinset.mp hself)).2
    exact lt_irrefl tag (Paging.after_some.mp hafter)

/-- In a repository that does not change, following the cursors comes to an end. -/
theorem exists_listWalk (laws : P.Lawful) {w : World setting.policy} (hnamed : w.registry.WellNamed)
    {prefixText : String} (hgoes : GoesOn setting w prefixText) (limit : Nat) :
    ∃ steps, ListWalk setting prefixText none steps none ∧ steps ≠ [] ∧ ∀ step ∈ steps, step.world = w := by
  suffices hgen : ∀ left steps bound cursor, (w.registry.remainingTags bound).length = left →
      ListWalk setting prefixText none steps cursor → (∀ step ∈ steps, step.world = w) →
      (steps = [] ∨ cursor ≠ none) → Cursor adapter P bound cursor →
      ∃ steps, ListWalk setting prefixText none steps none ∧ steps ≠ [] ∧ ∀ step ∈ steps, step.world = w from
    hgen _ [] none none rfl (.stop none) (by simp) (.inl rfl) ⟨rfl, fun tag h => by cases h⟩
  intro left
  induction left using Nat.strong_induction_on with
  | _ left ih =>
    intro steps bound cursor hleft hwalk hworld hopen hcursor
    obtain ⟨outcome, w', hperforms⟩ := exists_list w prefixText limit cursor
    obtain ⟨items, next, rfl⟩ := hgoes steps cursor hwalk hworld hopen limit outcome w' hperforms
    have hlater := hwalk.snoc hopen hperforms
    have hlaterWorld : ∀ step ∈ steps ++ [⟨w, cursor, items⟩], step.world = w := by
      intro step hstep
      rcases List.mem_append.mp hstep with hfront | hlast
      · exact hworld step hfront
      · rw [List.mem_singleton.mp hlast]
    obtain ⟨-, _, scanned, bound', heq, hpage, -⟩ :=
      hperforms.ensures (list_ensures laws w prefixText limit hcursor)
    obtain ⟨-, rfl⟩ := Result.list.inj heq
    cases bound' with
    | none => exact ⟨_, hlater, by simp, hlaterWorld⟩
    | some tag =>
      have hpage := hpage fun h => by cases h
      have hfewer : (w.registry.remainingTags (some tag)).length < left := hleft ▸ remainingTags_lt hpage
      refine ih _ hfewer _ (some tag) _ rfl hlater hlaterWorld (.inr (by simp)) ⟨rfl, ?_⟩
      rintro _ ⟨⟩
      exact (hnamed tag (hpage.mem tag hpage.last_mem).1).1

/-- The same from any cursor, where nothing keeps a call from returning. -/
theorem exists_listWalk_from (laws : P.Lawful) {w : World setting.policy} (hlistable : ¬Unlistable w)
    (prefixText : String) (limit : Nat) {bound cursor : Option String} (hcursor : Cursor adapter P bound cursor) :
    ∃ steps, ListWalk setting prefixText cursor steps none ∧ steps ≠ [] ∧ ∀ step ∈ steps, step.world = w := by
  have hnamed : w.registry.WellNamed := by
    by_contra hbad
    exact hlistable (.inr (.inl hbad))
  obtain ⟨left, hleft⟩ : ∃ left, (w.registry.remainingTags bound).length = left := ⟨_, rfl⟩
  induction left using Nat.strong_induction_on generalizing bound cursor with
  | _ left ih =>
    obtain ⟨outcome, w', hperforms⟩ := exists_list w prefixText limit cursor
    have hlist := hperforms.ensures (list_ensures laws w prefixText limit hcursor)
    cases outcome with
    | error error => exact absurd hlist.2 hlistable
    | ok result =>
      obtain ⟨-, items, scanned, next, rfl, hpage, -⟩ := hlist
      have hnext := cursor_next hnamed hpage
      cases next with
      | none =>
        exact ⟨_, .call w w' limit items cursor _ [] none hperforms (fun _ => rfl) (.stop none), List.cons_ne_nil _ _,
          fun step hstep => by rw [List.mem_singleton.mp hstep]⟩
      | some tag =>
        have hpage := hpage fun h => by cases h
        obtain ⟨steps, hwalk, -, hworld⟩ := ih _ (hleft ▸ remainingTags_lt hpage) hnext rfl
        refine ⟨_, .call w w' limit items cursor _ steps none hperforms (fun h => by cases h) hwalk,
          List.cons_ne_nil _ _, fun step hstep => ?_⟩
        rcases List.mem_cons.mp hstep with rfl | hlater
        · rfl
        · exact hworld step hlater

/-- The tags from which the items of a call come, one by one. -/
def Sources (prefixText : String) (step : Listed setting) (tags : List String) : Prop :=
  List.Forall₂ (fun tag metadata => step.world.entry prefixText tag = some metadata) tags step.items

theorem exists_of_forall₂ {α β : Type} {R : α → β → Prop} {xs : List α} {ys : List β} {y : β}
    (h : List.Forall₂ R xs ys) (hy : y ∈ ys) : ∃ x ∈ xs, R x y := by
  induction h with
  | nil => cases hy
  | @cons x y' xs ys hxy _ ih =>
    rcases List.mem_cons.mp hy with rfl | hmem
    · exact ⟨x, List.mem_cons_self, hxy⟩
    · obtain ⟨x', hx', h'⟩ := ih hmem
      exact ⟨x', List.mem_cons_of_mem _ hx', h'⟩

theorem forall₂_filterMap {α β : Type} (entry : α → Option β) (tags : List α) :
    List.Forall₂ (fun tag item => entry tag = some item) (tags.filter fun tag => (entry tag).isSome)
      (tags.filterMap entry) := by
  induction tags with
  | nil => exact .nil
  | cons tag rest ih =>
    cases h : entry tag with
    | none => simpa [h] using ih
    | some item => simpa [h] using ih

/-- The tags that contribute to a walk are among those it looked at, and none is left out. -/
theorem exists_sources {prefixText : String} {steps : List (Listed setting)} {pages : List (Set String × List String)}
    (h : List.Forall₂ (Shows prefixText) steps pages) :
    ∃ tags : List (List String), List.Forall₂ (Sources prefixText) steps tags ∧
      tags.flatten.Sublist (pages.flatMap (·.2)) ∧
      ∀ tag ∈ pages.flatMap (·.2), (∀ step ∈ steps, (step.world.entry prefixText tag).isSome) → tag ∈ tags.flatten := by
  induction h with
  | nil => exact ⟨[], .nil, .slnil, fun tag htag => by cases htag⟩
  | @cons step page steps pages hshows _ ih =>
    obtain ⟨tags, hsources, hsub, hall⟩ := ih
    refine ⟨(page.2.filter fun tag => (step.world.entry prefixText tag).isSome) :: tags, .cons ?_ hsources, ?_, ?_⟩
    · rw [Sources, hshows.items]
      exact forall₂_filterMap _ _
    · rw [List.flatten_cons, List.flatMap_cons]
      exact List.filter_sublist.append hsub
    · intro tag htag hsome
      rw [List.flatten_cons, List.mem_append]
      rcases List.mem_append.mp htag with hpage | hlater
      · exact .inl (List.mem_filter.mpr ⟨hpage, hsome step List.mem_cons_self⟩)
      · exact .inr (hall tag hlater fun other hother => hsome other (List.mem_cons_of_mem _ hother))

/-- What contributes an item is a tag. -/
theorem mem_tagSet_of_entry (laws : P.Lawful) {policy : Policy P adapter.transport.binding} {w : World policy}
    {prefixText tag : String} (h : (w.entry prefixText tag).isSome) : tag ∈ w.registry.tagSet := by
  obtain ⟨metadata, hentry⟩ := Option.isSome_iff_exists.mp h
  obtain ⟨htag, resolved, hinspect, -, -⟩ := World.entry_eq_some.mp hentry
  exact mem_tagSet.mpr ⟨_, tagged_of_inspect laws htag hinspect⟩

/-- In intact repositories no item is returned twice. -/
theorem nodup_items (laws : P.Lawful) {prefixText : String} {steps : List (Listed setting)}
    {tags : List (List String)} (h : List.Forall₂ (Sources prefixText) steps tags) (hnodup : tags.flatten.Nodup)
    (hintact : ∀ step ∈ steps, Intact step.world.registry) : (steps.flatMap (·.items)).Nodup := by
  suffices hnames : tags.flatten =
      (steps.flatMap (·.items)).map fun metadata => versionName P metadata.objectRef.objectId metadata.digest from
    List.Nodup.of_map _ (hnames ▸ hnodup)
  clear hnodup
  induction h with
  | nil => rfl
  | @cons step shown steps tags hsource _ ih =>
    rw [List.flatten_cons, List.flatMap_cons, List.map_append, ← ih fun other hother =>
      hintact other (List.mem_cons_of_mem _ hother)]
    congr 1
    have hintact := hintact step List.mem_cons_self
    rw [Sources] at hsource
    generalize step.items = items at hsource ⊢
    induction hsource with
    | nil => rfl
    | @cons tag metadata shown items hentry _ ih' =>
      obtain ⟨stored, -, rfl, rfl, -⟩ := (hintact.entry_iff laws).mp hentry
      rw [List.map_cons, ← ih']
      rfl

theorem mem_items {prefixText : String} {steps : List (Listed setting)} {tags : List (List String)}
    (h : List.Forall₂ (Sources prefixText) steps tags) {tag : String} {metadata : ObjectMetadata}
    (hentry : ∀ step ∈ steps, step.world.entry prefixText tag = some metadata) (htag : tag ∈ tags.flatten) :
    metadata ∈ steps.flatMap (·.items) := by
  obtain ⟨shown, hshown, htag⟩ := List.mem_flatten.mp htag
  obtain ⟨n, hn, rfl⟩ := List.mem_iff_getElem.mp hshown
  have hstep : n < steps.length := h.length_eq ▸ hn
  have hsources : Sources prefixText steps[n] tags[n] := h.get hstep hn
  obtain ⟨k, hk, rfl⟩ := List.mem_iff_getElem.mp htag
  have hitem : k < steps[n].items.length := hsources.length_eq ▸ hk
  have hfound : steps[n].world.entry prefixText tags[n][k] = some steps[n].items[k] := hsources.get hk hitem
  rw [hentry _ (List.getElem_mem hstep)] at hfound
  rw [Option.some.inj hfound]
  exact List.mem_flatMap.mpr ⟨_, List.getElem_mem hstep, List.getElem_mem hitem⟩

/-- Over a walk along the cursors of list calls, whatever happens between them, where no page is
empty while tags remain: the items come from different tags, a tag that matches throughout is
returned exactly once if the walk ends, every cursor is accepted, and the walk ends when the tags
stop growing. -/
theorem list_complete (laws : P.Lawful) {prefixText : String} {final : Option String}
    {steps : List (Listed setting)} (hwalk : ListWalk setting prefixText none steps final)
    (hnamed : ∀ step ∈ steps, step.world.registry.WellNamed) (hadvances : ∀ step ∈ steps, step.Advances) :
    (∃ tags : List (List String), List.Forall₂ (Sources prefixText) steps tags ∧ tags.flatten.Nodup ∧
      (final = none → steps ≠ [] → ∀ tag, (∀ step ∈ steps, (step.world.entry prefixText tag).isSome) →
        tags.flatten.count tag = 1)) ∧
    ((∀ step ∈ steps, Intact step.world.registry) → (steps.flatMap (·.items)).Nodup ∧
      (final = none → steps ≠ [] → ∀ stored, (∀ step ∈ steps, stored ∈ (catalogOf step.world.registry).live) →
        prefixText.toList.isPrefixOf stored.objectId.toList = true →
        stored.metadata ∈ steps.flatMap (·.items))) ∧
    (∀ cursor, final = some cursor → ∃ tag, CursorCodec.decode P adapter.binding.cursorSigningKey cursor = .ok tag) ∧
    (∀ (w : World setting.policy) limit,
      (∃ outcome w', Performs setting.env (adapter.list P prefixText limit final) w outcome w') ∧
      ∀ outcome w', Performs setting.env (adapter.list P prefixText limit final) w outcome w' →
        (∃ items next, outcome = .ok (.list items next)) ∨ Unlistable w) ∧
    ∀ early late (tags : Finset String), steps = early ++ late →
      (∀ step ∈ late, ∀ tag ∈ step.world.registry.tagSet, tag ∈ tags) → late.length ≤ tags.card + 1 := by
  have hstart : Cursor adapter P none none := ⟨rfl, fun tag h => by cases h⟩
  obtain ⟨pages, last, hpages, hlast, hshows⟩ := hwalk.paged laws hstart hnamed hadvances
  obtain ⟨tags, hsources, hsub, hall⟩ := exists_sources hshows
  have hnodup : tags.flatten.Nodup := hpages.nodup.sublist hsub
  have hlength := hshows.length_eq
  -- a walk that ended has met everything that stayed
  have hcomplete : final = none → steps ≠ [] → ∀ tag, (∀ step ∈ steps, (step.world.entry prefixText tag).isSome) →
      tag ∈ tags.flatten := by
    intro hfinal hsteps tag htag
    have hnone : last = none := by
      have hcursor := hlast.1
      rw [hfinal] at hcursor
      exact Option.map_eq_none_iff.mp hcursor.symm
    subst hnone
    refine hall tag (hpages.complete ?_ (Paging.after_none tag) fun page hpage => ?_) htag
    · rintro rfl
      exact hsteps (List.length_eq_zero_iff.mp hlength)
    · obtain ⟨step, hstep, hshown⟩ := exists_of_forall₂ hshows hpage
      rw [hshown.present]
      exact mem_tagSet_of_entry laws (htag step hstep)
  refine ⟨⟨tags, hsources, hnodup, fun hfinal hsteps tag htag => ?_⟩, fun hintact => ⟨?_, ?_⟩, ?_, ?_, ?_⟩
  · exact List.count_eq_one_of_mem hnodup (hcomplete hfinal hsteps tag htag)
  · exact nodup_items laws hsources hnodup hintact
  · intro hfinal hsteps stored hlive hmatch
    have hentry : ∀ step ∈ steps, step.world.entry prefixText (stored.exactName P) = some stored.metadata :=
      fun step hstep => ((hintact step hstep).entry_iff laws).mpr ⟨stored, hlive step hstep, rfl, rfl, hmatch⟩
    have hmem := hcomplete hfinal hsteps (stored.exactName P) fun step hstep => by rw [hentry step hstep]; rfl
    exact mem_items hsources hentry hmem
  · rintro cursor rfl
    obtain ⟨tag, rfl, hencode⟩ := Option.map_eq_some_iff.mp hlast.1.symm
    exact ⟨tag, hencode ▸ CursorCodec.decode_encode laws _ (hlast.2 tag rfl)⟩
  · intro w limit
    refine ⟨exists_list w prefixText limit final, fun outcome w' hperforms => ?_⟩
    have hlist := hperforms.ensures (list_ensures laws w prefixText limit hlast)
    cases outcome with
    | ok result =>
      obtain ⟨-, items, scanned, next, rfl, -⟩ := hlist
      exact .inl ⟨items, _, rfl⟩
    | error error => exact .inr hlist.2
  · rintro early late elements rfl hlate
    have hdrop := List.forall₂_drop early.length hshows
    rw [List.drop_left] at hdrop
    rw [← List.take_append_drop early.length pages] at hpages
    obtain ⟨middle, -, hrest⟩ := hpages.split
    rw [hdrop.length_eq]
    refine hrest.length_le fun page hpage => ?_
    obtain ⟨step, hstep, hshown⟩ := exists_of_forall₂ hdrop hpage
    rw [hshown.present]
    exact hlate step hstep

namespace Sample

open MeridianOci.Model.Sample

/-- The tags of an intact repository are well formed, and short if those of its versions are. -/
theorem wellNamed_intact {limit : Nat} {w : World (Sample.setting limit False).policy} (hintact : Intact w.registry)
    (hanchor : ∀ objectId ∈ (catalogOf w.registry).anchored, (anchorName platform objectId).toList.length ≤ 128)
    (hexact : ∀ stored ∈ (catalogOf w.registry).live, (stored.exactName platform).toList.length ≤ 128)
    (hmoving : ∀ stored ∈ (catalogOf w.registry).latest, (stored.movingName platform).toList.length ≤ 128) :
    w.registry.WellNamed := by
  intro tag htag
  obtain ⟨body, htagged⟩ := mem_tagSet.mp htag
  refine ⟨hintact.isTag lawful htagged, ?_⟩
  cases hintact.tags tag body htagged with
  | anchor objectId hbody =>
    rw [hbody] at htagged
    exact hanchor objectId htagged
  | exact stored hpublished => exact hexact stored ⟨body, hpublished, htagged⟩
  | latest stored hpublished _ => exact hmoving stored ⟨body, hpublished, htagged⟩

/-- The tags of a single put. -/
theorem wellNamed_start {limit : Nat} {put : Plain} {w : World (Sample.setting limit False).policy}
    (hintact : Intact w.registry) (hcatalog : catalogOf w.registry = ⟨{put.objectId}, {put.stored}, {put.stored}⟩)
    (hanchor : (anchorName platform put.objectId).toList.length ≤ 128)
    (hexact : (put.stored.exactName platform).toList.length ≤ 128)
    (hmoving : (put.stored.movingName platform).toList.length ≤ 128) : w.registry.WellNamed := by
  refine wellNamed_intact hintact ?_ ?_ ?_
  · intro objectId hmem
    rw [hcatalog] at hmem
    obtain rfl : objectId = put.objectId := hmem
    exact hanchor
  · intro stored hmem
    rw [hcatalog] at hmem
    obtain rfl : stored = put.stored := hmem
    exact hexact
  · intro stored hmem
    rw [hcatalog] at hmem
    obtain rfl : stored = put.stored := hmem
    exact hmoving

/-- The tags of a repository with nothing but the versions of some puts. -/
theorem wellNamed_puts {limit : Nat} {puts : List Plain} {w : World (Sample.setting limit False).policy}
    (hintact : Intact w.registry)
    (hanchored : ∀ objectId ∈ (catalogOf w.registry).anchored, objectId ∈ puts.map (·.objectId))
    (hlive : ∀ stored ∈ (catalogOf w.registry).live, stored ∈ puts.map (·.stored))
    (hshort : ∀ put ∈ puts, (anchorName platform put.objectId).toList.length ≤ 128 ∧
      (put.stored.exactName platform).toList.length ≤ 128 ∧ (put.stored.movingName platform).toList.length ≤ 128) :
    w.registry.WellNamed := by
  refine wellNamed_intact hintact (fun objectId hmem => ?_) (fun stored hmem => ?_) fun stored hmem => ?_
  · obtain ⟨put, hput, rfl⟩ := List.mem_map.mp (hanchored objectId hmem)
    exact (hshort put hput).1
  · obtain ⟨put, hput, rfl⟩ := List.mem_map.mp (hlive stored hmem)
    exact (hshort put hput).2.1
  · obtain ⟨put, hput, rfl⟩ := List.mem_map.mp
      (hlive stored (hintact.latest_live lawful hmem))
    exact (hshort put hput).2.2

theorem listable_start {limit : Nat} {w : World (Sample.setting limit False).policy}
    (hintact : Intact w.registry) (hnamed : w.registry.WellNamed) : ¬Unlistable w := by
  rintro (hfaults | hnot | hnot)
  · exact hfaults
  · exact hnot hnamed
  · exact hnot (hintact.sound lawful _ fun _ htag => htag)

/-- Full pages hold something as long as anything remains. -/
theorem advances_policy {limit : Nat} (registry : Registry (Sample.policy limit)) (bound : Option String) :
    registry.Advances (Sample.adapter limit).binding.maxScanTags bound := by
  intro hne
  have hpositive : 0 < (Sample.adapter limit).binding.maxScanTags := Nat.zero_lt_succ 99
  exact lt_min hpositive (List.length_pos_iff.mpr hne)

/-- After one put, a walk to its end returns the version once. -/
theorem list_complete_first : ∃ limit, ∃ (w : World (Sample.setting limit False).policy)
    (steps : List (Listed (Sample.setting limit False))),
    ListWalk (Sample.setting limit False) "a" none steps none ∧ (∀ step ∈ steps, step.world = w) ∧
    (steps.flatMap (·.items)).Nodup ∧
    (Plain.stored { objectId := "a", text := "x" }).metadata ∈ steps.flatMap (·.items) := by
  obtain ⟨limit, hfits⟩ := Plain.exists_fits { objectId := "a", text := "x" } (by decide)
  obtain ⟨w, hrun, hcatalog⟩ := run_start hfits (.aware 0)
  have hintact : Intact w.registry := hrun.intact lawful
  have hnamed := wellNamed_start hintact hcatalog (by decide) (by decide) (by decide)
  obtain ⟨steps, hwalk, hne, hworld⟩ := exists_listWalk lawful hnamed
    (goesOn_of_listable lawful (listable_start hintact hnamed) "a") 1
  have hlist := (list_complete lawful hwalk (fun step hstep => by
    rw [hworld step hstep]
    exact hnamed) fun step _ bound _ => advances_policy step.world.registry bound).2.1 fun step hstep => by
      rw [hworld step hstep]
      exact hintact
  refine ⟨limit, w, steps, hwalk, hworld, hlist.1, hlist.2 rfl hne _ (fun step hstep => ?_) (by decide)⟩
  rw [hworld step hstep, hcatalog]
  rfl

/-- The sample registry, but its pages are empty and say that more follow. -/
def emptyPages (limit : Nat) : Setting platform (Sample.adapter limit).transport.binding :=
  { Sample.setting limit False with
    policy := { Sample.policy limit with
      pageLength := fun _ _ => 0
      pageLength_le := fun _ _ => Nat.zero_le _ } }

/-- The same content in that registry. -/
def emptied {limit : Nat} (registry : Registry (Sample.setting limit False).policy) : Registry (emptyPages limit).policy :=
  { registry with }

/-- There the only call of a walk returns neither the version nor a cursor. -/
theorem list_stops : ∃ limit, ∃ w : World (emptyPages limit).policy, Intact w.registry ∧ w.registry.WellNamed ∧
    catalogOf w.registry = ⟨{"a"}, {Plain.stored ⟨"a", "x", false, none, none⟩},
      {Plain.stored ⟨"a", "x", false, none, none⟩}⟩ ∧
    ListWalk (emptyPages limit) "a" none [⟨w, none, []⟩] none := by
  obtain ⟨limit, hfits⟩ := Plain.exists_fits { objectId := "a", text := "x" } (by decide)
  obtain ⟨w, hrun, hcatalog⟩ := run_start hfits (.aware 0)
  have hintact : Intact w.registry := hrun.intact lawful
  have hnamed := wellNamed_start hintact hcatalog (by decide) (by decide) (by decide)
  let v : World (emptyPages limit).policy := ⟨emptied w.registry, w.memory, w.now, w.payloads⟩
  have hnamed' : v.registry.WellNamed := hnamed
  have hintact' : Intact v.registry := by
    constructor
    · intro tag body h
      cases hintact.tags tag body h with
      | anchor objectId hbody => exact .anchor objectId hbody
      | exact stored hpublished => exact .exact stored hpublished
      | latest stored hpublished hexact => exact .latest stored hpublished hexact
    · intro tag stored body h hpublished
      have hcomplete := hintact.complete tag stored body h hpublished
      exact ⟨hcomplete.config, hcomplete.payload, hcomplete.anchor⟩
  have hlistable : ¬Unlistable v := by
    rintro (hfaults | hbad | hbad)
    · exact hfaults
    · exact hbad hnamed'
    · exact hbad (hintact'.sound lawful _ fun _ htag => htag)
  have hstart : Cursor (Sample.adapter limit) platform none none := ⟨rfl, fun tag h => by cases h⟩
  obtain ⟨outcome, v', hperforms⟩ := exists_list v "a" 1 none
  obtain rfl := (hperforms.ensures (list_ends lawful v "a" 1 hstart rfl)).resolve_right hlistable
  exact ⟨limit, v, hintact', hnamed', hcatalog, .call _ _ _ _ _ _ _ _ hperforms (fun _ => rfl) (.stop none)⟩

end Sample

end MeridianOci.Service
