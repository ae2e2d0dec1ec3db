import MeridianOci.Effect.Coincide
import MeridianOci.Service.Listing

/-!
# Listing beside a writer

A walk along the cursors of list calls, while a run goes on: before any request of the walk
the run may take any number of steps. The items are versions that were live at some time
during their call, none comes twice, and what was live all the time is among them. A list
call fails only over a version that was removed after its page of tags was read.
-/
namespace MeridianOci.Service

open MeridianOci.Data MeridianOci.Effect MeridianOci.Model

set_option autoImplicit false

variable {P : Platform} {adapter : OciDistributionAdapter}
variable {setting : Setting P adapter.transport.binding} {now : DateTime}

/-- The configurations of a run, one after the other. -/
structure Timeline (setting : Setting P adapter.transport.binding) (now : DateTime) where
  config : Nat → Config Op Op.Res Err Answer (World setting.policy) Call
  runs : Runs setting now (config 0)
  step : ∀ t, config (t + 1) = config t ∨ Step setting.env (Call.program P adapter) (config t) (config (t + 1))

namespace Timeline

variable (timeline : Timeline setting now)

/-- The state at a time. -/
def world (t : Nat) : World setting.policy := (timeline.config t).state

/-- A reader beside the run: before each of its requests some time may pass. -/
def env : Environment Op Op.Res Err Nat := watching timeline.world (· ≤ ·)

theorem path {first last : Nat} (h : first ≤ last) :
    Relation.ReflTransGen (Step setting.env (Call.program P adapter)) (timeline.config first)
      (timeline.config last) := by
  induction last, h using Nat.le_induction with
  | base => exact .refl
  | succ t _ ih =>
    rcases timeline.step t with hsame | hstep
    · rw [hsame]
      exact ih
    · exact ih.tail hstep

theorem intact (laws : P.Lawful) (t : Nat) : Intact (timeline.world t).registry := by
  have hrun : Runs setting now (timeline.config t) := timeline.runs.trans (timeline.path (Nat.zero_le t))
  exact hrun.intact laws

theorem moves (laws : P.Lawful) {first last : Nat} (h : first ≤ last) :
    Moves (timeline.world first).registry (timeline.world last).registry :=
  Runs.moves laws (timeline.runs.trans (timeline.path (Nat.zero_le first))) (timeline.path h)

/-- Blobs stay, and what was passed between two times is followed by what is passed between them. -/
structure Within (first last : Nat) (a b : World setting.policy) : Prop where
  moves : Moves a.registry b.registry
  passed : (∃ t, first ≤ t ∧ t ≤ last ∧ timeline.world t = a) → ∃ t, first ≤ t ∧ t ≤ last ∧ timeline.world t = b

theorem within_refl (first last : Nat) (a : World setting.policy) : timeline.Within first last a a := ⟨.refl, id⟩

theorem within_trans (first last : Nat) (a b c : World setting.policy) (hab : timeline.Within first last a b)
    (hbc : timeline.Within first last b c) : timeline.Within first last a c :=
  ⟨hab.moves.trans hbc.moves, hbc.passed ∘ hab.passed⟩

theorem reading (first last : Nat) :
    Reading (watching id (timeline.Within first last)) (timeline.Within first last) False :=
  reading_watching (timeline.within_refl first last) (timeline.within_trans first last)

variable {timeline}

theorem performs_le {α : Type} {program : Action α} {outcome : Except Err α} {first last : Nat}
    (h : Performs timeline.env program first outcome last) : first ≤ last := by
  induction h with
  | ret value t => exact le_rfl
  | raise error t => exact le_rfl
  | call op next t t' last answer outcome hanswer _ ih =>
    cases op with
    | send request => exact hanswer.1.trans ih
    | register source length digest => exact hanswer.1 ▸ ih
    | authorize => exact hanswer.1 ▸ ih
    | _ => exact hanswer.elim

/-- What a reader beside the run performs between two times, it may perform over the states passed
between them. -/
theorem performs_within (laws : P.Lawful) {α : Type} {program : Action α} {outcome : Except Err α} {first last : Nat}
    (h : Performs timeline.env program first outcome last) {early late : Nat} (hearly : early ≤ first)
    (hlate : last ≤ late) :
    Performs (watching id (timeline.Within early late)) program (timeline.world first) outcome
      (timeline.world last) := by
  induction h with
  | ret value t => exact .ret value _
  | raise error t => exact .raise error _
  | call op next t t' last answer outcome hanswer hrest ih =>
    cases op with
    | send request =>
      obtain ⟨hle, hanswer⟩ := hanswer
      have hpassed := (performs_le hrest).trans hlate
      refine .call _ _ _ _ _ _ _ ⟨⟨timeline.moves laws hle, fun _ => ?_⟩, hanswer⟩ (ih (hearly.trans hle) hlate)
      exact ⟨t', hearly.trans hle, hpassed, rfl⟩
    | register source length digest =>
      obtain ⟨rfl, hanswer⟩ := hanswer
      exact .call _ _ _ _ _ _ _ ⟨rfl, hanswer⟩ (ih hearly hlate)
    | authorize =>
      obtain ⟨rfl, hanswer⟩ := hanswer
      exact .call _ _ _ _ _ _ _ ⟨rfl, hanswer⟩ (ih hearly hlate)
    | _ => exact hanswer.elim

/-! ## One list call -/

variable (timeline) in
/-- A version tag was resolved to what it led to at some time, or it was gone at some time. -/
def Shown (tag : String) (first last : Nat) : Except Err (ResolvedObject P) → Prop
  | .ok resolved => ∃ t, first ≤ t ∧ t ≤ last ∧ ∀ prefixText, (timeline.world t).entry prefixText tag =
      if prefixText.toList.isPrefixOf resolved.stored.metadata.objectRef.objectId.toList = true then
        some resolved.stored.metadata
      else none
  | .error error => error.kind = .objectNotFound ∧
      ∃ t, first ≤ t ∧ t ≤ last ∧ (timeline.world t).registry.tagged tag = none

section Tags

variable (laws : P.Lawful) (first : Nat)

include laws

theorem inspect_shown {tag : String} (htag : IsVersionTag tag) :
    (adapter.transport.getManifest P tag >>= adapter.storedFromManifest P).Ensures timeline.env (fun _ _ => True) first
      fun outcome last => first ≤ last ∧ timeline.Shown tag first last outcome := by
  refine Prog.ensures_of_performs fun outcome last hperforms => ?_
  have hle := performs_le hperforms
  have hplain := isPrefixOf_of_isVersionTag htag
  have hread := timeline.reading first last
  have hseen : ∀ u, timeline.Within first last (timeline.world first) u →
      ∃ t, first ≤ t ∧ t ≤ last ∧ timeline.world t = u := fun u hu => hu.passed ⟨first, le_rfl, hle, rfl⟩
  have hshown : (adapter.transport.getManifest P tag >>= adapter.storedFromManifest P).Ensures
      (watching id (timeline.Within first last)) (fun _ _ => True) (timeline.world first)
      fun outcome _ => timeline.Shown tag first last outcome := by
    refine (getManifest_ensures laws hread (fun _ _ _ => trivial) _ hplain).bind ?_ ?_
    · rintro document u ⟨hu, hresolve, -⟩
      obtain ⟨t, hfirst, hlast, rfl⟩ := hseen u hu
      rw [Registry.resolve_tag hplain] at hresolve
      have hintact := timeline.intact laws t
      obtain ⟨stored, other, hpublished, -, hinspect, hstored⟩ := hintact.inspect laws htag hresolve
      obtain ⟨anchor, config, payload, hdescriptors, -, ⟨-, hconfig⟩, hmedia, hpayload, hlength⟩ :=
        hpublished.manifest.descriptors
      refine (storedFromManifest_read laws hread (fun _ _ _ => trivial) _ (fun a b h _ _ => h.moves.blobs) hdescriptors
        hpublished.valid hpublished.short hconfig ⟨hpayload, hlength, hmedia⟩
        (hintact.complete _ _ _ hresolve hpublished).config).mono ?_
      rintro (error | resolved) w' ⟨-, h⟩
      · exact h.elim
      · refine ⟨t, hfirst, hlast, fun prefixText => ?_⟩
        rw [World.entry, if_pos htag, hinspect, h.1, ← hstored]
    · rintro error u ⟨hu, hwhy⟩
      obtain ⟨t, hfirst, hlast, rfl⟩ := hseen u hu
      rcases hwhy with hfalse | ⟨hnone, hkind⟩ | ⟨body, hbody, hparse⟩
      · exact hfalse.elim
      · rw [Registry.resolve_tag hplain] at hnone
        exact ⟨hkind, t, hfirst, hlast, hnone⟩
      · rw [Registry.resolve_tag hplain] at hbody
        obtain ⟨stored, other, hpublished, -⟩ := (timeline.intact laws t).inspect laws htag hbody
        obtain ⟨document, hdocument, -⟩ := hpublished.manifest.parse laws hpublished.fits
        exact absurd hdocument (hparse document)
  exact ⟨hle, (performs_within laws hperforms le_rfl le_rfl).ensures hshown⟩

variable (timeline) in
omit laws in
/-- What a tag contributed when it was looked at. -/
def Seen (prefixText : String) (first last : Nat) (tag : String) (entry : Option ObjectMetadata) : Prop :=
  ∃ t, first ≤ t ∧ t ≤ last ∧ (timeline.world t).entry prefixText tag = entry

variable (timeline) in
/-- How far a scan of tags got, and what each tag contributed when it was looked at. -/
structure Viewed (prefixText : String) (first last : Nat) (tags : List String) (items : List ObjectMetadata)
    (scanned : Option String) (result : List ObjectMetadata × Option String × Bool) (front rest : List String)
    (entries : List (Option ObjectMetadata)) : Prop where
  tags : tags = front ++ rest
  seen : List.Forall₂ (timeline.Seen prefixText first last) front entries
  items : result.1 = items ++ entries.filterMap id
  last : result.2.1 = front.getLast?.or scanned
  stopped : result.2.2 = true → front ≠ []
  finished : result.2.2 = false → rest = []

omit laws in
theorem Seen.mono {prefixText tag : String} {first last early late : Nat} {entry : Option ObjectMetadata}
    (h : timeline.Seen prefixText first last tag entry) (hearly : early ≤ first) (hlate : last ≤ late) :
    timeline.Seen prefixText early late tag entry := by
  obtain ⟨t, hfirst, hlast, hentry⟩ := h
  exact ⟨t, hearly.trans hfirst, hlast.trans hlate, hentry⟩

theorem scanTags_viewed (prefixText : String) (limit : Nat) (tags : List String) (items : List ObjectMetadata)
    (scanned : Option String) :
    (adapter.scanTags P prefixText limit tags items scanned).Ensures timeline.env (fun _ _ => True) first
      fun outcome last => first ≤ last ∧
        match outcome with
        | .ok result => ∃ front rest entries,
            timeline.Viewed prefixText first last tags items scanned result front rest entries
        | .error error => error.kind = .objectNotFound ∧ ∃ tag ∈ tags, IsVersionTag tag ∧
            ∃ t, first ≤ t ∧ t ≤ last ∧ (timeline.world t).registry.tagged tag = none := by
  induction tags generalizing items scanned first with
  | nil => exact ⟨le_rfl, [], [], [], rfl, .nil, by simp, rfl, (fun h => by cases h), fun _ => rfl⟩
  | cons tag rest ih =>
    -- the scan goes on behind the first tag, from a later time
    have hnext : ∀ later entry, first ≤ later → timeline.Seen prefixText first later tag entry →
        (adapter.scanTags P prefixText limit rest (items ++ entry.toList) (some tag)).Ensures timeline.env
          (fun _ _ => True) later fun outcome last => first ≤ last ∧
            match outcome with
            | .ok result => ∃ front rest' entries,
                timeline.Viewed prefixText first last (tag :: rest) items scanned result front rest' entries
            | .error error => error.kind = .objectNotFound ∧ ∃ other ∈ tag :: rest, IsVersionTag other ∧
                ∃ t, first ≤ t ∧ t ≤ last ∧ (timeline.world t).registry.tagged other = none := by
      intro later entry hlater hseen
      refine (ih later (items ++ entry.toList) (some tag)).mono ?_
      rintro outcome last ⟨hlast, h⟩
      refine ⟨hlater.trans hlast, ?_⟩
      cases outcome with
      | error error =>
        obtain ⟨hkind, other, hother, hversion, t, hfirst, ht, hnone⟩ := h
        exact ⟨hkind, other, List.mem_cons_of_mem _ hother, hversion, t, hlater.trans hfirst, ht, hnone⟩
      | ok result =>
        obtain ⟨front, rest', entries, h⟩ := h
        have hfront : List.Forall₂ (timeline.Seen prefixText first last) front entries :=
          h.seen.imp fun _ _ hold => hold.mono hlater le_rfl
        refine ⟨tag :: front, rest', entry :: entries, by rw [h.tags, List.cons_append],
          .cons (hseen.mono le_rfl hlast) hfront, ?_, ?_, fun _ => by simp, h.finished⟩
        · rw [h.items, List.append_assoc]
          cases entry <;> rfl
        · rw [h.last, List.getLast?_cons]
          cases front.getLast? <;> rfl
    unfold OciDistributionAdapter.scanTags
    split
    · rename_i htag
      have htag : ¬IsVersionTag tag := fun h => by simp [show _ = true from h] at htag
      have hseen : timeline.Seen prefixText first first tag none :=
        ⟨first, le_rfl, le_rfl, by rw [World.entry, if_neg htag]⟩
      have hrest := hnext first none le_rfl hseen
      rw [Option.toList_none, List.append_nil] at hrest
      exact hrest
    · rename_i htag
      have htag : IsVersionTag tag := by
        rw [IsVersionTag]
        simpa using htag
      rw [← Prog.bind_assoc]
      refine (inspect_shown laws first htag).bind ?_ ?_
      · rintro resolved later ⟨hlater, t, hfirst, hlast, hentry⟩
        have hentry := hentry prefixText
        generalize hcontribution : (if prefixText.toList.isPrefixOf
          resolved.stored.metadata.objectRef.objectId.toList = true then some resolved.stored.metadata else none)
          = contribution at hentry
        have hitems : (if prefixText.toList.isPrefixOf resolved.stored.metadata.objectRef.objectId.toList then
            items ++ [resolved.stored.metadata] else items) = items ++ contribution.toList := by
          rw [← hcontribution]
          split
          · rfl
          · rw [Option.toList_none, List.append_nil]
        dsimp only
        rw [hitems]
        have hseen : timeline.Seen prefixText first later tag contribution := ⟨t, hfirst, hlast, hentry⟩
        split
        · refine ⟨hlater, [tag], rest, [contribution], rfl, .cons hseen .nil, ?_, rfl, fun _ => by simp,
            fun h => by cases h⟩
          cases contribution <;> rfl
        · exact hnext later contribution hlater hseen
      · rintro error later ⟨hlater, hkind, t, hfirst, hlast, hnone⟩
        exact ⟨hlater, hkind, tag, List.mem_cons_self, htag, t, hfirst, hlast, hnone⟩

variable (timeline) in
omit laws in
/-- A list call found a page of tags at one time, and what each tag contributed from then on. -/
structure Displayed (prefixText : String) (first last : Nat) (bound next : Option String)
    (items : List ObjectMetadata) (t : Nat) (scanned : List String) (entries : List (Option ObjectMetadata)) :
    Prop where
  after : first ≤ t
  before : t ≤ last
  page : (next = none → (timeline.world t).registry.Advances adapter.binding.maxScanTags bound) →
    Paging.Page (timeline.world t).registry.tagSet bound scanned next
  seen : List.Forall₂ (timeline.Seen prefixText t last) scanned entries
  items : items = entries.filterMap id

variable (timeline) in
omit laws in
/-- Why a list call fails: a tag that is not well named, or a version tag that was gone after it was listed. -/
def Unlisted (first last : Nat) (error : Err) : Prop :=
  (∃ t, first ≤ t ∧ t ≤ last ∧ ¬(timeline.world t).registry.WellNamed) ∨
    (error.kind = .objectNotFound ∧ ∃ t t' tag, first ≤ t ∧ t ≤ t' ∧ t' ≤ last ∧ IsVersionTag tag ∧
      tag ∈ (timeline.world t).registry.tagSet ∧ (timeline.world t').registry.tagged tag = none)

theorem listTags_paged (limit : Nat) (bound : Option String) :
    (adapter.transport.listTags P limit bound).Ensures timeline.env (fun _ _ => True) first fun outcome t => first ≤ t ∧
      match outcome with
      | .ok page => page.tags = ((timeline.world t).registry.remainingTags bound).take
            (setting.policy.pageLength limit ((timeline.world t).registry.remainingTags bound)) ∧
          (page.hasMore = false → page.tags = (timeline.world t).registry.remainingTags bound)
      | .error _ => max defaultResponseBytes (limit * 192 + 1024) <
          (respondTags (timeline.world t).registry limit bound).body.length := by
  refine Prog.ensures_of_performs fun outcome t hperforms => ⟨performs_le hperforms, ?_⟩
  have hlisted := (performs_within laws hperforms le_rfl le_rfl).ensures
    (listTags_read laws (timeline.reading first t) (G := fun _ _ => True) (fun _ _ _ => trivial) _ limit bound)
  cases outcome with
  | ok page => exact hlisted.2
  | error error => exact hlisted.2.resolve_left False.elim

theorem list_displayed (prefixText : String) (limit : Nat) {bound cursor : Option String}
    (hcursor : Cursor adapter P bound cursor) :
    (adapter.list P prefixText limit cursor).Ensures timeline.env (fun _ _ => True) first fun outcome last =>
      match outcome with
      | .ok result => ∃ items next t scanned entries,
          result = .list items (next.map (CursorCodec.encode P adapter.binding.cursorSigningKey)) ∧
          timeline.Displayed prefixText first last bound next items t scanned entries
      | .error error => timeline.Unlisted first last error := by
  unfold OciDistributionAdapter.list
  refine Prog.Ensures.bind (R := fun outcome later => outcome = .ok bound ∧ later = first) ?_ ?_
    (by rintro error later ⟨heq, -⟩; cases heq)
  · obtain ⟨rfl, htag⟩ := hcursor
    cases bound with
    | none => exact ⟨rfl, rfl⟩
    | some tag =>
      simp only [Option.map_some, CursorCodec.decode_encode laws _ (htag tag rfl), Except.map]
      exact ⟨rfl, rfl⟩
  rintro last later ⟨heq, rfl⟩
  obtain rfl := Except.ok.inj heq
  refine (listTags_paged laws later adapter.binding.maxScanTags last).bind ?_ ?_
  · rintro page t ⟨hlater, htags, hmore⟩
    refine (scanTags_viewed laws t prefixText limit page.tags [] none).bind ?_ ?_
    · rintro ⟨items, scanned, stopped⟩ final ⟨hfinal, front, rest, entries, h⟩
      have hitems := h.items
      have hscanned := h.last
      simp only [List.nil_append, Option.or_none] at hitems hscanned
      -- what was looked at is an initial part of what lay after the cursor
      have hinitial : front <+: (timeline.world t).registry.remainingTags last := by
        refine List.IsPrefix.trans ⟨rest, h.tags.symm⟩ ?_
        rw [htags]
        exact List.take_prefix _ _
      have hrest : stopped = false → page.tags = front := by
        intro hstopped
        rw [h.tags, h.finished hstopped, List.append_nil]
      have hdisplayed : ∀ next, (∀ tag, next = some tag → front.getLast? = some tag) →
          (next = none → (timeline.world t).registry.Advances adapter.binding.maxScanTags last →
            front = (timeline.world t).registry.remainingTags last) →
          timeline.Displayed prefixText later final last next items t front entries :=
        fun next hnext hnone => ⟨hlater, hfinal, fun hadvances =>
          page_of_prefix hinitial hnext fun hend => hnone hend (hadvances hend), h.seen, hitems⟩
      cases hlast : front.getLast? with
      | some tag =>
        obtain rfl : scanned = some tag := hscanned.trans hlast
        dsimp only
        split
        · exact ⟨items, some tag, t, front, entries, rfl,
            hdisplayed _ (fun _ heq => heq ▸ hlast) (fun heq => by cases heq)⟩
        · rename_i hend
          simp only [Bool.or_eq_true, not_or, Bool.not_eq_true] at hend
          refine ⟨items, none, t, front, entries, rfl, hdisplayed _ (fun _ heq => by cases heq) fun _ _ => ?_⟩
          rw [← hrest hend.1, hmore hend.2]
      | none =>
        obtain rfl : scanned = none := hscanned.trans hlast
        have hempty := List.getLast?_eq_none_iff.mp hlast
        refine ⟨items, none, t, front, entries, rfl, hdisplayed _ (fun _ heq => by cases heq) fun _ hadvances => ?_⟩
        -- an empty page is the last one
        have hstopped : stopped = false := by
          cases stopped with
          | false => rfl
          | true => exact absurd hempty (h.stopped rfl)
        rw [hempty]
        exact (remainingTags_eq_nil hadvances (htags.symm.trans ((hrest hstopped).trans hempty))).symm
    · rintro error final ⟨hfinal, hkind, tag, htag, hversion, t', hafter, hbefore, hnone⟩
      rw [htags] at htag
      exact .inr ⟨hkind, t, t', tag, hlater, hafter, hbefore, hversion,
        (mem_remainingTags.mp (List.mem_of_mem_take htag)).1, hnone⟩
  · rintro error t ⟨hlater, hlong⟩
    exact .inl ⟨t, hlater, le_rfl, fun hnamed => absurd hlong (not_lt.mpr (page_fits hnamed last))⟩

end Tags

/-! ## Following cursors beside the run -/

/-- A list call of a reader: when it began and ended, and what it returned. -/
structure Visit where
  first : Nat
  last : Nat
  items : List ObjectMetadata

variable (timeline) in
/-- List calls beside the run that return, one after the other, each with the cursor of the one before it. -/
inductive Strolls (prefixText : String) : Nat → Option String → List Visit → Option String → Prop where
  | stop (start : Nat) (cursor : Option String) : Strolls prefixText start cursor [] cursor
  | call (start : Nat) (visit : Visit) (limit : Nat) (cursor next visits final) : start ≤ visit.first →
      Performs timeline.env (adapter.list P prefixText limit cursor) visit.first (.ok (.list visit.items next))
        visit.last →
      (next = none → visits = []) → Strolls prefixText visit.last next visits final →
      Strolls prefixText start cursor (visit :: visits) final

variable (timeline) in
/-- The items of a call are what the tags of its page contributed during the call. -/
def Presents (prefixText : String) (visit : Visit) (page : Set String × List String) : Prop :=
  ∃ t entries, visit.first ≤ t ∧ t ≤ visit.last ∧ page.1 = (timeline.world t).registry.tagSet ∧
    List.Forall₂ (timeline.Seen prefixText t visit.last) page.2 entries ∧ visit.items = entries.filterMap id

theorem Strolls.mono {prefixText : String} {start start' : Nat} {cursor final : Option String} {visits : List Visit}
    (h : timeline.Strolls prefixText start cursor visits final) (hle : start' ≤ start) :
    timeline.Strolls prefixText start' cursor visits final := by
  cases h with
  | stop => exact .stop start' cursor
  | call _ visit limit _ next visits _ hfirst hperforms hnone hrest =>
    exact .call start' visit limit cursor next visits final (hle.trans hfirst) hperforms hnone hrest

theorem Strolls.paged (laws : P.Lawful) {prefixText : String} {start : Nat} {bound cursor final : Option String}
    {visits : List Visit} (h : timeline.Strolls prefixText start cursor visits final)
    (hcursor : Cursor adapter P bound cursor)
    (hnamed : ∀ visit ∈ visits, ∀ t, visit.first ≤ t → t ≤ visit.last → (timeline.world t).registry.WellNamed)
    (hadvances : ∀ visit ∈ visits, ∀ t, visit.first ≤ t → t ≤ visit.last → ∀ bound,
      (timeline.world t).registry.Advances adapter.binding.maxScanTags bound) :
    ∃ pages last, Paging.Walk bound pages last ∧ Cursor adapter P last final ∧
      List.Forall₂ (timeline.Presents prefixText) visits pages := by
  induction h generalizing bound with
  | stop start cursor => exact ⟨[], bound, .stop bound, hcursor, .nil⟩
  | call start visit limit cursor next visits final _ hperforms hnone _ ih =>
    obtain ⟨items, next', t, scanned, entries, heq, h⟩ :=
      hperforms.ensures (list_displayed laws visit.first prefixText limit hcursor)
    obtain ⟨hitems, rfl⟩ := Result.list.inj heq
    have hnext := cursor_next (hnamed _ List.mem_cons_self t h.after h.before) h.page
    have hpage := h.page fun _ => hadvances _ List.mem_cons_self t h.after h.before bound
    obtain ⟨pages, last, hwalk, hlast, hpresents⟩ := ih hnext
      (fun other hother => hnamed other (List.mem_cons_of_mem _ hother))
      fun other hother => hadvances other (List.mem_cons_of_mem _ hother)
    refine ⟨_, last, .page _ _ _ _ pages _ hpage (fun hend => ?_) hwalk, hlast,
      .cons ⟨t, entries, h.after, h.before, rfl, h.seen, hitems.trans h.items⟩ hpresents⟩
    subst hend
    obtain rfl := hnone rfl
    cases hpresents
    rfl

/-- What a tag contributed was a live version with a matching object id, and its exact tag. -/
theorem Seen.live (laws : P.Lawful) {prefixText tag : String} {first last : Nat} {metadata : ObjectMetadata}
    (h : timeline.Seen prefixText first last tag (some metadata)) :
    tag = versionName P metadata.objectRef.objectId metadata.digest ∧
      ∃ t stored, first ≤ t ∧ t ≤ last ∧ stored ∈ (catalogOf (timeline.world t).registry).live ∧
        stored.metadata = metadata ∧ prefixText.toList.isPrefixOf stored.objectId.toList = true := by
  obtain ⟨t, hfirst, hlast, hentry⟩ := h
  obtain ⟨stored, hlive, rfl, rfl, hmatch⟩ := ((timeline.intact laws t).entry_iff laws).mp hentry
  exact ⟨rfl, t, stored, hfirst, hlast, hlive, rfl, hmatch⟩

/-- The exact tags of what was seen are among the tags that were looked at, in their order. -/
theorem sublist_of_seen (laws : P.Lawful) {prefixText : String} {first last : Nat} {scanned : List String}
    {entries : List (Option ObjectMetadata)} (h : List.Forall₂ (timeline.Seen prefixText first last) scanned entries) :
    ((entries.filterMap id).map fun metadata =>
      versionName P metadata.objectRef.objectId metadata.digest).Sublist scanned := by
  induction h with
  | nil => exact .slnil
  | @cons tag entry scanned entries hseen _ ih =>
    cases entry with
    | none => exact ih.cons tag
    | some metadata =>
      rw [(hseen.live laws).1]
      exact ih.cons_cons _

theorem sublist_of_presents (laws : P.Lawful) {prefixText : String} {visits : List Visit}
    {pages : List (Set String × List String)} (h : List.Forall₂ (timeline.Presents prefixText) visits pages) :
    ((visits.flatMap (·.items)).map fun metadata =>
      versionName P metadata.objectRef.objectId metadata.digest).Sublist (pages.flatMap (·.2)) := by
  induction h with
  | nil => exact .slnil
  | @cons visit page visits pages hpresents _ ih =>
    obtain ⟨t, entries, -, -, -, hseen, hitems⟩ := hpresents
    rw [List.flatMap_cons, List.flatMap_cons, List.map_append, hitems]
    exact (sublist_of_seen laws hseen).append ih

/-- A tag that was looked at while its version was live gave an item. -/
theorem Presents.mem (laws : P.Lawful) {prefixText : String} {visit : Visit} {page : Set String × List String}
    (h : timeline.Presents prefixText visit page) {stored : StoredObject} (htag : stored.exactName P ∈ page.2)
    (hlive : ∀ t, visit.first ≤ t → t ≤ visit.last → stored ∈ (catalogOf (timeline.world t).registry).live)
    (hmatch : prefixText.toList.isPrefixOf stored.objectId.toList = true) : stored.metadata ∈ visit.items := by
  obtain ⟨t, entries, hfirst, -, -, hseen, hitems⟩ := h
  obtain ⟨entry, hentry, t', hafter, hbefore, hshown⟩ := exists_of_forall₂ hseen.flip htag
  have hexpected : (timeline.world t').entry prefixText (stored.exactName P) = some stored.metadata :=
    ((timeline.intact laws t').entry_iff laws).mpr
      ⟨stored, hlive t' (hfirst.trans hafter) hbefore, rfl, rfl, hmatch⟩
  rw [hitems, List.mem_filterMap]
  exact ⟨entry, hentry, hshown.symm.trans hexpected⟩

/-- Over a walk along the cursors of list calls beside a run: no version comes twice, every item was a live version
at some time of its call, a version that was live during all calls is returned if the walk ends, and a call fails
only over a version that was removed while it was made. No page is empty while tags remain. -/
theorem list_beside (laws : P.Lawful) {prefixText : String} {start : Nat} {final : Option String} {visits : List Visit}
    (hwalk : timeline.Strolls prefixText start none visits final)
    (hnamed : ∀ visit ∈ visits, ∀ t, visit.first ≤ t → t ≤ visit.last → (timeline.world t).registry.WellNamed)
    (hadvances : ∀ visit ∈ visits, ∀ t, visit.first ≤ t → t ≤ visit.last → ∀ bound,
      (timeline.world t).registry.Advances adapter.binding.maxScanTags bound) :
    (visits.flatMap (·.items)).Nodup ∧
    (∀ visit ∈ visits, ∀ metadata ∈ visit.items, ∃ t stored, visit.first ≤ t ∧ t ≤ visit.last ∧
      stored ∈ (catalogOf (timeline.world t).registry).live ∧ stored.metadata = metadata ∧
      prefixText.toList.isPrefixOf stored.objectId.toList = true) ∧
    (final = none → visits ≠ [] → ∀ stored, prefixText.toList.isPrefixOf stored.objectId.toList = true →
      (∀ visit ∈ visits, ∀ t, visit.first ≤ t → t ≤ visit.last →
        stored ∈ (catalogOf (timeline.world t).registry).live) →
      stored.metadata ∈ visits.flatMap (·.items)) ∧
    ∀ limit first last error, Performs timeline.env (adapter.list P prefixText limit final) first (.error error) last →
      (∃ t, first ≤ t ∧ t ≤ last ∧ ¬(timeline.world t).registry.WellNamed) ∨
        (error.kind = .objectNotFound ∧ ∃ t t' stored, first ≤ t ∧ t ≤ t' ∧ t' ≤ last ∧
          stored ∈ (catalogOf (timeline.world t).registry).live ∧
          stored ∉ (catalogOf (timeline.world t').registry).live) := by
  have hstart : Cursor adapter P none none := ⟨rfl, fun tag h => by cases h⟩
  obtain ⟨pages, last, hpages, hlast, hpresents⟩ := hwalk.paged laws hstart hnamed hadvances
  refine ⟨?_, ?_, ?_, ?_⟩
  · exact List.Nodup.of_map _ (hpages.nodup.sublist (sublist_of_presents laws hpresents))
  · intro visit hvisit metadata hmetadata
    obtain ⟨page, -, t, entries, hfirst, -, -, hseen, hitems⟩ := exists_of_forall₂ hpresents.flip hvisit
    rw [hitems, List.mem_filterMap] at hmetadata
    obtain ⟨_, hentry, rfl⟩ := hmetadata
    obtain ⟨tag, -, hshown⟩ := exists_of_forall₂ hseen hentry
    obtain ⟨-, t', stored, hafter, hbefore, hlive, hmetadata, hmatch⟩ := Seen.live laws hshown
    exact ⟨t', stored, hfirst.trans hafter, hbefore, hlive, hmetadata, hmatch⟩
  · intro hfinal hvisits stored hmatch hlive
    have hnone : last = none := by
      have hcursor := hlast.1
      rw [hfinal] at hcursor
      exact Option.map_eq_none_iff.mp hcursor.symm
    subst hnone
    have hpresent : ∀ page ∈ pages, stored.exactName P ∈ page.1 := by
      intro page hpage
      obtain ⟨visit, hvisit, t, entries, hfirst, hbefore, htags, -⟩ := exists_of_forall₂ hpresents hpage
      obtain ⟨body, -, htagged⟩ := hlive visit hvisit t hfirst hbefore
      rw [htags]
      exact mem_tagSet.mpr ⟨body, htagged⟩
    have hnonempty : pages ≠ [] := by
      rintro rfl
      cases hpresents
      exact hvisits rfl
    obtain ⟨page, hpage, htag⟩ :=
      List.mem_flatMap.mp (hpages.complete hnonempty (Paging.after_none _) hpresent)
    obtain ⟨visit, hvisit, hshown⟩ := exists_of_forall₂ hpresents hpage
    exact List.mem_flatMap.mpr ⟨visit, hvisit, hshown.mem laws htag (hlive visit hvisit) hmatch⟩
  · intro limit first finish error hperforms
    have hunlisted : timeline.Unlisted first finish error :=
      hperforms.ensures (list_displayed laws first prefixText limit hlast)
    refine hunlisted.imp_right ?_
    rintro ⟨hkind, t, t', tag, hfirst, hafter, hbefore, hversion, hpresent, hnone⟩
    obtain ⟨body, htagged⟩ := mem_tagSet.mp hpresent
    obtain ⟨stored, -, hpublished, rfl, -⟩ := (timeline.intact laws t).inspect laws hversion htagged
    refine ⟨hkind, t, t', stored, hfirst, hafter, hbefore, ⟨body, hpublished, htagged⟩, ?_⟩
    rintro ⟨other, -, hother⟩
    cases hnone.symm.trans hother

/-! ## Runs as timelines -/

/-- A timeline that has come to rest goes on with any steps. -/
theorem exists_later (timeline : Timeline setting now) {n : Nat}
    {middle last : Config Op Op.Res Err Answer (World setting.policy) Call}
    (hrest : ∀ t, n ≤ t → timeline.config t = middle)
    (hsteps : Relation.ReflTransGen (Step setting.env (Call.program P adapter)) middle last) :
    ∃ (later : Timeline setting now) (m : Nat), n ≤ m ∧ later.config n = middle ∧ ∀ t, m ≤ t → later.config t = last := by
  induction hsteps with
  | refl => exact ⟨timeline, n, le_rfl, hrest n le_rfl, hrest⟩
  | @tail config last hsteps hstep ih =>
    obtain ⟨timeline, m, hle, hmiddle, htimeline⟩ := ih
    refine ⟨⟨fun t => if t ≤ m then timeline.config t else last, ?_, fun t => ?_⟩, m + 1, by omega, ?_, fun t ht => ?_⟩
    · rw [if_pos (Nat.zero_le m)]
      exact timeline.runs
    · by_cases hlt : t + 1 ≤ m
      · rw [if_pos hlt, if_pos (by omega)]
        exact timeline.step t
      · rw [if_neg hlt]
        by_cases heq : t ≤ m
        · rw [if_pos heq, htimeline t (by omega)]
          exact .inr hstep
        · rw [if_neg heq]
          exact .inl rfl
    · exact (if_pos hle).trans hmiddle
    · exact if_neg (by omega)

/-- Every run is a timeline that comes to rest in its last configuration. -/
theorem exists_timeline {config : Config Op Op.Res Err Answer (World setting.policy) Call}
    (hrun : Runs setting now config) :
    ∃ (timeline : Timeline setting now) (n : Nat), ∀ t, n ≤ t → timeline.config t = config := by
  obtain ⟨timeline, n, -, -, htimeline⟩ := @exists_later _ _ _ _
    (⟨fun _ => _, .refl, fun _ => .inl rfl⟩ : Timeline setting now) 0 _ _ (fun _ _ => rfl) hrun
  exact ⟨timeline, n, htimeline⟩

/-- When the run stands still, its reader reads what is there. -/
theorem performs_still {α : Type} {program : Action α} (hreads : program.Uses Op.Reads) (hfaults : ¬setting.faults)
    {w w' : World setting.policy} {outcome : Except Err α} (h : Performs setting.env program w outcome w') {t : Nat}
    (hstill : timeline.world t = w) : Performs timeline.env program t outcome t := by
  induction h with
  | ret value w => exact .ret value t
  | raise error w => exact .raise error t
  | call op next w w₁ w' answer outcome hanswer hrest ih =>
    obtain ⟨request, rfl, hread⟩ := hreads.1
    rcases hanswer with ⟨rfl, rfl⟩ | ⟨hfalse, -⟩
    · refine .call _ _ _ t _ _ _ ⟨le_rfl, ?_⟩ (ih (hreads.2 _) (hstill.trans (apply_reads hread w).symm))
      rw [hstill]
    · exact absurd hfalse hfaults

theorem strolls_still {prefixText : String} (hfaults : ¬setting.faults) {w : World setting.policy} {t : Nat}
    (hstill : timeline.world t = w) {cursor final : Option String} {steps : List (Listed setting)}
    (hwalk : ListWalk setting prefixText cursor steps final) (hworld : ∀ step ∈ steps, step.world = w) :
    timeline.Strolls prefixText t cursor (steps.map fun step => ⟨t, t, step.items⟩) final := by
  induction hwalk with
  | stop cursor => exact .stop t cursor
  | call v v' limit items cursor next steps final hperforms hnone _ ih =>
    obtain rfl : v = w := hworld _ List.mem_cons_self
    refine .call t ⟨t, t, items⟩ limit cursor next _ final le_rfl
      (performs_still (reads_list P adapter prefixText limit cursor) hfaults hperforms hstill) (fun hend => ?_)
      (ih fun step hstep => hworld step (List.mem_cons_of_mem _ hstep))
    rw [hnone hend, List.map_nil]

end Timeline

namespace Sample

open MeridianOci.Model.Sample

/-- A walk of several calls of one item each. After the first call one of the two versions is deleted, and the
other one is returned. -/
theorem list_beside_deletion : ∃ limit, ∃ (timeline : Timeline (Sample.setting limit False) (.aware 0)) (t t' : Nat)
    (items : List ObjectMetadata) (visits : List Timeline.Visit), t ≤ t' ∧ visits ≠ [] ∧
    (∀ visit ∈ visits, visit.first = t' ∧ visit.last = t') ∧
    timeline.Strolls "a" t none (⟨t, t, items⟩ :: visits) none ∧
    Plain.stored ⟨"a", "y", false, none, none⟩ ∈ (catalogOf (timeline.world t).registry).live ∧
    Plain.stored ⟨"a", "y", false, none, none⟩ ∉ (catalogOf (timeline.world t').registry).live ∧
    (((⟨t, t, items⟩ : Timeline.Visit) :: visits).flatMap (·.items)).Nodup ∧
    (Plain.stored ⟨"a", "x", false, none, none⟩).metadata ∈
      ((⟨t, t, items⟩ : Timeline.Visit) :: visits).flatMap (·.items) := by
  let kept : Plain := ⟨"a", "x", false, none, none⟩
  let dropped : Plain := ⟨"a", "y", false, none, none⟩
  obtain ⟨limit, hfits⟩ := exists_limit [kept, dropped] (by decide)
  obtain ⟨w, history, hrun, -, -, hanchored, hlive⟩ := run_puts hfits (by decide) (by decide) (.aware 0)
  have hintact : Intact w.registry := hrun.intact lawful
  have hnamed := wellNamed_puts hintact (fun _ => (hanchored _).mp) (fun _ => (hlive _).mp) (by decide)
  have hkept := (hlive kept.stored).mpr (by simp)
  have hdropped := (hlive dropped.stored).mpr (by simp)
  have hne : kept.stored.metadata ≠ dropped.stored.metadata := fun heq =>
    @digest_ne kept dropped (by decide) (congrArg (·.digest) heq)
  -- the delete
  obtain ⟨w', hperforms, hcatalog, -⟩ := @performs_deletion _ dropped _ hintact _ hdropped rfl rfl rfl
  have hsteps := hperforms.steps history
  have hintact' : Intact w'.registry := Runs.intact lawful (Relation.ReflTransGen.trans hrun hsteps)
  have hnamed' : w'.registry.WellNamed := by
    refine @wellNamed_puts _ [kept, dropped] _ hintact' (fun objectId hmem => ?_) (fun stored hmem => ?_) (by decide)
    · rw [hcatalog] at hmem
      exact (hanchored objectId).mp hmem
    · rw [hcatalog] at hmem
      exact (hlive stored).mp hmem.1
  obtain ⟨timeline, n, hrest⟩ := Timeline.exists_timeline hrun
  obtain ⟨timeline, n', hle, hmiddle, hlater⟩ := timeline.exists_later hrest hsteps
  have hworld : timeline.world n = w := by rw [Timeline.world, hmiddle]
  have hworld' : timeline.world n' = w' := by rw [Timeline.world, hlater n' le_rfl]
  -- the first call returns one of the two versions, and so a cursor
  have hstart : Cursor (Sample.adapter limit) platform none none := ⟨rfl, fun tag h => by cases h⟩
  obtain ⟨outcome, v, hfirst⟩ := exists_list w "a" 1 none
  obtain ⟨items, next, rfl⟩ := goesOn_of_listable lawful (listable_start hintact hnamed) "a" [] none (.stop none)
    (fun step hstep => by cases hstep) (.inl rfl) 1 outcome v hfirst
  have hnext : next ≠ none := by
    rintro rfl
    have hwalk : ListWalk (Sample.setting limit False) "a" none [⟨w, none, items⟩] none :=
      .call _ _ _ _ _ _ _ _ hfirst (fun _ => rfl) (.stop none)
    have hsame : ∀ step ∈ [(⟨w, none, items⟩ : Listed (Sample.setting limit False))], step.world = w :=
      fun step hstep => by rw [List.mem_singleton.mp hstep]
    obtain ⟨-, hall⟩ := (list_complete lawful hwalk (fun step hstep => hsame step hstep ▸ hnamed)
      fun step _ bound _ => advances_policy step.world.registry bound).2.1 fun step hstep => hsame step hstep ▸ hintact
    have hmem : ∀ stored ∈ (catalogOf w.registry).live, "a".toList.isPrefixOf stored.objectId.toList = true →
        stored.metadata ∈ items := by
      intro stored hstored hmatch
      simpa using hall rfl (List.cons_ne_nil _ _) stored (fun step hstep => hsame step hstep ▸ hstored) hmatch
    have hlength := hfirst.returns (list_length "a" Nat.one_pos none) items none rfl
    have hfound := hmem _ hkept (by decide)
    have hother := hmem _ hdropped (by decide)
    rcases items with _ | ⟨item, _ | ⟨next, rest⟩⟩
    · cases hfound
    · exact hne ((List.mem_singleton.mp hfound).trans (List.mem_singleton.mp hother).symm)
    · exact absurd hlength (by simp)
  obtain ⟨cursor, rfl⟩ := Option.ne_none_iff_exists'.mp hnext
  -- the others return the other one
  obtain ⟨bound, hcursor⟩ := (ListWalk.call _ _ _ _ _ _ [] _ hfirst (fun h => by cases h) (.stop _)).cursor lawful hstart
    (fun step hstep => by rw [List.mem_singleton.mp hstep]; exact hnamed)
  obtain ⟨steps, hwalk, hne', hsame⟩ := exists_listWalk_from lawful (listable_start hintact' hnamed') "a" 1 hcursor
  have hstrolls : timeline.Strolls "a" n none (⟨n, n, items⟩ :: steps.map fun step => ⟨n', n', step.items⟩) none :=
    .call n ⟨n, n, items⟩ 1 none (some cursor) _ none le_rfl
      (Timeline.performs_still (reads_list platform _ "a" 1 none) id hfirst hworld) (fun h => by cases h)
      ((Timeline.strolls_still id hworld' hwalk hsame).mono hle)
  have hvisit : ∀ visit ∈ (⟨n, n, items⟩ : Timeline.Visit) :: steps.map (fun step => ⟨n', n', step.items⟩),
      ∀ t, visit.first ≤ t → t ≤ visit.last → (timeline.world t = w ∨ timeline.world t = w') := by
    intro visit hvisit t hfirst hlast
    rcases List.mem_cons.mp hvisit with rfl | hmem
    · obtain rfl : t = n := le_antisymm hlast hfirst
      exact .inl hworld
    · obtain ⟨step, -, rfl⟩ := List.mem_map.mp hmem
      obtain rfl : t = n' := le_antisymm hlast hfirst
      exact .inr hworld'
  obtain ⟨hnodup, -, hall, -⟩ := Timeline.list_beside lawful hstrolls
    (fun visit hmem t hfirst hlast => by
      rcases hvisit visit hmem t hfirst hlast with heq | heq
      · exact heq ▸ hnamed
      · exact heq ▸ hnamed')
    fun visit _ t _ _ bound => advances_policy _ bound
  refine ⟨limit, timeline, n, n', items, _, hle, by simpa using hne', ?_, hstrolls, ?_, ?_, hnodup, ?_⟩
  · intro visit hmem
    obtain ⟨step, -, rfl⟩ := List.mem_map.mp hmem
    exact ⟨rfl, rfl⟩
  · rw [hworld]
    exact hdropped
  · rw [hworld', hcatalog]
    exact fun h => h.2 rfl
  · refine hall rfl (List.cons_ne_nil _ _) kept.stored (by decide) fun visit hmem t hfirst hlast => ?_
    rcases hvisit visit hmem t hfirst hlast with heq | heq
    · exact heq ▸ hkept
    · rw [heq, hcatalog]
      exact ⟨hkept, fun h => hne (congrArg (·.metadata) h)⟩

end Sample

end MeridianOci.Service
