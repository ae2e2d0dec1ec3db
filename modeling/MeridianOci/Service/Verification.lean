import MeridianOci.Model.Runtime
import MeridianOci.Service.Sample

/-!
# Execution on a verified runtime

Runs of one runtime and its sessions, of any length and in any order. The flag of the
runtime says what the history says: it is open, and its latest verification succeeded.
A session is refused on an unverified runtime when it is opened, and not after that.
-/
namespace MeridianOci.Service

open MeridianOci.Data MeridianOci.Effect MeridianOci.Model

set_option autoImplicit false

/-! ## Runs -/

/-- A runtime and the sessions that were opened on it. -/
structure Host where
  runtime : Runtime
  sessions : List RuntimeSession

inductive HostCall where
  | «open» (startup : Except Err (OciDistributionAdapter × Except Err ProbeReport))
  | verifyPhysical (resources : List PhysicalResource) (contact : Except Err Unit)
  | openSession (transactional : Bool)
  | execute (session : Nat) (request : Option Operation)
  | closeSession (session : Nat)
  | close (released : Except Err Unit)

/-- A call, and whether it got through: for an execution, whether it reached the adapter. -/
structure HostEvent where
  call : HostCall
  passed : Bool

namespace Host

variable (sha256Fingerprint : JsonObject → String) (host : Host)

/-- A caller has only the sessions it was given. -/
def Accepts : HostCall → Prop
  | .execute session _ => session < host.sessions.length
  | .closeSession session => session < host.sessions.length
  | _ => True

def passes : HostCall → Bool
  | .open startup => (host.runtime.open startup).1.isOk
  | .verifyPhysical resources contact => (host.runtime.verifyPhysical sha256Fingerprint resources contact).1.isOk
  | .openSession transactional => (host.runtime.openSession transactional).isOk
  | .execute session request =>
    match host.sessions[session]? with
    | none => false
    | some found => (found.requireOpen host.runtime).isOk && request.isSome
  | .closeSession _ => true
  | .close released => (host.runtime.close released).1.isOk

def next : HostCall → Host
  | .open startup => { host with runtime := (host.runtime.open startup).2 }
  | .verifyPhysical resources contact =>
    { host with runtime := (host.runtime.verifyPhysical sha256Fingerprint resources contact).2 }
  | .openSession transactional =>
    match host.runtime.openSession transactional with
    | .ok session => { host with sessions := host.sessions ++ [session] }
    | .error _ => host
  | .execute _ _ => host
  | .closeSession session => { host with sessions := host.sessions.modify session RuntimeSession.close }
  | .close released => { host with runtime := (host.runtime.close released).2 }

end Host

/-- A run of a runtime from its creation, as the list of its calls. -/
inductive Played (sha256Fingerprint : JsonObject → String) (binding : OciDistributionBinding) (repository : String) :
    List HostEvent → Host → Prop where
  | create : Played sha256Fingerprint binding repository [] ⟨.create binding repository, []⟩
  | call (history : List HostEvent) (host : Host) (call : HostCall) :
      Played sha256Fingerprint binding repository history host → host.Accepts call →
      Played sha256Fingerprint binding repository (history ++ [⟨call, host.passes sha256Fingerprint call⟩])
        (host.next sha256Fingerprint call)

/-! ## What the history says -/

namespace HostEvent

def opens : HostEvent → Bool
  | ⟨.open _, passed⟩ => passed
  | _ => false

def closes : HostEvent → Bool
  | ⟨.close _, _⟩ => true
  | _ => false

def isVerification : HostEvent → Bool
  | ⟨.verifyPhysical _ _, _⟩ => true
  | _ => false

def verifies (event : HostEvent) : Bool := event.isVerification && event.passed

/-- The runtime is closed, or a verification of it fails. -/
def disturbs (event : HostEvent) : Bool := event.closes || (event.isVerification && !event.passed)

/-- A session is opened. -/
def starts : HostEvent → Bool
  | ⟨.openSession _, passed⟩ => passed
  | _ => false

def ends (session : Nat) : HostEvent → Bool
  | ⟨.closeSession closed, _⟩ => closed = session
  | _ => false

end HostEvent

/-- The runtime is open. -/
def IsOpen (history : List HostEvent) : Prop := Since (·.opens) (fun event => !event.closes) history

/-- The runtime is open, and the latest verification since it was opened succeeded. -/
def IsVerified (history : List HostEvent) : Prop :=
  IsOpen history ∧ Since (·.verifies) (fun event => !event.closes && !event.isVerification) history

/-- Since the session was opened its runtime was disturbed, and not verified again. -/
def Disturbed (history : List HostEvent) (session : Nat) : Prop :=
  ∃ front event rest, history = front ++ event :: rest ∧ event.starts ∧ front.countP (·.starts) = session ∧
    Since (·.disturbs) (fun event => !event.verifies) rest

/-- What the history says is what the state knows. -/
structure Traced (history : List HostEvent) (host : Host) : Prop where
  opened : host.runtime.requireOpen.isOk ↔ IsOpen history
  paired : host.runtime.adapter.isSome = host.runtime.probe.isSome
  verified : host.runtime.verified = true ↔
    Since (·.verifies) (fun event => !event.closes && !event.isVerification) history
  running : host.runtime.verified = true → host.runtime.requireOpen.isOk
  sessions : host.sessions.length = history.countP (·.starts)
  closed : ∀ (k : Nat) (session : RuntimeSession), host.sessions[k]? = some session →
    (session.closed = true ↔ ∃ event ∈ history, event.ends k)
  given : ∀ (k : Nat), ∀ event ∈ history, event.ends k → k < host.sessions.length
  disturbed : ∀ k, k < host.sessions.length → (Disturbed history k ↔ host.runtime.verified = false)

theorem exists_countP {α : Type} {p : α → Bool} {list : List α} {k : Nat} (h : k < list.countP p) :
    ∃ front x rest, list = front ++ x :: rest ∧ p x ∧ front.countP p = k := by
  induction list generalizing k with
  | nil => simp at h
  | cons head tail ih =>
    rw [List.countP_cons] at h
    by_cases hhead : p head = true
    · cases k with
      | zero => exact ⟨[], head, tail, rfl, hhead, rfl⟩
      | succ k =>
        rw [if_pos hhead] at h
        obtain ⟨front, x, rest, heq, hx, hcount⟩ := ih (by omega : k < tail.countP p)
        exact ⟨head :: front, x, rest, by rw [heq]; rfl, hx, by rw [List.countP_cons, if_pos hhead, hcount]⟩
    · rw [if_neg hhead] at h
      obtain ⟨front, x, rest, heq, hx, hcount⟩ := ih (by omega : k < tail.countP p)
      exact ⟨head :: front, x, rest, by rw [heq]; rfl, hx, by rw [List.countP_cons, if_neg hhead, hcount, Nat.add_zero]⟩

section Snoc

variable {history : List HostEvent} {event : HostEvent} {host host' : Host}

/-- An event after the opening of a session disturbs it, settles it or leaves it as it is. -/
theorem disturbed_snoc {k : Nat} (hk : k < history.countP (·.starts)) :
    Disturbed (history ++ [event]) k ↔ event.disturbs ∨ (!event.verifies ∧ Disturbed history k) := by
  constructor
  · intro h
    obtain ⟨front, start, rest, heq, hstart, hcount, hsince⟩ := h
    rcases List.eq_nil_or_concat rest with hnil | ⟨init, other, hconcat⟩
    · rw [hnil] at hsince
      exact absurd hsince not_since_nil
    · rw [hconcat, List.concat_eq_append] at heq hsince
      rw [← List.cons_append, ← List.append_assoc] at heq
      obtain ⟨hhistory, hlast⟩ := List.append_inj' heq rfl
      obtain rfl : event = other := (List.cons.inj hlast).1
      rcases since_snoc.mp hsince with hdisturbs | ⟨hkeep, hold⟩
      · exact .inl hdisturbs
      · exact .inr ⟨hkeep, front, start, init, hhistory, hstart, hcount, hold⟩
  · intro h
    rcases h with hdisturbs | ⟨hkeep, front, start, rest, heq, hstart, hcount, hold⟩
    · obtain ⟨front, start, rest, heq, hstart, hcount⟩ := exists_countP hk
      refine ⟨front, start, rest ++ [event], by simp [heq], hstart, hcount, ?_⟩
      exact since_snoc.mpr (.inl hdisturbs)
    · refine ⟨front, start, rest ++ [event], by simp [heq], hstart, hcount, ?_⟩
      exact since_snoc.mpr (.inr ⟨hkeep, hold⟩)

/-- A session that was opened just now is not disturbed. -/
theorem not_disturbed_new : ¬Disturbed (history ++ [event]) (history.countP (·.starts)) := by
  intro h
  obtain ⟨front, start, rest, heq, hstart, hcount, hsince⟩ := h
  rcases List.eq_nil_or_concat rest with hnil | ⟨init, other, hconcat⟩
  · rw [hnil] at hsince
    exact not_since_nil hsince
  · rw [hconcat, List.concat_eq_append, ← List.cons_append, ← List.append_assoc] at heq
    obtain ⟨hhistory, -⟩ := List.append_inj' heq rfl
    rw [hhistory, List.countP_append, List.countP_cons, if_pos hstart] at hcount
    omega

/-- One more event, from what it does to the state. -/
theorem Traced.snoc (h : Traced history host)
    (hopened : host'.runtime.requireOpen.isOk ↔ event.opens ∨ (!event.closes ∧ host.runtime.requireOpen.isOk))
    (hpaired : host'.runtime.adapter.isSome = host'.runtime.probe.isSome)
    (hverified : host'.runtime.verified = true ↔
      event.verifies ∨ ((!event.closes && !event.isVerification) ∧ host.runtime.verified = true))
    (hrunning : host'.runtime.verified = true → host'.runtime.requireOpen.isOk)
    (hsessions : host'.sessions.length = host.sessions.length + if event.starts then 1 else 0)
    (hclosed : ∀ (k : Nat) (session : RuntimeSession), host'.sessions[k]? = some session →
      (session.closed = true ↔ event.ends k ∨ ∃ old, host.sessions[k]? = some old ∧ old.closed = true))
    (hgiven : ∀ k, event.ends k → k < host.sessions.length)
    (hstarts : event.starts → host'.runtime.verified = true) :
    Traced (history ++ [event]) host' where
  opened := by
    rw [hopened, h.opened, IsOpen, IsOpen, since_snoc]
  paired := hpaired
  verified := by
    rw [hverified, h.verified, since_snoc]
  running := hrunning
  sessions := by
    rw [hsessions, h.sessions, List.countP_append, List.countP_singleton]
  closed := by
    intro k session hk
    rw [hclosed k session hk]
    constructor
    · intro hor
      rcases hor with hends | ⟨old, hold, hclosed⟩
      · exact ⟨event, by simp, hends⟩
      · obtain ⟨other, hmem, hends⟩ := (h.closed k old hold).mp hclosed
        exact ⟨other, List.mem_append_left _ hmem, hends⟩
    · intro hexists
      obtain ⟨other, hmem, hends⟩ := hexists
      rcases List.mem_append.mp hmem with hold | hnew
      · have hlt := h.given k other hold hends
        refine .inr ⟨host.sessions[k], List.getElem?_eq_getElem hlt, ?_⟩
        exact (h.closed k _ (List.getElem?_eq_getElem hlt)).mpr ⟨other, hold, hends⟩
      · rw [List.mem_singleton.mp hnew] at hends
        exact .inl hends
  given := by
    intro k other hmem hends
    rcases List.mem_append.mp hmem with hold | hnew
    · have hlt := h.given k other hold hends
      omega
    · rw [List.mem_singleton.mp hnew] at hends
      have hlt := hgiven k hends
      omega
  disturbed := by
    intro k hk
    by_cases hold : k < host.sessions.length
    · have hcases : (event.disturbs ∨ (!event.verifies ∧ host.runtime.verified = false)) ↔
          ¬(event.verifies ∨ ((!event.closes && !event.isVerification) ∧ host.runtime.verified = true)) := by
        obtain ⟨call, passed⟩ := event
        cases call <;> cases passed <;> cases host.runtime.verified <;>
          simp [HostEvent.disturbs, HostEvent.verifies, HostEvent.closes, HostEvent.isVerification]
      rw [disturbed_snoc (by rw [← h.sessions]; exact hold), h.disturbed k hold, hcases, ← hverified,
        Bool.not_eq_true]
    · have hstart : event.starts = true := by
        by_contra hnot
        rw [if_neg hnot] at hsessions
        omega
      rw [if_pos hstart] at hsessions
      obtain rfl : k = host.sessions.length := by omega
      rw [hstarts hstart, h.sessions]
      exact ⟨fun hdisturbed => absurd hdisturbed not_disturbed_new, fun hfalse => by cases hfalse⟩

end Snoc

/-! ## The calls -/

theorem isOk_ok {ε α : Type} (a : α) : (Except.ok a : Except ε α).isOk = true := rfl

theorem isOk_error {ε α : Type} (error : ε) : (Except.error error : Except ε α).isOk = false := rfl

theorem requireOpen_isOk {runtime : Runtime} :
    runtime.requireOpen.isOk = (runtime.adapter.isSome && runtime.probe.isSome) := by
  unfold Runtime.requireOpen
  cases runtime.adapter <;> cases runtime.probe <;> rfl

variable {sha256Fingerprint : JsonObject → String} {history : List HostEvent} {host : Host}

/-- A call that concerns no session, from what it does to the runtime. -/
theorem Traced.onRuntime (h : Traced history host) {event : HostEvent} {runtime : Runtime}
    (hstarts : event.starts = false) (hends : ∀ k, event.ends k = false)
    (hopened : runtime.requireOpen.isOk ↔ event.opens ∨ (!event.closes ∧ host.runtime.requireOpen.isOk))
    (hpaired : runtime.adapter.isSome = runtime.probe.isSome)
    (hverified : runtime.verified = true ↔
      event.verifies ∨ ((!event.closes && !event.isVerification) ∧ host.runtime.verified = true))
    (hrunning : runtime.verified = true → runtime.requireOpen.isOk) :
    Traced (history ++ [event]) { host with runtime := runtime } := by
  apply h.snoc hopened hpaired hverified hrunning
  · simp [hstarts]
  · intro k session hk
    simp [hends, hk]
  · simp [hends]
  · simp [hstarts]

/-- A call that changes nothing. -/
theorem Traced.idle (h : Traced history host) {event : HostEvent} (hopens : event.opens = false)
    (hcloses : event.closes = false) (hverification : event.isVerification = false) (hstarts : event.starts = false)
    (hends : ∀ k, event.ends k = false) : Traced (history ++ [event]) host := by
  apply h.onRuntime hstarts hends _ h.paired _ h.running
  · simp [hopens, hcloses]
  · simp [HostEvent.verifies, hverification, hcloses]

theorem Traced.unverified (h : Traced history host) (hclosed : host.runtime.requireOpen.isOk = false) :
    host.runtime.verified = false := by
  by_contra hverified
  rw [Bool.not_eq_false] at hverified
  rw [h.running hverified] at hclosed
  cases hclosed

theorem reset_closed {runtime : Runtime} : runtime.reset.requireOpen.isOk = false := rfl

/-- What the opening of a runtime comes to. -/
theorem open_cases (runtime : Runtime) (startup : Except Err (OciDistributionAdapter × Except Err ProbeReport)) :
    (runtime.adapter.isSome ∧ runtime.open startup = (.ok (), runtime)) ∨
    (runtime.adapter = none ∧ ∃ error, runtime.open startup = (.error error, runtime.reset)) ∨
    (runtime.adapter = none ∧ ∃ adapter probe,
      runtime.open startup = (.ok (), { runtime with adapter := some adapter, probe := some probe })) := by
  unfold Runtime.open
  cases hadapter : runtime.adapter with
  | some adapter => exact .inl ⟨rfl, rfl⟩
  | none =>
    right
    cases startup with
    | error error => exact .inl ⟨rfl, error, rfl⟩
    | ok started =>
      obtain ⟨adapter, outcome⟩ := started
      cases outcome with
      | error error => exact .inl ⟨rfl, error, rfl⟩
      | ok report =>
        by_cases hpassed : report.passed = true
        · exact .inr ⟨rfl, adapter, _, if_pos hpassed⟩
        · exact .inl ⟨rfl, _, if_neg hpassed⟩

theorem Traced.open (h : Traced history host) (startup : Except Err (OciDistributionAdapter × Except Err ProbeReport)) :
    Traced (history ++ [⟨.open startup, (host.runtime.open startup).1.isOk⟩])
      { host with runtime := (host.runtime.open startup).2 } := by
  have hpaired := h.paired
  have hunverified := h.unverified
  rw [requireOpen_isOk] at hunverified
  rcases open_cases host.runtime startup with ⟨hsome, heq⟩ | ⟨hnone, error, heq⟩ | ⟨hnone, adapter, probe, heq⟩
  · have hopen : host.runtime.requireOpen.isOk = true := by rw [requireOpen_isOk, ← hpaired, hsome]; rfl
    rw [heq]
    apply h.onRuntime rfl (fun _ => rfl) _ hpaired _ h.running
    · simp [hopen, HostEvent.closes]
    · simp [HostEvent.verifies, HostEvent.isVerification, HostEvent.closes]
  · have hclosed : host.runtime.requireOpen.isOk = false := by rw [requireOpen_isOk, hnone]; rfl
    rw [heq]
    apply h.onRuntime rfl (fun _ => rfl) _ rfl
    · simp [HostEvent.verifies, HostEvent.isVerification, HostEvent.closes, h.unverified hclosed, Runtime.reset]
    · intro hverified
      cases hverified
    · simp [HostEvent.opens, isOk_error, hclosed, reset_closed]
  · have hclosed : host.runtime.requireOpen.isOk = false := by rw [requireOpen_isOk, hnone]; rfl
    rw [heq]
    apply h.onRuntime rfl (fun _ => rfl) _ rfl
    · simp [HostEvent.verifies, HostEvent.isVerification, HostEvent.closes]
    · intro hverified
      rw [h.unverified hclosed] at hverified
      cases hverified
    · simp [HostEvent.opens, isOk_ok, requireOpen_isOk]

/-- What a verification comes to: whatever happens after the first check takes the flag down first. -/
theorem verifyPhysical_cases (sha256Fingerprint : JsonObject → String) (runtime : Runtime) (resources : List PhysicalResource) (contact : Except Err Unit) :
    (runtime.requireOpen.isOk = false ∧ ∃ error,
      runtime.verifyPhysical sha256Fingerprint resources contact = (.error error, runtime)) ∨
    (runtime.requireOpen.isOk ∧ ∃ error,
      runtime.verifyPhysical sha256Fingerprint resources contact = (.error error, { runtime with verified := false })) ∨
    (runtime.requireOpen.isOk ∧ ∃ verification,
      runtime.verifyPhysical sha256Fingerprint resources contact = (.ok verification, { runtime with verified := true })) := by
  unfold Runtime.verifyPhysical
  cases hopen : runtime.requireOpen with
  | error error => exact .inl ⟨rfl, error, rfl⟩
  | ok _ =>
    right
    match resources with
    | [] => exact .inl ⟨rfl, _, rfl⟩
    | _ :: _ :: _ => exact .inl ⟨rfl, _, rfl⟩
    | [resource] =>
      by_cases hselected : resource.resourceRef ≠ runtime.binding.resourceRef
      · exact .inl ⟨rfl, _, if_pos hselected⟩
      · cases contact with
        | error error => exact .inl ⟨rfl, error, if_neg hselected⟩
        | ok _ => exact .inr ⟨rfl, _, if_neg hselected⟩

theorem Traced.verifyPhysical (h : Traced history host) (resources : List PhysicalResource)
    (contact : Except Err Unit) :
    Traced (history ++ [⟨.verifyPhysical resources contact,
        (host.runtime.verifyPhysical sha256Fingerprint resources contact).1.isOk⟩])
      { host with runtime := (host.runtime.verifyPhysical sha256Fingerprint resources contact).2 } := by
  rcases verifyPhysical_cases sha256Fingerprint host.runtime resources contact with
    ⟨hclosed, error, heq⟩ | ⟨hopen, error, heq⟩ | ⟨hopen, verification, heq⟩
  · rw [heq]
    apply h.onRuntime
    · rfl
    · exact fun _ => rfl
    · simp [HostEvent.opens, HostEvent.closes]
    · exact h.paired
    · simp [HostEvent.verifies, HostEvent.isVerification, isOk_error, h.unverified hclosed]
    · exact h.running
  · rw [heq]
    apply h.onRuntime
    · rfl
    · exact fun _ => rfl
    · simp [HostEvent.opens, HostEvent.closes, requireOpen_isOk]
    · exact h.paired
    · simp [HostEvent.verifies, HostEvent.isVerification, isOk_error]
    · intro hverified
      cases hverified
  · rw [heq]
    apply h.onRuntime
    · rfl
    · exact fun _ => rfl
    · simp [HostEvent.opens, HostEvent.closes, requireOpen_isOk]
    · exact h.paired
    · simp [HostEvent.verifies, HostEvent.isVerification, isOk_ok]
    · intro _
      exact hopen

theorem Traced.close (h : Traced history host) (released : Except Err Unit) :
    Traced (history ++ [⟨.close released, (host.runtime.close released).1.isOk⟩])
      { host with runtime := (host.runtime.close released).2 } := by
  have hreset : (host.runtime.close released).2 = host.runtime.reset := by
    unfold Runtime.close
    cases host.runtime.adapter <;> rfl
  rw [hreset]
  apply h.onRuntime rfl (fun _ => rfl) _ rfl
  · simp [HostEvent.verifies, HostEvent.isVerification, HostEvent.closes, Runtime.reset]
  · intro hverified
    cases hverified
  · simp [HostEvent.opens, HostEvent.closes, reset_closed]

/-- A session is given only on a verified runtime, and open. -/
theorem openSession_cases (runtime : Runtime) (transactional : Bool) :
    (∃ error, runtime.openSession transactional = .error error) ∨
      (runtime.verified = true ∧ runtime.openSession transactional = .ok ⟨false⟩) := by
  unfold Runtime.openSession
  cases runtime.requireOpen with
  | error error => exact .inl ⟨error, rfl⟩
  | ok _ =>
    cases transactional with
    | true => exact .inl ⟨_, rfl⟩
    | false =>
      by_cases hverified : runtime.verified = true
      · exact .inr ⟨hverified, by rw [hverified]; rfl⟩
      · rw [Bool.not_eq_true] at hverified
        exact .inl ⟨_, by rw [hverified]; rfl⟩

theorem Traced.openSession (h : Traced history host) (transactional : Bool) :
    Traced (history ++ [⟨.openSession transactional, host.passes sha256Fingerprint (.openSession transactional)⟩])
      (host.next sha256Fingerprint (.openSession transactional)) := by
  rcases openSession_cases host.runtime transactional with ⟨error, heq⟩ | ⟨hverified, heq⟩
  · have hnext : host.next sha256Fingerprint (.openSession transactional) = host := by
      simp only [Host.next, heq]
    have hpassed : host.passes sha256Fingerprint (.openSession transactional) = false := by
      simp only [Host.passes, heq]
      rfl
    rw [hnext, hpassed]
    exact h.idle rfl rfl rfl rfl (fun _ => rfl)
  · have hnext : host.next sha256Fingerprint (.openSession transactional) =
        { host with sessions := host.sessions ++ [⟨false⟩] } := by
      simp only [Host.next, heq]
    have hpassed : host.passes sha256Fingerprint (.openSession transactional) = true := by
      simp only [Host.passes, heq]
      rfl
    rw [hnext, hpassed]
    apply h.snoc
    · simp [HostEvent.opens, HostEvent.closes]
    · exact h.paired
    · simp [HostEvent.verifies, HostEvent.isVerification, HostEvent.closes]
    · exact h.running
    · simp [HostEvent.starts]
    · intro k session hk
      by_cases hold : k < host.sessions.length
      · rw [List.getElem?_append_left hold] at hk
        simp [HostEvent.ends, hk]
      · rw [List.getElem?_append_right (by omega)] at hk
        obtain ⟨hlt, heq⟩ := List.getElem?_eq_some_iff.mp hk
        have hnone : host.sessions[k]? = none := List.getElem?_eq_none (by omega)
        rw [List.getElem_singleton] at heq
        simp [HostEvent.ends, hnone, ← heq]
    · simp [HostEvent.ends]
    · intro _
      exact hverified

theorem Traced.closeSession (h : Traced history host) (ended : Nat) (hended : ended < host.sessions.length) :
    Traced (history ++ [⟨.closeSession ended, true⟩])
      { host with sessions := host.sessions.modify ended RuntimeSession.close } := by
  apply h.snoc
  · simp [HostEvent.opens, HostEvent.closes]
  · exact h.paired
  · simp [HostEvent.verifies, HostEvent.isVerification, HostEvent.closes]
  · exact h.running
  · simp [HostEvent.starts]
  · intro k session hk
    rw [List.getElem?_modify] at hk
    obtain ⟨old, hold, heq⟩ := Option.map_eq_some_iff.mp hk
    by_cases hsame : ended = k
    · rw [if_pos hsame] at heq
      simp [HostEvent.ends, hsame, ← heq, RuntimeSession.close]
    · rw [if_neg hsame] at heq
      simp [HostEvent.ends, hsame, hold, heq]
  · intro k hends
    obtain rfl : ended = k := by simpa [HostEvent.ends] using hends
    exact hended
  · simp [HostEvent.starts]

/-- The state of a run knows what its history says. -/
theorem Played.traced {binding : OciDistributionBinding} {repository : String}
    (h : Played sha256Fingerprint binding repository history host) : Traced history host := by
  induction h with
  | create =>
    constructor
    · simp [Runtime.create, requireOpen_isOk, IsOpen, not_since_nil]
    · rfl
    · simp [Runtime.create, not_since_nil]
    · intro hverified
      cases hverified
    · rfl
    · intro k session hk
      cases hk
    · intro k event hmem
      cases hmem
    · intro k hk
      cases hk
  | call history host call _ haccepts ih =>
    cases call with
    | «open» startup => exact ih.open startup
    | verifyPhysical resources contact => exact ih.verifyPhysical resources contact
    | openSession transactional => exact ih.openSession transactional
    | execute session request => exact ih.idle rfl rfl rfl rfl (fun _ => rfl)
    | closeSession session => exact ih.closeSession session haccepts
    | close released => exact ih.close released

/-! ## Executions -/

/-- An execution that gets through is one of the adapter, any other raises at once. -/
theorem passes_execute (P : Platform) {k : Nat} {session : RuntimeSession} (request : Option Operation)
    (hk : host.sessions[k]? = some session) :
    (host.passes sha256Fingerprint (.execute k request) = true ∧
      ∃ (adapter : OciDistributionAdapter) (operation : Operation) (render : Result → Action ExecutionResult),
        request = some operation ∧ session.execute P host.runtime request = adapter.execute P operation >>= render) ∨
      (host.passes sha256Fingerprint (.execute k request) = false ∧
        ∃ error, session.execute P host.runtime request = throw error) := by
  simp only [Host.passes, hk, RuntimeSession.execute]
  cases hopen : session.requireOpen host.runtime with
  | error error => exact .inr ⟨rfl, error, rfl⟩
  | ok opened =>
    cases request with
    | none => exact .inr ⟨rfl, _, rfl⟩
    | some operation => exact .inl ⟨rfl, opened.1, operation, _, rfl, rfl⟩

theorem passes_execute_iff {k : Nat} {session : RuntimeSession} {request : Option Operation}
    (hk : host.sessions[k]? = some session) :
    host.passes sha256Fingerprint (.execute k request) = true ↔
      session.closed = false ∧ host.runtime.requireOpen.isOk = true ∧ request.isSome := by
  simp only [Host.passes, hk, RuntimeSession.requireOpen]
  cases session.closed with
  | true => simp [isOk_error]
  | false => simp

/-- A history determines the state. -/
theorem Played.unique {binding : OciDistributionBinding} {repository : String} {host' : Host}
    (h : Played sha256Fingerprint binding repository history host)
    (h' : Played sha256Fingerprint binding repository history host') : host = host' := by
  induction h generalizing host' with
  | create =>
    generalize heq : ([] : List HostEvent) = history at h'
    cases h' with
    | create => rfl
    | call front _ call => simp at heq
  | call history host call _ _ ih =>
    generalize heq : history ++ [⟨call, host.passes sha256Fingerprint call⟩] = whole at h'
    cases h' with
    | create => simp at heq
    | call front other call' hplayed _ =>
      obtain ⟨hhistory, hlast⟩ := List.append_inj' heq rfl
      have hcall : call = call' := congrArg HostEvent.call (List.cons.inj hlast).1
      rw [hcall, ih (hhistory ▸ hplayed)]

/-- Every event of a run was a call in the state that its front leads to. -/
theorem Played.split {binding : OciDistributionBinding} {repository : String} {front rest : List HostEvent}
    {event : HostEvent} (h : Played sha256Fingerprint binding repository history host)
    (heq : history = front ++ event :: rest) :
    ∃ before, Played sha256Fingerprint binding repository front before ∧ before.Accepts event.call ∧
      event.passed = before.passes sha256Fingerprint event.call := by
  induction h generalizing rest with
  | create => simp at heq
  | call history host call hplayed haccepts ih =>
    rcases List.eq_nil_or_concat rest with hnil | ⟨init, other, hconcat⟩
    · rw [hnil] at heq
      obtain ⟨hhistory, hlast⟩ := List.append_inj' heq rfl
      rw [← (List.cons.inj hlast).1, ← hhistory]
      exact ⟨host, hplayed, haccepts, rfl⟩
    · rw [hconcat, List.concat_eq_append, ← List.cons_append, ← List.append_assoc] at heq
      exact ih (List.append_inj' heq rfl).1

section Executions

variable (P : Platform) (sha256Fingerprint : JsonObject → String) (binding : OciDistributionBinding)
  (repository : String) (history : List HostEvent)

/-- Every execution of the run that reached the adapter found the runtime verified, and every other raised. -/
def ExecutesVerified : Prop :=
  ∀ (front rest : List HostEvent) (k : Nat) (request : Option Operation) (passed : Bool) (host : Host)
    (session : RuntimeSession), history = front ++ ⟨.execute k request, passed⟩ :: rest →
    Played sha256Fingerprint binding repository front host → host.sessions[k]? = some session →
    if passed then IsVerified front else ∃ error, session.execute P host.runtime request = throw error

/-- No session that is still open is asked to execute on an open runtime after a disturbance. -/
def Undisturbed : Prop :=
  ∀ (front rest : List HostEvent) (k : Nat) (operation : Operation) (passed : Bool),
    history = front ++ ⟨.execute k (some operation), passed⟩ :: rest → IsOpen front →
    (¬∃ event ∈ front, event.ends k) → ¬Disturbed front k

end Executions

theorem executes_verified {P : Platform} {binding : OciDistributionBinding} {repository : String}
    (h : Played sha256Fingerprint binding repository history host) :
    ExecutesVerified P sha256Fingerprint binding repository history ↔ Undisturbed history := by
  constructor
  · intro hverified front rest k operation passed heq hopen hended hdisturbed
    obtain ⟨before, hplayed, haccepts, hpassed⟩ := h.split heq
    have htraced := hplayed.traced
    have hk : k < before.sessions.length := haccepts
    have hsession : before.sessions[k]? = some before.sessions[k] := List.getElem?_eq_getElem hk
    have hpasses : passed = true := by
      apply hpassed.trans
      apply (passes_execute_iff hsession).mpr
      refine ⟨?_, htraced.opened.mpr hopen, rfl⟩
      by_contra hclosed
      rw [Bool.not_eq_false] at hclosed
      exact hended ((htraced.closed k _ hsession).mp hclosed)
    have hresult := hverified front rest k _ passed before _ heq hplayed hsession
    rw [if_pos hpasses] at hresult
    have hflag := htraced.verified.mpr hresult.2
    rw [(htraced.disturbed k hk).mp hdisturbed] at hflag
    cases hflag
  · intro hundisturbed front rest k request passed before session heq hplayed hsession
    obtain ⟨other, hother, -, hpassed⟩ := h.split heq
    rw [hother.unique hplayed] at hpassed
    have htraced := hplayed.traced
    have hk : k < before.sessions.length := (List.getElem?_eq_some_iff.mp hsession).1
    by_cases hpasses : passed = true
    · rw [if_pos hpasses]
      obtain ⟨hclosed, hopened, hrequest⟩ := (passes_execute_iff hsession).mp (hpassed.symm.trans hpasses)
      obtain ⟨operation, rfl⟩ := Option.isSome_iff_exists.mp hrequest
      have hopen := htraced.opened.mp hopened
      have hended : ¬∃ event ∈ front, event.ends k := by
        intro hends
        rw [(htraced.closed k session hsession).mpr hends] at hclosed
        cases hclosed
      have hstill := hundisturbed front rest k operation passed heq hopen hended
      rw [htraced.disturbed k hk, Bool.not_eq_false] at hstill
      exact ⟨hopen, htraced.verified.mp hstill⟩
    · rw [if_neg hpasses]
      rw [Bool.not_eq_true] at hpasses
      rcases passes_execute P request hsession with ⟨hthrough, -⟩ | ⟨-, hraises⟩
      · rw [← hpassed, hpasses] at hthrough
        cases hthrough
      · exact hraises

/-- Without a disturbance of the runtime there is none of a session. -/
theorem Disturbed.exists_disturbs {k : Nat} (h : Disturbed history k) : ∃ event ∈ history, event.disturbs := by
  obtain ⟨front, event, rest, heq, -, -, before, disturbance, after, hrest, hdisturbs, -⟩ := h
  exact ⟨disturbance, by simp [heq, hrest], hdisturbs⟩

namespace Sample

open Model.Sample

/-- The physical resource of the sample binding. -/
def resource : PhysicalResource := ⟨(binding 0).resourceRef, "r", "s", "p"⟩

def startup : Except Err (OciDistributionAdapter × Except Err ProbeReport) :=
  .ok (adapter 0, .ok ⟨true, ⟨"c", "e", "v"⟩, "registry/2.0"⟩)

/-- Opened, verified, and a session on it. -/
def verifiedRun : List HostEvent :=
  [⟨.open startup, true⟩, ⟨.verifyPhysical [resource] (.ok ()), true⟩, ⟨.openSession false, true⟩]

/-- Verified once more, without success. -/
def failedRun : List HostEvent := verifiedRun ++ [⟨.verifyPhysical [resource] (.error { kind := .objectUnavailable }), false⟩]

def execution : HostEvent := ⟨.execute 0 (some (once "a" "x").operation), true⟩

def hostOf (verified : Bool) : Host :=
  ⟨⟨binding 0, "r", some (adapter 0), some ⟨⟨"c", "e", "v"⟩, "registry/2.0"⟩, verified⟩, [⟨false⟩]⟩

theorem played_verified : Played (fun _ => "") (binding 0) "r" verifiedRun (hostOf true) :=
  .call _ _ (.openSession false) (.call _ _ (.verifyPhysical [resource] (.ok ()))
    (.call _ _ (.open startup) .create trivial) trivial) trivial

theorem played_failed : Played (fun _ => "") (binding 0) "r" failedRun (hostOf false) :=
  .call _ _ (.verifyPhysical [resource] (.error { kind := .objectUnavailable })) played_verified trivial

/-- After a verification that fails the session still executes. -/
theorem executes_unverified : ∃ history host, Played (fun _ => "") (binding 0) "r" history host ∧
    ¬ExecutesVerified platform (fun _ => "") (binding 0) "r" history := by
  have hplayed := Played.call _ _ execution.call played_failed Nat.one_pos
  refine ⟨failedRun ++ [execution], _, hplayed, ?_⟩
  intro hverified
  have hresult := hverified failedRun [] 0 _ true (hostOf false) ⟨false⟩ rfl played_failed rfl
  have hflag := played_failed.traced.verified.mpr hresult.2
  cases hflag

/-- An execution right after the verification. -/
theorem executes_verified_once :
    ExecutesVerified platform (fun _ => "") (binding 0) "r" (verifiedRun ++ [execution]) := by
  apply (executes_verified (Played.call _ _ execution.call played_verified Nat.one_pos)).mpr
  intro front rest k operation passed (heq : verifiedRun ++ [execution] = _) _ _ hdisturbed
  obtain ⟨event, hmem, hdisturbs⟩ := hdisturbed.exists_disturbs
  have hevent : event ∈ verifiedRun ++ [execution] := by
    rw [heq]
    exact List.mem_append_left _ hmem
  simp only [verifiedRun, execution, List.cons_append, List.nil_append, List.mem_cons, List.not_mem_nil, or_false] at hevent
  rcases hevent with rfl | rfl | rfl | rfl <;> cases hdisturbs

end Sample

end MeridianOci.Service
