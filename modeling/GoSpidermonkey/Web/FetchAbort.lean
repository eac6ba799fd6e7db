import GoSpidermonkey.Lib.Machine

/-!
# Aborting a fetch

`fetch(input, { signal })` from its call to the settlement of its promise, with the signal aborted
at any moment. The wrapper looks at `signal.aborted` once, before it prepares the body; it listens
to the signal from the call of the host on, and looks at it again only in the reaction to a
rejection. The host runs the request off the loop and settles its promise in a task that it posts.
-/

open Machine

namespace GoSpidermonkey.Web

/-- The values a promise is rejected with, and the reasons of a signal. -/
inductive Thrown where
  | null
  | value (n : ℕ)
  /-- The error that `fetch` makes for its arguments. -/
  | typeError
  /-- The `DOMException` that `fetch` makes. -/
  | abortError
  deriving DecidableEq

namespace Thrown

/-- The reason of a signal is a value of the guest, and not undefined: `abort` replaces that. -/
def isReason : Thrown → Bool
  | .null | .value _ => true
  | .typeError | .abortError => false

/-- `signal.reason ?? new DOMException(…)`. -/
def orAbortError : Thrown → Thrown
  | .null => .abortError
  | .value n => .value n
  | .typeError => .typeError
  | .abortError => .abortError

end Thrown

inductive FetchBody where
  | none
  | buffered
  | stream
  deriving DecidableEq

structure FetchRequest where
  body : FetchBody
  /-- The arguments are refused, for credentials in the URL or malformed headers. -/
  invalid : Bool := false

inductive HostResult where
  | response
  | error (e : Thrown)
  deriving DecidableEq

/-- How the promise of `fetch` is settled. -/
inductive FetchOutcome where
  | fulfilled
  | rejected (e : Thrown)
  deriving DecidableEq

inductive FetchPhase where
  /-- Before the check of `signal.aborted`. -/
  | calling
  | preparing
  | draining
  /-- In `client.Do`. -/
  | inFlight
  /-- In `client.Do`, which has a response and uses it even if its context is cancelled now. -/
  | answered
  /-- `client.Do` has returned, the task that settles the promise of the host is posted. -/
  | posted (r : HostResult)
  | reacting (r : HostResult)
  /-- The promise of `fetch` is to be settled like the one it was resolved with. -/
  | adopting (o : FetchOutcome)
  | settled (o : FetchOutcome)
  | abandoned
  deriving DecidableEq

structure AbortRun where
  req : FetchRequest
  phase : FetchPhase := .calling
  signal : Option Thrown := none
  listening : Bool := false
  /-- `aborts` has the cancel function of the request. -/
  registered : Bool := false
  cancelled : Bool := false

inductive AbortInput where
  | check
  | throws (e : Thrown)
  | drain
  | drainFails (e : Thrown)
  | dispatch
  | deny (e : Thrown)
  /-- The response to the request of `client.Do` is there, or that to the next one. -/
  | arrive
  | redirect
  /-- `client.Do` returns. -/
  | answer (r : HostResult)
  | post
  | postFails (e : Thrown)
  | abandon
  | react
  | adopt
  /-- An abort, in which the listener of `fetch` is called or not: an `onabort` that throws, or a
  listener before it that throws or stops the event, keeps it from being called. -/
  | abort (r : Thrown) (heard : Bool)

def AbortInput.isAbort : AbortInput → Bool
  | .abort .. => true
  | _ => false

namespace AbortRun

def ready (s : AbortRun) : Bool :=
  match s.phase with
  | .preparing => s.req.body ≠ .stream
  | .draining => true
  | _ => false

/-- The reaction in `dispatch`. -/
def reaction (s : AbortRun) : HostResult → FetchOutcome
  | .response => .fulfilled
  | .error e =>
    match s.signal with
    | none => .rejected e
    | some r => .rejected r.orAbortError

def step (s : AbortRun) : AbortInput → Option AbortRun
  | .check =>
    if s.phase = .calling then
      if s.req.invalid then some { s with phase := .settled (.rejected .typeError) }
      else
        match s.signal with
        | some r => some { s with phase := .settled (.rejected r.orAbortError) }
        | none => some { s with phase := .preparing }
    else none
  | .throws e =>
    if s.phase = .preparing ∨ s.phase = .draining then
      some { s with phase := .settled (.rejected e) }
    else none
  | .drain =>
    if s.phase = .preparing ∧ s.req.body = .stream then some { s with phase := .draining } else none
  | .drainFails e =>
    if s.phase = .draining then some { s with phase := .adopting (.rejected e) } else none
  | .dispatch =>
    if s.ready then some { s with phase := .inFlight, listening := true, registered := true }
    else none
  | .deny e =>
    if s.ready then some { s with phase := .reacting (.error e), listening := true } else none
  | .arrive =>
    -- a request that is cancelled before fails
    if s.phase = .inFlight ∧ s.cancelled = false then some { s with phase := .answered } else none
  | .redirect => if s.phase = .answered then some { s with phase := .inFlight } else none
  | .answer r =>
    if s.phase = .answered ∨ s.phase = .inFlight ∧ r ≠ .response then
      some { s with phase := .posted r }
    else none
  | .post =>
    match s.phase with
    | .posted r => some { s with phase := .reacting r, registered := false }
    | _ => none
  | .postFails e =>
    if s.phase = .posted .response then
      some { s with phase := .reacting (.error e), registered := false }
    else none
  | .abandon =>
    match s.phase with
    | .posted _ => some { s with phase := .abandoned }
    | _ => none
  | .react =>
    match s.phase with
    | .reacting r =>
      some { s with
        -- with a stream `fetch` returns another promise, which is resolved with this one
        phase := if s.req.body = .stream then .adopting (s.reaction r) else .settled (s.reaction r)
        listening := false }
    | _ => none
  | .adopt =>
    match s.phase with
    | .adopting o => some { s with phase := .settled o }
    | _ => none
  | .abort r heard =>
    match s.phase with
    | .settled _ => none
    | _ =>
      if s.signal = none ∧ r.isReason = true then
        some { s with
          signal := some r
          cancelled := s.cancelled || (heard && s.listening && s.registered)
          registered := s.registered && !(heard && s.listening) }
      else none

/-- If the signal was aborted, the promise is settled by rejecting it with the reason. -/
def Honoured (s : AbortRun) : Prop :=
  ∀ o r, s.phase = .settled o → s.signal = some r → o = .rejected r

/-- The moments at which an abort with the reason `r` cannot be missed. -/
def Safe (s : AbortRun) (r : Thrown) (heard : Bool) : Prop :=
  match s.phase with
  | .calling => r ≠ .null ∧ s.req.invalid = false
  | .inFlight => r ≠ .null ∧ heard = true
  | .posted (.error _) | .reacting (.error _) => r ≠ .null
  | .adopting o | .settled o => o = .rejected r
  | .abandoned => True
  | .preparing | .draining | .answered | .posted .response | .reacting .response => False

/-- The signal is aborted at such a moment. -/
def Timely (s : AbortRun) (i : AbortInput) : Prop :=
  ∀ r heard, i = .abort r heard → s.Safe r heard

variable {s s' : AbortRun}

/-! ### What a step does -/

inductive Moves (s : AbortRun) : AbortInput → AbortRun → Prop
  | refused (hphase : s.phase = .calling) (hinvalid : s.req.invalid = true) :
    Moves s .check { s with phase := .settled (.rejected .typeError) }
  | late (r : Thrown) (hphase : s.phase = .calling) (hinvalid : s.req.invalid = false)
      (hsignal : s.signal = some r) :
    Moves s .check { s with phase := .settled (.rejected r.orAbortError) }
  | proceed (hphase : s.phase = .calling) (hsignal : s.signal = none) :
    Moves s .check { s with phase := .preparing }
  | throws (e : Thrown) (hphase : s.phase = .preparing ∨ s.phase = .draining) :
    Moves s (.throws e) { s with phase := .settled (.rejected e) }
  | drain (hphase : s.phase = .preparing) : Moves s .drain { s with phase := .draining }
  | drainFails (e : Thrown) (hphase : s.phase = .draining) :
    Moves s (.drainFails e) { s with phase := .adopting (.rejected e) }
  | dispatch (hphase : s.phase = .preparing ∨ s.phase = .draining) :
    Moves s .dispatch { s with phase := .inFlight, listening := true, registered := true }
  | deny (e : Thrown) (hphase : s.phase = .preparing ∨ s.phase = .draining) :
    Moves s (.deny e) { s with phase := .reacting (.error e), listening := true }
  | arrive (hphase : s.phase = .inFlight) (hcancelled : s.cancelled = false) :
    Moves s .arrive { s with phase := .answered }
  | redirect (hphase : s.phase = .answered) : Moves s .redirect { s with phase := .inFlight }
  | answer (r : HostResult) (hphase : s.phase = .answered ∨ s.phase = .inFlight ∧ r ≠ .response) :
    Moves s (.answer r) { s with phase := .posted r }
  | post (r : HostResult) (hphase : s.phase = .posted r) :
    Moves s .post { s with phase := .reacting r, registered := false }
  | postFails (e : Thrown) (hphase : s.phase = .posted .response) :
    Moves s (.postFails e) { s with phase := .reacting (.error e), registered := false }
  | abandon : Moves s .abandon { s with phase := .abandoned }
  | react (r : HostResult) (hphase : s.phase = .reacting r) :
    Moves s .react { s with
      phase := if s.req.body = .stream then .adopting (s.reaction r) else .settled (s.reaction r)
      listening := false }
  | adopt (o : FetchOutcome) (hphase : s.phase = .adopting o) :
    Moves s .adopt { s with phase := .settled o }
  | abort (r : Thrown) (heard : Bool) (hsignal : s.signal = none) (hreason : r.isReason = true) :
    Moves s (.abort r heard) { s with
      signal := some r
      cancelled := s.cancelled || (heard && s.listening && s.registered)
      registered := s.registered && !(heard && s.listening) }

lemma ready_iff : s.ready = true ↔
    s.phase = .preparing ∧ s.req.body ≠ .stream ∨ s.phase = .draining := by
  cases h : s.phase <;> simp [ready, h]

lemma phase_of_ready (h : s.ready = true) : s.phase = .preparing ∨ s.phase = .draining :=
  (ready_iff.mp h).imp And.left id

variable {i : AbortInput} {r : Thrown}

lemma moves_of_step (hs : s.step i = some s') : Moves s i s' := by
  cases i with
  | check =>
    simp only [step] at hs
    split_ifs at hs with hphase hinvalid
    · cases hs
      exact .refused hphase hinvalid
    · split at hs
      · cases hs
        exact .late _ hphase (by simpa using hinvalid) ‹_›
      · cases hs
        exact .proceed hphase ‹_›
  | throws e =>
    obtain ⟨hphase, rfl⟩ := of_guard hs
    exact .throws e hphase
  | drain =>
    obtain ⟨hphase, rfl⟩ := of_guard hs
    exact .drain hphase.1
  | drainFails e =>
    obtain ⟨hphase, rfl⟩ := of_guard hs
    exact .drainFails e hphase
  | dispatch =>
    obtain ⟨hready, rfl⟩ := of_guard hs
    exact .dispatch (phase_of_ready hready)
  | deny e =>
    obtain ⟨hready, rfl⟩ := of_guard hs
    exact .deny e (phase_of_ready hready)
  | arrive =>
    obtain ⟨hphase, rfl⟩ := of_guard hs
    exact .arrive hphase.1 hphase.2
  | redirect =>
    obtain ⟨hphase, rfl⟩ := of_guard hs
    exact .redirect hphase
  | answer r =>
    obtain ⟨hphase, rfl⟩ := of_guard hs
    exact .answer r hphase
  | post =>
    simp only [step] at hs
    split at hs
    · cases hs
      exact .post _ ‹_›
    · cases hs
  | postFails e =>
    obtain ⟨hphase, rfl⟩ := of_guard hs
    exact .postFails e hphase
  | abandon =>
    simp only [step] at hs
    split at hs
    · cases hs
      exact .abandon
    · cases hs
  | react =>
    simp only [step] at hs
    split at hs
    · cases hs
      exact .react _ ‹_›
    · cases hs
  | adopt =>
    simp only [step] at hs
    split at hs
    · cases hs
      exact .adopt _ ‹_›
    · cases hs
  | abort r heard =>
    simp only [step] at hs
    split at hs
    · cases hs
    · split_ifs at hs with h
      cases hs
      exact .abort r heard h.1 h.2

/-! ### A safe abort is honoured -/

/-- The listener is there while the request is in flight, and not before the host is called. -/
structure Wired (s : AbortRun) : Prop where
  early : s.phase = .calling ∨ s.phase = .preparing ∨ s.phase = .draining →
    s.listening = false ∧ s.cancelled = false
  inFlight : s.phase = .inFlight ∨ s.phase = .answered → s.signal = none →
    s.listening = true ∧ s.registered = true
  quiet : s.signal = none → s.cancelled = false

lemma Wired.moves (h : s.Wired) (hm : Moves s i s') : s'.Wired := by
  cases hm with
  | refused | late | throws | drainFails | deny | answer | post | postFails | abandon | adopt =>
    exact ⟨by simp, by simp, h.quiet⟩
  | proceed hphase => exact ⟨fun _ => h.early (.inl hphase), by simp, h.quiet⟩
  | drain hphase => exact ⟨fun _ => h.early (.inr (.inl hphase)), by simp, h.quiet⟩
  | dispatch => exact ⟨by simp, fun _ _ => ⟨rfl, rfl⟩, h.quiet⟩
  | arrive hphase => exact ⟨by simp, fun _ => h.inFlight (.inl hphase), h.quiet⟩
  | redirect hphase => exact ⟨by simp, fun _ => h.inFlight (.inr hphase), h.quiet⟩
  | react r =>
    refine ⟨?_, ?_, h.quiet⟩
    all_goals split_ifs <;> simp
  | abort r =>
    refine ⟨fun hphase => ?_, by simp, by simp⟩
    obtain ⟨hlistening, hcancelled⟩ := h.early hphase
    simp [hlistening, hcancelled]

/-- The signal is not aborted, or was at a safe moment; in flight the request was cancelled. -/
structure Kept (s : AbortRun) : Prop where
  wired : s.Wired
  safe : ∀ r, s.signal = some r → s.Safe r s.cancelled

lemma orAbortError_of_ne (hr : r ≠ .null) : r.orAbortError = r := by
  cases r <;> simp_all [Thrown.orAbortError]

lemma reaction_error (hsignal : s.signal = some r) (e : Thrown) :
    s.reaction (.error e) = .rejected r.orAbortError := by
  simp only [reaction, hsignal]

/-- An abort is safe exactly if the state after it is. -/
lemma abort_eq {heard : Bool} (h : s.Wired) (hs : s.step (.abort r heard) = some s') :
    s'.signal = some r ∧ r.isReason = true ∧ (s'.Safe r s'.cancelled ↔ s.Safe r heard) := by
  cases moves_of_step hs with
  | abort _ _ hsignal hreason =>
    refine ⟨rfl, hreason, ?_⟩
    cases hphase : s.phase with
    | inFlight =>
      obtain ⟨hlistening, hregistered⟩ := h.inFlight (.inl hphase) hsignal
      simp [Safe, hphase, h.quiet hsignal, hlistening, hregistered]
    | posted q | reacting q => cases q <;> simp [Safe, hphase]
    | _ => simp [Safe, hphase]

lemma Kept.step (h : s.Kept) (htimely : s.Timely i) (hs : s.step i = some s') :
    s'.Kept := by
  have hm := moves_of_step hs
  refine ⟨h.wired.moves hm, fun r hr => ?_⟩
  cases hm with
  | abort q heard =>
    obtain rfl : q = r := Option.some.inj hr
    exact (abort_eq h.wired hs).2.2.mpr (htimely q heard rfl)
  | proceed hphase hsignal => simp [hsignal] at hr
  | late q hphase hinvalid hsignal =>
    have hsafe := h.safe r hr
    simp only [Safe, hphase] at hsafe
    obtain rfl : q = r := Option.some.inj (hsignal.symm.trans hr)
    simp [Safe, orAbortError_of_ne hsafe.1]
  | throws e hphase | dispatch hphase | deny e hphase =>
    have hsafe := h.safe r hr
    rcases hphase with hphase | hphase
    all_goals simp [Safe, hphase] at hsafe
  | refused hphase hinvalid =>
    have hsafe := h.safe r hr
    simp [Safe, hphase, hinvalid] at hsafe
  | drain hphase | drainFails e hphase | redirect hphase | postFails e hphase =>
    have hsafe := h.safe r hr
    simp [Safe, hphase] at hsafe
  | arrive hphase hcancelled =>
    have hsafe := h.safe r hr
    simp [Safe, hphase, hcancelled] at hsafe
  | answer q hphase =>
    have hsafe := h.safe r hr
    rcases hphase with hphase | ⟨hphase, hq⟩
    · simp [Safe, hphase] at hsafe
    · simp only [Safe, hphase] at hsafe
      cases q with
      | response => exact absurd rfl hq
      | error e => exact hsafe.1
  | post q hphase =>
    have hsafe := h.safe r hr
    cases q with
    | response => simp [Safe, hphase] at hsafe
    | error e => simpa [Safe, hphase] using hsafe
  | abandon => simp [Safe]
  | react q hphase =>
    have hsafe := h.safe r hr
    cases q with
    | response => simp [Safe, hphase] at hsafe
    | error e =>
      have hne : r ≠ .null := by simpa [Safe, hphase] using hsafe
      have houtcome := (reaction_error (s := s) hr e).trans (by rw [orAbortError_of_ne hne])
      by_cases hbody : s.req.body = .stream
      · simpa [Safe, hbody] using houtcome
      · simpa [Safe, hbody] using houtcome
  | adopt o hphase =>
    have hsafe := h.safe r hr
    simpa [Safe, hphase] using hsafe

/-! ### Any other abort can be missed -/

/-- Without another abort the promise can be settled in spite of this one. -/
def Broken (s : AbortRun) : Prop :=
  ∃ ks, (∀ k ∈ ks, AbortInput.isAbort k = false) ∧
    ∃ t, run AbortRun.step s ks = some t ∧ ¬ t.Honoured

lemma Broken.cons {k : AbortInput} (hk : k.isAbort = false) (hs : s.step k = some s')
    (h : s'.Broken) : s.Broken := by
  obtain ⟨ks, hks, t, ht, hne⟩ := h
  refine ⟨k :: ks, by simpa [hk] using hks, t, ?_, hne⟩
  rw [run_cons, hs]
  exact ht

variable (hsignal : s.signal = some r)
include hsignal

end AbortRun

end GoSpidermonkey.Web
