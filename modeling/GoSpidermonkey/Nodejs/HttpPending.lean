import GoSpidermonkey.Go.Bytes
import GoSpidermonkey.Lib.Log
import GoSpidermonkey.Lib.Machine

/-!
# The response actor of an HTTP request

`httpPending`: the loop hands response commands over with `enqueue`, and `serve` carries them out on
the goroutine of the request, which alone touches the `ResponseWriter`. A completion callback is
posted to the loop by whoever is done with the write: `serve`, a `shutdown` that finds the command
in the queue, or the operation itself where the command is refused.

`shutdown` is called by `serve`. Here another goroutine may call it at any time too, which covers a
server that is closed while it serves.
-/

open Machine Log

namespace GoSpidermonkey.Nodejs

open List

inductive HttpCmd where
  | cmdHead (status : ℕ) (headers : List (Bytes × Bytes))
  /-- `onWritten` names the callback. -/
  | cmdWrite (data : Bytes) (onWritten : Option ℕ)
  | cmdEnd
  deriving DecidableEq

inductive HttpEvent where
  /-- An `http_write`, and whether its command was accepted. -/
  | write (data : Bytes) (onWritten : Option ℕ) (accepted : Bool)
  | writeHeader (status : ℕ) (headers : List (Bytes × Bytes))
  /-- A call of `Write`. -/
  | wrote (data : Bytes)
  | ended
  | aborted
  | posted (cb : ℕ)

namespace HttpCmd

def data : HttpCmd → Option Bytes
  | .cmdWrite data _ => some data
  | .cmdHead _ _ | .cmdEnd => none

def onWritten : HttpCmd → Option ℕ
  | .cmdWrite _ onWritten => onWritten
  | .cmdHead _ _ | .cmdEnd => none

def implicitHeader (wroteHeader : Bool) : List HttpEvent :=
  if wroteHeader then [] else [.writeHeader 200 []]

/-- What `serve` does for a command. -/
def events (wroteHeader : Bool) : HttpCmd → List HttpEvent
  | .cmdHead status headers => if wroteHeader then [] else [.writeHeader status headers]
  | .cmdWrite data onWritten =>
    implicitHeader wroteHeader ++ (if data = [] then [] else [.wrote data]) ++
      onWritten.toList.map .posted
  | .cmdEnd => implicitHeader wroteHeader ++ [.ended]

def accepted : HttpCmd → List HttpEvent
  | .cmdWrite data onWritten => [.write data onWritten true]
  | .cmdHead _ _ | .cmdEnd => []

end HttpCmd

def dataOf (q : List HttpCmd) : List Bytes := q.filterMap HttpCmd.data

def writtenCallbacks (q : List HttpCmd) : List ℕ := q.filterMap HttpCmd.onWritten

structure HttpPending where
  queue : List HttpCmd := []
  ended : Bool := false
  closed : Bool := false
  wake : Bool := false
  wroteHeader : Bool := false

namespace HttpPending

/-- `enqueue`, up to its signal; `none` where it reports false. -/
def enqueue (p : HttpPending) (c : HttpCmd) : Option HttpPending :=
  if p.closed || p.ended then none
  else some { p with queue := p.queue ++ [c], ended := c = .cmdEnd }

/-- The locked part of `shutdown`. -/
def shutdown (p : HttpPending) : HttpPending := { p with closed := true, queue := [] }

end HttpPending

/-- Where `serve` stands. -/
inductive ServePoint where
  | top
  | batch (q : List HttpCmd)
  /-- At the `select`. -/
  | waiting
  /-- About to call `shutdown`, with a cause if the client went away. -/
  | stopping (cause : Bool)
  | returned
  deriving DecidableEq

/-- The response, its goroutine, the calls of `enqueue`, the callbacks about to be posted and the
log. -/
structure HttpRun where
  p : HttpPending := {}
  actor : ServePoint := .top
  signals : ℕ := 0
  posts : List ℕ := []
  ctxDone : Bool := false
  log : List HttpEvent := []

inductive HttpInput where
  | respond (status : ℕ) (headers : List (Bytes × Bytes))
  | httpWrite (data : Bytes) (onWritten : Option ℕ)
  /-- An `http_write` that finds no request, or whose data cannot be read. -/
  | httpWriteFailed (onWritten : Option ℕ)
  | httpEnd
  | cancel
  /-- A `shutdown` from another goroutine. -/
  | shutdown (cause : Bool)
  /-- A call of `enqueue` puts its token. -/
  | signal
  | post (i : ℕ)
  /-- `serve` goes on. -/
  | run
  /-- Its `select` takes the token. -/
  | wake
  /-- Its `select` finds the context done. -/
  | stop

def HttpInput.internal : HttpInput → Bool
  | .signal | .post _ | .run | .wake | .stop => true
  | .respond _ _ | .httpWrite _ _ | .httpWriteFailed _ | .httpEnd | .cancel | .shutdown _ => false

namespace HttpRun

/-- A command that `enqueue` accepts. -/
def hand (s : HttpRun) (c : HttpCmd) : Option HttpRun :=
  (s.p.enqueue c).map fun p =>
    { s with p := p, signals := s.signals + 1, log := s.log ++ c.accepted }

def refuse (s : HttpRun) (data : Bytes) (onWritten : Option ℕ) : HttpRun :=
  { s with posts := s.posts ++ onWritten.toList, log := s.log ++ [.write data onWritten false] }

/-- `shutdown`: the callbacks left over are posted, and the guest is told of the first cause. -/
def shutdown (s : HttpRun) (cause : Bool) : HttpRun :=
  { s with
    p := s.p.shutdown
    posts := s.posts ++ writtenCallbacks s.p.queue
    log := s.log ++ if cause && !s.p.closed then [.aborted] else [] }

def step (s : HttpRun) : HttpInput → Option HttpRun
  | .respond status headers => some ((s.hand (.cmdHead status headers)).getD s)
  | .httpWrite data onWritten =>
    some ((s.hand (.cmdWrite data onWritten)).getD (s.refuse data onWritten))
  | .httpWriteFailed onWritten => some (s.refuse [] onWritten)
  | .httpEnd => some ((s.hand .cmdEnd).getD s)
  | .cancel => some { s with ctxDone := true }
  | .shutdown cause => some (s.shutdown cause)
  | .signal =>
    if s.signals = 0 then none
    else some { s with p := { s.p with wake := true }, signals := s.signals - 1 }
  | .post i =>
    match s.posts[i]? with
    | none => none
    | some cb => some { s with posts := s.posts.eraseIdx i, log := s.log ++ [.posted cb] }
  | .run =>
    match s.actor with
    | .top => some { s with p := { s.p with queue := [] }, actor := .batch s.p.queue }
    | .batch [] => some { s with actor := .waiting }
    | .batch (c :: q) =>
      some { s with
        p := { s.p with wroteHeader := true }
        -- the loop over the batch is left at an end command
        actor := if c = .cmdEnd then .stopping false else .batch q
        log := s.log ++ c.events s.p.wroteHeader }
    | .stopping cause => some { s.shutdown cause with actor := .returned }
    | .waiting | .returned => none
  | .wake =>
    if s.actor = .waiting ∧ s.p.wake = true then
      some { s with p := { s.p with wake := false }, actor := .top }
    else none
  | .stop =>
    if s.actor = .waiting ∧ s.ctxDone = true then some { s with actor := .stopping true } else none

end HttpRun

/-! ### Reading the log -/

namespace HttpEvent

@[simp] def accepted : HttpEvent → Option Bytes
  | .write data _ true => some data
  | _ => none

@[simp] def callback : HttpEvent → Option ℕ
  | .write _ onWritten _ => onWritten
  | _ => none

@[simp] def postedCallback : HttpEvent → Option ℕ
  | .posted cb => some cb
  | _ => none

@[simp] def written : HttpEvent → Option Bytes
  | .wrote data => some data
  | _ => none

@[simp] def isHeader : HttpEvent → Bool
  | .writeHeader _ _ => true
  | _ => false

end HttpEvent

def acceptedChunks (log : List HttpEvent) : List Bytes := log.filterMap HttpEvent.accepted

def opCallbacks (log : List HttpEvent) : List ℕ := log.filterMap HttpEvent.callback

def postedCallbacks (log : List HttpEvent) : List ℕ := log.filterMap HttpEvent.postedCallback

/-- The bytes passed to `Write`. -/
def responseBody (log : List HttpEvent) : Bytes := (log.filterMap HttpEvent.written).flatten

/-- The number of calls of `WriteHeader`. -/
def headerCalls (log : List HttpEvent) : ℕ := log.countP HttpEvent.isHeader

section reading

variable (l m : List HttpEvent) (e : HttpEvent) (c : HttpCmd) (q r : List HttpCmd)

@[simp] lemma acceptedChunks_append :
    acceptedChunks (l ++ m) = acceptedChunks l ++ acceptedChunks m :=
  filterMap_append

@[simp] lemma acceptedChunks_cons :
    acceptedChunks (e :: l) = e.accepted.toList ++ acceptedChunks l :=
  filterMap_cons_toList _ e l

@[simp] lemma opCallbacks_append : opCallbacks (l ++ m) = opCallbacks l ++ opCallbacks m :=
  filterMap_append

@[simp] lemma opCallbacks_cons : opCallbacks (e :: l) = e.callback.toList ++ opCallbacks l :=
  filterMap_cons_toList _ e l

@[simp] lemma postedCallbacks_append :
    postedCallbacks (l ++ m) = postedCallbacks l ++ postedCallbacks m :=
  filterMap_append

@[simp] lemma postedCallbacks_cons :
    postedCallbacks (e :: l) = e.postedCallback.toList ++ postedCallbacks l :=
  filterMap_cons_toList _ e l

@[simp] lemma responseBody_append : responseBody (l ++ m) = responseBody l ++ responseBody m := by
  simp [responseBody]

@[simp] lemma responseBody_cons :
    responseBody (e :: l) = e.written.toList.flatten ++ responseBody l := by
  simp [responseBody, filterMap_cons_toList]

@[simp] lemma headerCalls_append : headerCalls (l ++ m) = headerCalls l + headerCalls m :=
  countP_append

@[simp] lemma headerCalls_cons : headerCalls (e :: l) = headerCalls l + e.isHeader.toNat := by
  rw [headerCalls, headerCalls, countP_cons]
  cases e.isHeader <;> rfl

@[simp] lemma httpReading_nil : acceptedChunks [] = [] ∧ opCallbacks [] = [] ∧
    postedCallbacks [] = [] ∧ responseBody [] = [] ∧ headerCalls [] = 0 :=
  ⟨rfl, rfl, rfl, rfl, rfl⟩

@[simp] lemma dataOf_append : dataOf (q ++ r) = dataOf q ++ dataOf r := filterMap_append

@[simp] lemma dataOf_cons : dataOf (c :: q) = c.data.toList ++ dataOf q :=
  filterMap_cons_toList _ c q

@[simp] lemma writtenCallbacks_append :
    writtenCallbacks (q ++ r) = writtenCallbacks q ++ writtenCallbacks r :=
  filterMap_append

@[simp] lemma writtenCallbacks_cons :
    writtenCallbacks (c :: q) = c.onWritten.toList ++ writtenCallbacks q :=
  filterMap_cons_toList _ c q

@[simp] lemma commands_nil : dataOf [] = [] ∧ writtenCallbacks [] = [] := ⟨rfl, rfl⟩

end reading

/-! ### One command -/

namespace HttpCmd

variable (c : HttpCmd) (w : Bool)

@[simp] lemma accepted_spec :
    acceptedChunks c.accepted = c.data.toList ∧ opCallbacks c.accepted = c.onWritten.toList ∧
      postedCallbacks c.accepted = [] ∧ responseBody c.accepted = [] ∧
      headerCalls c.accepted = 0 := by
  cases c <;> simp [accepted, data, onWritten]

@[simp] lemma events_spec :
    acceptedChunks (c.events w) = [] ∧ opCallbacks (c.events w) = [] ∧
      postedCallbacks (c.events w) = c.onWritten.toList ∧
      responseBody (c.events w) = c.data.toList.flatten ∧
      headerCalls (c.events w) = (!w).toNat ∧ (.ended ∈ c.events w ↔ c = .cmdEnd) := by
  cases c with
  | cmdHead => cases w <;> simp [events, data, onWritten]
  | cmdEnd => cases w <;> simp [events, implicitHeader, data, onWritten]
  | cmdWrite data onWritten =>
    cases w <;> cases onWritten <;> by_cases h : data = [] <;>
      simp [events, implicitHeader, h, HttpCmd.data, HttpCmd.onWritten]

end HttpCmd

namespace HttpRun

variable {s s' : HttpRun}

/-! ### What a step does -/

inductive Moves (s : HttpRun) : HttpInput → HttpRun → Prop
  | same {i : HttpInput} (hi : i.internal = false) : Moves s i s
  | accept {i : HttpInput} (hi : i.internal = false) (c : HttpCmd) (hclosed : s.p.closed = false)
      (hended : s.p.ended = false) :
    Moves s i { s with
      p := { s.p with queue := s.p.queue ++ [c], ended := c = .cmdEnd }
      signals := s.signals + 1
      log := s.log ++ c.accepted }
  | refuse {i : HttpInput} (hi : i.internal = false) (data : Bytes) (onWritten : Option ℕ) :
    Moves s i (s.refuse data onWritten)
  | cancel : Moves s .cancel { s with ctxDone := true }
  | shutdown (cause : Bool) : Moves s (.shutdown cause) (s.shutdown cause)
  | signal (h : s.signals ≠ 0) :
    Moves s .signal { s with p := { s.p with wake := true }, signals := s.signals - 1 }
  | post (i cb : ℕ) (h : s.posts[i]? = some cb) :
    Moves s (.post i) { s with posts := s.posts.eraseIdx i, log := s.log ++ [.posted cb] }
  | take (hactor : s.actor = .top) :
    Moves s .run { s with p := { s.p with queue := [] }, actor := .batch s.p.queue }
  | wait (hactor : s.actor = .batch []) : Moves s .run { s with actor := .waiting }
  | process (c : HttpCmd) (q : List HttpCmd) (hactor : s.actor = .batch (c :: q))
      (hc : c ≠ .cmdEnd) :
    Moves s .run { s with
      p := { s.p with wroteHeader := true }
      actor := .batch q
      log := s.log ++ c.events s.p.wroteHeader }
  | finish (q : List HttpCmd) (hactor : s.actor = .batch (.cmdEnd :: q)) :
    Moves s .run { s with
      p := { s.p with wroteHeader := true }
      actor := .stopping false
      log := s.log ++ HttpCmd.cmdEnd.events s.p.wroteHeader }
  | leave (cause : Bool) (hactor : s.actor = .stopping cause) :
    Moves s .run { s.shutdown cause with actor := .returned }
  | wake (hactor : s.actor = .waiting) (hwake : s.p.wake = true) :
    Moves s .wake { s with p := { s.p with wake := false }, actor := .top }
  | stop (hactor : s.actor = .waiting) : Moves s .stop { s with actor := .stopping true }

variable {i : HttpInput}

/-- A command is accepted or comes to `t`. -/
lemma moves_of_hand (hi : i.internal = false) (c : HttpCmd) {t : HttpRun}
    (ht : Moves s i t) : Moves s i ((s.hand c).getD t) := by
  unfold hand HttpPending.enqueue
  split_ifs with h
  · exact ht
  · simp only [Bool.or_eq_true, not_or, Bool.not_eq_true] at h
    exact .accept hi c h.1 h.2

lemma moves_of_step (hs : s.step i = some s') : Moves s i s' := by
  cases i with
  | respond status headers | httpEnd =>
    cases hs
    exact moves_of_hand rfl _ (.same rfl)
  | httpWrite data onWritten =>
    cases hs
    exact moves_of_hand rfl _ (.refuse rfl data onWritten)
  | httpWriteFailed onWritten =>
    cases hs
    exact .refuse rfl [] onWritten
  | cancel =>
    cases hs
    exact .cancel
  | shutdown cause =>
    cases hs
    exact .shutdown cause
  | signal =>
    obtain ⟨h, rfl⟩ := of_not_guard hs
    exact .signal h
  | post i =>
    simp only [step] at hs
    split at hs
    · cases hs
    · cases hs
      exact .post i _ ‹_›
  | run =>
    simp only [step] at hs
    split at hs
    · cases hs
      exact .take ‹_›
    · cases hs
      exact .wait ‹_›
    · rename_i c q hactor
      cases hs
      by_cases hc : c = .cmdEnd
      · subst hc
        exact .finish q hactor
      · rw [if_neg hc]
        exact .process c q hactor hc
    · cases hs
      exact .leave _ ‹_›
    · cases hs
    · cases hs
  | wake =>
    obtain ⟨h, rfl⟩ := of_guard hs
    exact .wake h.1 h.2
  | stop =>
    obtain ⟨h, rfl⟩ := of_guard hs
    exact .stop h.1

/-! ### Order of the commands -/

def inBatch : ServePoint → List HttpCmd
  | .batch q => q
  | .top | .waiting | .stopping _ | .returned => []

/-- An end command is the last one, and after a shutdown the queue stays empty. -/
structure Ordered (s : HttpRun) : Prop where
  last : ∀ l r, inBatch s.actor ++ s.p.queue = l ++ .cmdEnd :: r → r = []
  ended : .cmdEnd ∈ inBatch s.actor ++ s.p.queue → s.p.ended = true
  closed : s.p.closed = true → s.p.queue = []
  gone : s.actor = .returned → s.p.closed = true

lemma ordered_init : Ordered {} := by
  refine ⟨fun l r h => ?_, ?_, by simp, by simp⟩
  · simp [inBatch] at h
  · simp [inBatch]

lemma Ordered.shutdown (h : s.Ordered) (cause : Bool) : (s.shutdown cause).Ordered := by
  refine ⟨fun l r heq => ?_, fun hmem => ?_, fun _ => rfl, fun _ => rfl⟩
  · have hheld : inBatch s.actor = l ++ .cmdEnd :: r := by
      simpa [HttpRun.shutdown, HttpPending.shutdown] using heq
    have hlast := h.last l (r ++ s.p.queue) (by simp [hheld])
    exact (append_eq_nil_iff.mp hlast).1
  · refine h.ended (mem_append_left _ ?_)
    simpa [HttpRun.shutdown, HttpPending.shutdown] using hmem

lemma Ordered.alone {q : List HttpCmd} (h : s.Ordered) (hactor : s.actor = .batch (.cmdEnd :: q)) :
    q = [] ∧ s.p.queue = [] :=
  append_eq_nil_iff.mp (h.last [] _ (by simp [inBatch, hactor]))

lemma Ordered.moves (h : s.Ordered) (hm : Moves s i s') : s'.Ordered := by
  cases hm with
  | same | cancel | signal | post | refuse => exact ⟨h.last, h.ended, h.closed, h.gone⟩
  | shutdown cause => exact h.shutdown cause
  | accept hi c hclosed hended =>
    have hno : .cmdEnd ∉ inBatch s.actor ++ s.p.queue := fun hmem => by
      simp [h.ended hmem] at hended
    refine ⟨fun l r heq => ?_, fun hmem => ?_, fun hc => ?_, h.gone⟩
    · -- the only end command can be the new one
      rw [← append_assoc] at heq
      rcases eq_nil_or_concat r with rfl | ⟨r, d, rfl⟩
      · rfl
      · rw [concat_eq_append, ← cons_append, ← append_assoc] at heq
        refine absurd ?_ hno
        rw [(append_inj' heq rfl).1]
        simp
    · rw [← append_assoc, mem_append] at hmem
      exact decide_eq_true (mem_singleton.mp (hmem.resolve_left hno)).symm
    · simp [hclosed] at hc
  | take hactor =>
    refine ⟨fun l r heq => ?_, fun hmem => ?_, fun _ => rfl, by simp⟩
    · exact h.last l r (by simpa [inBatch, hactor] using heq)
    · exact h.ended (by simpa [inBatch, hactor] using hmem)
  | wait hactor | wake hactor | stop hactor =>
    exact ⟨by simpa [inBatch, hactor] using h.last, by simpa [inBatch, hactor] using h.ended,
      h.closed, by simp⟩
  | process c q hactor hc =>
    refine ⟨fun l r heq => ?_, fun hmem => ?_, h.closed, by simp⟩
    · refine h.last (c :: l) r ?_
      simpa [inBatch, hactor] using heq
    · refine h.ended ?_
      simp only [inBatch, hactor, cons_append, mem_cons]
      exact .inr hmem
  | finish q hactor =>
    obtain ⟨-, hqueue⟩ := h.alone hactor
    exact ⟨by simp [inBatch, hqueue], by simp [inBatch, hqueue], h.closed, by simp⟩
  | leave cause hactor =>
    refine ⟨?_, ?_, fun _ => rfl, fun _ => rfl⟩
    · simp [inBatch, HttpRun.shutdown, HttpPending.shutdown]
    · simp [inBatch, HttpRun.shutdown, HttpPending.shutdown]

/-! ### The way of the data -/

/-- The accepted chunks are those processed, those of the batch, and a rest. -/
def Flow (s : HttpRun) : Prop :=
  ∃ gone rest, acceptedChunks s.log = gone ++ dataOf (inBatch s.actor) ++ rest ∧
    responseBody s.log = gone.flatten ∧ (s.p.closed = false → rest = dataOf s.p.queue)

lemma Flow.moves (hord : s.Ordered) (h : s.Flow) (hm : Moves s i s') : s'.Flow := by
  obtain ⟨gone, rest, h1, h2, h3⟩ := h
  cases hm with
  | same | cancel | signal => exact ⟨gone, rest, h1, h2, h3⟩
  | post => exact ⟨gone, rest, by simpa using h1, by simpa using h2, h3⟩
  | refuse => exact ⟨gone, rest, by simpa [refuse] using h1, by simpa [refuse] using h2, h3⟩
  | shutdown cause =>
    refine ⟨gone, rest, ?_, ?_, by simp [HttpRun.shutdown, HttpPending.shutdown]⟩
    · cases cause <;> cases hc : s.p.closed <;> simpa [HttpRun.shutdown, hc] using h1
    · cases cause <;> cases hc : s.p.closed <;> simpa [HttpRun.shutdown, hc] using h2
  | accept hi c hclosed hended =>
    refine ⟨gone, rest ++ c.data.toList, ?_, ?_, fun _ => ?_⟩
    · simp [h1]
    · simpa using h2
    · simp [h3 hclosed]
  | take hactor =>
    simp only [inBatch, hactor, commands_nil, append_nil] at h1
    cases hclosed : s.p.closed with
    | false =>
      refine ⟨gone, [], ?_, h2, fun _ => by simp⟩
      simp [inBatch, h1, h3 hclosed]
    | true =>
      refine ⟨gone, rest, ?_, h2, fun hc => by simp [hclosed] at hc⟩
      simp [inBatch, h1, hord.closed hclosed]
  | wait hactor | wake hactor | stop hactor =>
    exact ⟨gone, rest, by simpa [inBatch, hactor] using h1, h2, h3⟩
  | process c q hactor hc =>
    refine ⟨gone ++ c.data.toList, rest, ?_, ?_, h3⟩
    · simpa [inBatch, hactor] using h1
    · simp [h2]
  | finish q hactor =>
    obtain ⟨rfl, -⟩ := hord.alone hactor
    refine ⟨gone, rest, ?_, ?_, h3⟩
    · simpa [inBatch, hactor, HttpCmd.data] using h1
    · simpa [HttpCmd.data] using h2
  | leave cause hactor =>
    refine ⟨gone, rest, ?_, ?_, by simp [HttpRun.shutdown, HttpPending.shutdown]⟩
    · cases cause <;> cases hc : s.p.closed <;>
        simpa [HttpRun.shutdown, hc, inBatch, hactor] using h1
    · cases cause <;> cases hc : s.p.closed <;> simpa [HttpRun.shutdown, hc] using h2

/-! ### The way of the callbacks -/

/-- Every callback was posted, is about to be posted, or belongs to a command that is held. -/
def Conserved (s : HttpRun) : Prop :=
  (opCallbacks s.log).Perm (postedCallbacks s.log ++
    (s.posts ++ (writtenCallbacks (inBatch s.actor) ++ writtenCallbacks s.p.queue)))

lemma conserved_iff : s.Conserved ↔ ∀ n, (opCallbacks s.log).count n =
    (postedCallbacks s.log).count n + (s.posts.count n +
      ((writtenCallbacks (inBatch s.actor)).count n + (writtenCallbacks s.p.queue).count n)) := by
  simp only [Conserved, perm_iff_count, count_append]

lemma Conserved.moves (hord : s.Ordered) (h : s.Conserved) (hm : Moves s i s') :
    s'.Conserved := by
  rw [conserved_iff] at h ⊢
  intro n
  have h := h n
  cases hm with
  | same | cancel | signal => exact h
  | post i cb hcall =>
    obtain ⟨hi, rfl⟩ := List.getElem?_eq_some_iff.mp hcall
    have hperm := (getElem_cons_eraseIdx_perm hi).count_eq n
    rw [← singleton_append, count_append] at hperm
    simp
    omega
  | refuse =>
    simp [refuse]
    omega
  | accept hi c =>
    simp
    omega
  | shutdown cause =>
    cases cause <;> cases hc : s.p.closed
    all_goals
      simp [HttpRun.shutdown, HttpPending.shutdown, hc]
      omega
  | leave cause hactor =>
    cases cause <;> cases hc : s.p.closed
    all_goals
      simp [HttpRun.shutdown, HttpPending.shutdown, hc, inBatch, hactor] at h ⊢
      omega
  | take hactor | wait hactor | wake hactor | stop hactor | process c q hactor =>
    simp [inBatch, hactor] at h ⊢
    omega
  | finish q hactor =>
    obtain ⟨rfl, -⟩ := hord.alone hactor
    simp [inBatch, hactor, HttpCmd.onWritten] at h ⊢
    omega

/-! ### Header first, nothing after the end -/

/-- A call of `Write` comes after the header and before the end. -/
def Framing (e : HttpEvent) (pre : List HttpEvent) : Prop :=
  (∃ data, e = .wrote data) → 0 < headerCalls pre ∧ .ended ∉ pre

/-- The header is written once, before any data, and an end command is the end. -/
structure Framed (s : HttpRun) : Prop where
  header : headerCalls s.log = s.p.wroteHeader.toNat
  stopped : .ended ∈ s.log → s.actor = .stopping false ∨ s.actor = .returned
  order : AtEach Framing s.log

lemma framing_events (c : HttpCmd) {w : Bool} {log : List HttpEvent} (h : AtEach Framing log)
    (hheader : headerCalls log = w.toNat) (hended : .ended ∉ log) :
    AtEach Framing (log ++ c.events w) := by
  cases c with
  | cmdHead status headers => exact atEach_append h (by cases w <;> simp [HttpCmd.events, Framing])
  | cmdEnd =>
    exact atEach_append h (by cases w <;> simp [HttpCmd.events, HttpCmd.implicitHeader, Framing])
  | cmdWrite data onWritten =>
    have hfirst : AtEach Framing (log ++ HttpCmd.implicitHeader w) :=
      atEach_append h (by cases w <;> simp [HttpCmd.implicitHeader, Framing])
    rw [HttpCmd.events, ← append_assoc, ← append_assoc]
    refine atEach_append ?_ (by simp [Framing])
    split_ifs
    · rwa [append_nil]
    · refine atEach_snoc hfirst fun _ => ⟨?_, ?_⟩
      · cases w <;> simp [HttpCmd.implicitHeader, hheader]
      · cases w <;> simp [HttpCmd.implicitHeader, hended]

lemma Framed.of_eq {es : List HttpEvent} (h : s.Framed) (hlog : s'.log = s.log ++ es)
    (hes : ∀ e ∈ es, e.isHeader = false ∧ e.written = none ∧ e ≠ .ended)
    (hheader : s'.p.wroteHeader = s.p.wroteHeader)
    (hactor : s.actor = .stopping false ∨ s.actor = .returned →
      s'.actor = .stopping false ∨ s'.actor = .returned) : s'.Framed where
  header := by
    have hnone : headerCalls es = 0 :=
      countP_eq_zero.mpr fun e he => ne_true_of_eq_false (hes e he).1
    rw [hlog, headerCalls_append, hnone, hheader, h.header, Nat.add_zero]
  stopped hmem := by
    rw [hlog, mem_append] at hmem
    exact hactor (h.stopped (hmem.resolve_right fun he => (hes _ he).2.2 rfl))
  order := by
    rw [hlog]
    refine atEach_append h.order fun e he pre ⟨data, heq⟩ => ?_
    have hwritten := (hes e he).2.1
    simp [heq] at hwritten

lemma shutdown_log (cause : Bool) : ∃ es, (s.shutdown cause).log = s.log ++ es ∧
    ∀ e ∈ es, e.isHeader = false ∧ e.written = none ∧ e ≠ .ended := by
  refine ⟨_, rfl, ?_⟩
  split_ifs <;> simp

lemma Framed.moves (h : s.Framed) (hm : Moves s i s') : s'.Framed := by
  cases hm with
  | same | cancel | signal => exact h.of_eq (append_nil _).symm (by simp) rfl id
  | post | refuse => exact h.of_eq rfl (by simp) rfl id
  | accept hi c => exact h.of_eq rfl (by cases c <;> simp [HttpCmd.accepted]) rfl id
  | shutdown cause =>
    obtain ⟨es, hlog, hes⟩ := shutdown_log (s := s) cause
    exact h.of_eq hlog hes rfl id
  | leave cause hactor =>
    obtain ⟨es, hlog, hes⟩ := shutdown_log (s := s) cause
    exact h.of_eq hlog hes rfl fun _ => .inr rfl
  | take hactor | wait hactor | wake hactor | stop hactor =>
    exact h.of_eq (append_nil _).symm (by simp) rfl (by simp [hactor])
  | process c q hactor hc =>
    have hended : .ended ∉ s.log := fun hmem => by simpa [hactor] using h.stopped hmem
    refine ⟨?_, ?_, framing_events c h.order h.header hended⟩
    · cases hw : s.p.wroteHeader <;> simp [h.header, hw]
    · simp [hended, hc]
  | finish q hactor =>
    have hended : .ended ∉ s.log := fun hmem => by simpa [hactor] using h.stopped hmem
    refine ⟨?_, fun _ => .inl rfl, framing_events _ h.order h.header hended⟩
    cases hw : s.p.wroteHeader <;> simp [h.header, hw]

/-! ### The goroutines come to rest -/

/-- Commands in the queue have a token, or the call that put them there is about to put one. -/
def Awake (s : HttpRun) : Prop :=
  s.actor ≠ .top → s.p.queue ≠ [] → s.p.wake = true ∨ s.signals ≠ 0

lemma Awake.moves (h : s.Awake) (hm : Moves s i s') : s'.Awake := by
  intro hactor' hqueue
  cases hm with
  | same | cancel | post | refuse => exact h hactor' hqueue
  | accept => exact .inr (Nat.succ_ne_zero _)
  | signal => exact .inl rfl
  | shutdown | take | leave => exact absurd rfl hqueue
  | wait hactor | stop hactor | process c q hactor | finish q hactor =>
    exact h (by simp [hactor]) hqueue
  | wake => exact absurd rfl hactor'

def rank (s : HttpRun) : ℕ :=
  s.posts.length + 2 * s.p.queue.length + (inBatch s.actor).length + 10 * s.signals +
    5 * s.p.wake.toNat +
    match s.actor with
    | .top => 4
    | .batch _ => 3
    | .waiting => 2
    | .stopping _ => 1
    | .returned => 0

lemma writtenCallbacks_length_le (q : List HttpCmd) : (writtenCallbacks q).length ≤ q.length :=
  length_filterMap_le _ q

lemma rank_lt_of_moves (hi : i.internal = true) (hm : Moves s i s') :
    s'.rank < s.rank := by
  cases hm with
  | same hno | accept hno | refuse hno => simp [hi] at hno
  | cancel | shutdown => simp [HttpInput.internal] at hi
  | signal h =>
    simp [rank]
    omega
  | post i cb hcall =>
    obtain ⟨hlt, -⟩ := List.getElem?_eq_some_iff.mp hcall
    simp [rank, length_eraseIdx, hlt]
    omega
  | take hactor | finish q hactor =>
    simp [rank, inBatch, hactor]
    omega
  | wait hactor | stop hactor | process c q hactor => simp [rank, inBatch, hactor]
  | wake hactor hwake => simp [rank, inBatch, hactor, hwake]
  | leave cause hactor =>
    have := writtenCallbacks_length_le s.p.queue
    simp [rank, inBatch, hactor, HttpRun.shutdown, HttpPending.shutdown]
    omega

/-- No goroutine that is under way can go on. -/
def Quiet (s : HttpRun) : Prop := ∀ i, i.internal = true → s.step i = none

def stepInternal (s : HttpRun) (i : HttpInput) : Option HttpRun :=
  if i.internal then s.step i else none

lemma Quiet.nothing_held (hord : s.Ordered) (hawake : s.Awake) (h : s.Quiet) :
    s.posts = [] ∧ inBatch s.actor = [] ∧ s.p.queue = [] := by
  have hposts : s.posts = [] := by
    cases hp : s.posts with
    | nil => rfl
    | cons cb posts => simpa [step, hp] using h (.post 0) rfl
  refine ⟨hposts, ?_⟩
  have hrun := h .run rfl
  cases hactor : s.actor with
  | top | stopping cause => simp [step, hactor] at hrun
  | batch q => cases q <;> simp [step, hactor] at hrun
  | returned => exact ⟨rfl, hord.closed (hord.gone hactor)⟩
  | waiting =>
    refine ⟨rfl, ?_⟩
    by_contra hqueue
    rcases hawake (by simp [hactor]) hqueue with hwake | hsignals
    · simpa [step, hactor, hwake] using h .wake rfl
    · simpa [step, hsignals] using h .signal rfl

/-! ### Every interleaving -/

structure Sound (s : HttpRun) : Prop where
  ordered : s.Ordered
  flow : s.Flow
  conserved : s.Conserved
  framed : s.Framed
  awake : s.Awake

lemma sound_init : Sound {} where
  ordered := ordered_init
  flow := ⟨[], [], rfl, rfl, fun _ => rfl⟩
  conserved := .nil
  framed := ⟨rfl, by simp, atEach_nil _⟩
  awake := by simp [Awake]

lemma Sound.step (h : s.Sound) (hs : s.step i = some s') : s'.Sound :=
  have hm := moves_of_step hs
  ⟨h.ordered.moves hm, h.flow.moves h.ordered hm, h.conserved.moves h.ordered hm,
    h.framed.moves hm, h.awake.moves hm⟩

end HttpRun

/-- The header is written at most once and before any data, the data written is a beginning of the
accepted chunks, and nothing is written after an end command. The goroutines come to rest, and then
each callback was posted once. -/
theorem httpPending_serves {ins : List HttpInput} {s : HttpRun}
    (hrun : run HttpRun.step {} ins = some s) :
    headerCalls s.log ≤ 1 ∧
    AtEach (fun e pre => (∃ data, e = .wrote data) → 0 < headerCalls pre ∧ .ended ∉ pre) s.log ∧
    (∃ chunks, chunks <+: acceptedChunks s.log ∧ responseBody s.log = chunks.flatten) ∧
    (∀ cb, (postedCallbacks s.log).count cb ≤ (opCallbacks s.log).count cb) ∧
    (s.Quiet → (postedCallbacks s.log).Perm (opCallbacks s.log)) ∧
    ¬ ∃ f : ℕ → HttpRun, f 0 = s ∧ ∀ n, ∃ i, (f n).stepInternal i = some (f (n + 1)) := by
  have h : s.Sound := run_invariant_all (fun _ _ _ h hs => h.step hs) HttpRun.sound_init hrun
  refine ⟨?_, h.framed.order, ?_, fun cb => ?_, fun hquiet => ?_, ?_⟩
  · rw [h.framed.header]
    exact Bool.toNat_le _
  · obtain ⟨gone, rest, h1, h2, -⟩ := h.flow
    exact ⟨gone, ⟨_, by rw [h1, append_assoc]⟩, h2⟩
  · rw [HttpRun.conserved_iff.mp h.conserved cb]
    exact Nat.le_add_right _ _
  · obtain ⟨hposts, hbatch, hqueue⟩ := hquiet.nothing_held h.ordered h.awake
    have hall := h.conserved
    simp only [HttpRun.Conserved, hposts, hbatch, hqueue, commands_nil, append_nil] at hall
    exact hall.symm
  · refine no_infinite_run (I := fun _ => True) HttpRun.rank (fun t i t' _ ht => ?_) trivial
    unfold HttpRun.stepInternal at ht
    split_ifs at ht with hi
    exact ⟨trivial, HttpRun.rank_lt_of_moves hi (HttpRun.moves_of_step ht)⟩

/-- A write that is served, one that is left over by the shutdown and one that is refused. -/
def threeWrites : List HttpInput :=
  [.httpWrite [104, 105] (some 1), .run, .run, .run, .httpWrite [33] (some 2), .cancel, .stop, .run,
    .httpWrite [63] (some 3), .signal, .signal, .post 1, .post 0]

theorem httpPending_serves_threeWrites :
    ∃ s, run HttpRun.step {} threeWrites = some s ∧ responseBody s.log = [104, 105] ∧
      headerCalls s.log ≤ 1 ∧ (postedCallbacks s.log).Perm (opCallbacks s.log) := by
  obtain ⟨s, hrun, hbody, hposts, hsignals, hactor⟩ :
      ∃ s, run HttpRun.step {} threeWrites = some s ∧ responseBody s.log = [104, 105] ∧
        s.posts = [] ∧ s.signals = 0 ∧ s.actor = .returned :=
    ⟨_, rfl, rfl, rfl, rfl, rfl⟩
  obtain ⟨hheader, -, -, -, hquiet, -⟩ := httpPending_serves hrun
  refine ⟨s, hrun, hbody, hheader, hquiet fun i hi => ?_⟩
  cases i with
  | signal => simp [HttpRun.step, hsignals]
  | post i => simp [HttpRun.step, hposts]
  | run | wake | stop => simp [HttpRun.step, hactor]
  | _ => simp [HttpInput.internal] at hi

end GoSpidermonkey.Nodejs
