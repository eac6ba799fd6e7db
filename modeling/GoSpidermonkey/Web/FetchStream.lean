import GoSpidermonkey.Lib.Counting
import GoSpidermonkey.Lib.Log
import GoSpidermonkey.Lib.Machine

/-!
# The consumers of a response body

`fetchStream`: a response body is read by the guest stream (`pull`) or as a whole (`readAll`), and
`finish` closes it and cancels the context of the request. Each of them decides under the lock what
it may do and does it without the lock, so the body is protected by the flags alone.

A pull that is delivered hands its call of `finish` on to a thread of its own, as do `cancel` and
`closeOpenStreams`; so the guest may pull again earlier here than it does.
-/

open Machine Log Counting

namespace GoSpidermonkey.Web

open List

inductive Consumer where
  | none
  | stream
  | buffered
  deriving DecidableEq

/-- The flags of a `fetchStream`. -/
structure FetchStream where
  done : Bool := false
  claimed : Consumer := .none
  reading : Bool := false

/-- What `readAll` returns after it has read the body. -/
inductive ReadResult where
  | data
  /-- The body exceeds `maxFetchBody`. -/
  | tooBig
  | error
  deriving DecidableEq

inductive PullPoint where
  | idle
  /-- The body is claimed, `Read` is not called yet. -/
  | claimed
  /-- In `Read`. -/
  | reading
  /-- `Read` has returned; `ended` for an error or the end of the body. -/
  | delivering (ended : Bool)
  deriving DecidableEq

/-- Where a `readAll` that has claimed the body stands. -/
inductive ReaderPoint where
  | claimed
  /-- In `Read`. -/
  | reading
  deriving DecidableEq

inductive FinishPoint where
  | enter
  | closing
  | cancelling
  deriving DecidableEq

/-- A call of `finish`, with what the `readAll` around it returns then. -/
structure FinishCall where
  point : FinishPoint := .enter
  result : Option ReadResult := none

inductive StreamEvent where
  /-- A pull calls `Read`. -/
  | pulled
  /-- A `readAll` fails with `errBodyConsumed`. -/
  | consumed
  /-- A `readAll` that has read the body returns. -/
  | returned (r : ReadResult)
  | finishCalled
  | bodyClosed
  | ctxCancelled
  deriving DecidableEq

structure StreamRun where
  st : FetchStream := {}
  pull : PullPoint := .idle
  readers : List ReaderPoint := []
  finishers : List FinishCall := []
  log : List StreamEvent := []

inductive StreamInput where
  | pull
  /-- The pull calls `Read`. -/
  | pullRead
  /-- `Read` returns to the pull. -/
  | pullReturned (ended : Bool)
  | deliver
  | readAll
  /-- The `i`-th `readAll` calls `Read`. -/
  | read (i : ℕ)
  /-- `Read` returns to it, and it goes on or has its result. -/
  | readReturned (i : ℕ) (r : Option ReadResult)
  /-- `cancel` or `closeOpenStreams`. -/
  | finish
  /-- The `i`-th call of `finish` goes on. -/
  | finishing (i : ℕ)

namespace StreamRun

/-- A call of `finish` begins. -/
def callFinish (s : StreamRun) (result : Option ReadResult) : StreamRun :=
  { s with finishers := s.finishers ++ [{ result := result }], log := s.log ++ [.finishCalled] }

/-- A call of `finish` comes back. -/
def finished (s : StreamRun) (i : ℕ) (result : Option ReadResult) (es : List StreamEvent) :
    StreamRun :=
  { s with
    finishers := s.finishers.eraseIdx i
    log := s.log ++ es ++ result.toList.map .returned }

/-- A call of `finish` reaches its next point. -/
def proceed (s : StreamRun) (i : ℕ) (c : FinishCall) (es : List StreamEvent) : StreamRun :=
  { s with finishers := s.finishers.eraseIdx i ++ [c], log := s.log ++ es }

def step (s : StreamRun) : StreamInput → Option StreamRun
  | .pull =>
    -- the guest stream awaits a pull before the next one
    if s.pull ≠ .idle then none
    else if s.st.done || s.st.claimed = .buffered || s.st.reading then some s
    else some { s with st := { s.st with claimed := .stream }, pull := .claimed }
  | .pullRead =>
    if s.pull = .claimed then some { s with pull := .reading, log := s.log ++ [.pulled] } else none
  | .pullReturned ended =>
    if s.pull = .reading then some { s with pull := .delivering ended } else none
  | .deliver =>
    match s.pull with
    | .delivering false => some { s with pull := .idle }
    | .delivering true => some { s.callFinish none with pull := .idle }
    | _ => none
  | .readAll =>
    if s.st.done || s.st.reading || s.st.claimed = .stream then
      some { s with log := s.log ++ [.consumed] }
    else
      some { s with
        st := { s.st with claimed := .buffered, reading := true }
        readers := s.readers ++ [.claimed] }
  | .read i =>
    if s.readers[i]? = some .claimed then
      some { s with readers := s.readers.eraseIdx i ++ [.reading] }
    else none
  | .readReturned i r =>
    if s.readers[i]? = some .reading then
      match r with
      | none => some { s with readers := s.readers.eraseIdx i ++ [.claimed] }
      | some r => some { s.callFinish (some r) with readers := s.readers.eraseIdx i }
    else none
  | .finish => some (s.callFinish none)
  | .finishing i =>
    match s.finishers[i]? with
    | none => none
    | some ⟨.enter, r⟩ =>
      if s.st.done then some (s.finished i r [])
      else some { s.proceed i ⟨.closing, r⟩ [] with st := { s.st with done := true } }
    | some ⟨.closing, r⟩ => some (s.proceed i ⟨.cancelling, r⟩ [.bodyClosed])
    | some ⟨.cancelling, r⟩ => some (s.finished i r [.ctxCancelled])

/-- The number of calls of `Read` on the body that are in progress. -/
def readsInProgress (s : StreamRun) : ℕ :=
  (if s.pull = .reading then 1 else 0) + s.readers.count .reading

/-! ### What a step does -/

variable {s s' : StreamRun}

inductive Moves (s : StreamRun) : StreamRun → Prop
  | pullRefused : Moves s s
  | pull (hclaimed : s.st.claimed ≠ .buffered) :
    Moves s { s with st := { s.st with claimed := .stream }, pull := .claimed }
  | pullRead (hpull : s.pull = .claimed) :
    Moves s { s with pull := .reading, log := s.log ++ [.pulled] }
  | pullReturned (ended : Bool) (hpull : s.pull = .reading) :
    Moves s { s with pull := .delivering ended }
  | delivered : Moves s { s with pull := .idle }
  | deliveredEnd : Moves s { s.callFinish none with pull := .idle }
  | consumed : Moves s { s with log := s.log ++ [.consumed] }
  | claim (hreading : s.st.reading = false) (hclaimed : s.st.claimed ≠ .stream) :
    Moves s { s with
      st := { s.st with claimed := .buffered, reading := true }
      readers := s.readers ++ [.claimed] }
  | read (i : ℕ) (p q : ReaderPoint) (hreader : s.readers[i]? = some p) :
    Moves s { s with readers := s.readers.eraseIdx i ++ [q] }
  | readDone (i : ℕ) (r : ReadResult) (hreader : s.readers[i]? = some .reading) :
    Moves s { s.callFinish (some r) with readers := s.readers.eraseIdx i }
  | finish : Moves s (s.callFinish none)
  | late (i : ℕ) (r : Option ReadResult) (hcall : s.finishers[i]? = some ⟨.enter, r⟩)
      (hdone : s.st.done = true) : Moves s (s.finished i r [])
  | enter (i : ℕ) (r : Option ReadResult) (hcall : s.finishers[i]? = some ⟨.enter, r⟩)
      (hdone : s.st.done = false) :
    Moves s { s.proceed i ⟨.closing, r⟩ [] with st := { s.st with done := true } }
  | close (i : ℕ) (r : Option ReadResult) (hcall : s.finishers[i]? = some ⟨.closing, r⟩) :
    Moves s (s.proceed i ⟨.cancelling, r⟩ [.bodyClosed])
  | cancel (i : ℕ) (r : Option ReadResult) (hcall : s.finishers[i]? = some ⟨.cancelling, r⟩) :
    Moves s (s.finished i r [.ctxCancelled])

lemma moves_of_step {i : StreamInput} (hs : s.step i = some s') : Moves s s' := by
  cases i with
  | pull =>
    simp only [step] at hs
    split_ifs at hs with hidle hno
    all_goals cases hs
    · exact .pullRefused
    · simp only [Bool.or_eq_true, decide_eq_true_eq, not_or] at hno
      exact .pull hno.1.2
  | pullRead =>
    obtain ⟨hpull, rfl⟩ := of_guard hs
    exact .pullRead hpull
  | pullReturned ended =>
    obtain ⟨hpull, rfl⟩ := of_guard hs
    exact .pullReturned ended hpull
  | deliver =>
    simp only [step] at hs
    split at hs
    · cases hs
      exact .delivered
    · cases hs
      exact .deliveredEnd
    · cases hs
  | readAll =>
    simp only [step] at hs
    split_ifs at hs with hno
    all_goals cases hs
    · exact .consumed
    · simp only [Bool.or_eq_true, decide_eq_true_eq, not_or, Bool.not_eq_true] at hno
      exact .claim hno.1.2 hno.2
  | read i =>
    obtain ⟨hreader, rfl⟩ := of_guard hs
    exact .read i _ _ hreader
  | readReturned i r =>
    simp only [step] at hs
    split_ifs at hs with hreader
    cases r with
    | none =>
      cases hs
      exact .read i _ _ hreader
    | some r =>
      cases hs
      exact .readDone i r hreader
  | finish =>
    cases hs
    exact .finish
  | finishing i =>
    simp only [step] at hs
    split at hs
    · cases hs
    · split_ifs at hs with hdone
      all_goals cases hs
      · exact .late i _ ‹_› hdone
      · exact .enter i _ ‹_› (by simpa using hdone)
    · cases hs
      exact .close i _ ‹_›
    · cases hs
      exact .cancel i _ ‹_›

/-! ### One consumer -/

def isReturned : StreamEvent → Bool
  | .returned _ => true
  | .pulled | .consumed | .finishCalled | .bodyClosed | .ctxCancelled => false

/-- The flags tell who may read. -/
structure Exclusive (s : StreamRun) : Prop where
  stream : s.pull ≠ .idle → s.st.claimed = .stream
  pulled : .pulled ∈ s.log → s.st.claimed = .stream
  buffered : s.st.reading = true → s.st.claimed = .buffered
  one : s.log.countP isReturned + s.readers.length +
    s.finishers.countP (fun c => c.result.isSome) = s.st.reading.toNat

lemma exclusive_init : Exclusive {} := ⟨by simp, by simp, by simp, rfl⟩

lemma countP_isReturned_map (r : Option ReadResult) :
    (r.toList.map StreamEvent.returned).countP isReturned = r.isSome.toNat := by
  cases r <;> rfl

lemma Exclusive.moves (h : s.Exclusive) (hm : Moves s s') : s'.Exclusive := by
  obtain ⟨h1, h2, h3, h4⟩ := h
  cases hm with
  | pullRefused => exact ⟨h1, h2, h3, h4⟩
  | pull hclaimed =>
    refine ⟨fun _ => rfl, fun _ => rfl, fun hr => absurd (h3 hr) hclaimed, h4⟩
  | pullRead hpull =>
    refine ⟨fun _ => h1 (by simp [hpull]), fun _ => h1 (by simp [hpull]), h3, ?_⟩
    simpa [isReturned] using h4
  | pullReturned ended hpull => exact ⟨fun _ => h1 (by simp [hpull]), h2, h3, h4⟩
  | delivered => exact ⟨by simp, h2, h3, h4⟩
  | deliveredEnd =>
    refine ⟨by simp, by simpa [callFinish] using h2, h3, ?_⟩
    simpa [callFinish, isReturned] using h4
  | consumed => exact ⟨h1, by simpa using h2, h3, by simpa [isReturned] using h4⟩
  | claim hreading hclaimed =>
    refine ⟨fun hp => absurd (h1 hp) hclaimed, fun hp => absurd (h2 hp) hclaimed, fun _ => rfl, ?_⟩
    simp only [hreading, Bool.toNat_false] at h4
    simp only [length_append, length_singleton, Bool.toNat_true]
    omega
  | read i p q hreader =>
    obtain ⟨hi, -⟩ := List.getElem?_eq_some_iff.mp hreader
    refine ⟨h1, h2, h3, ?_⟩
    simp only [length_append, length_eraseIdx, hi, if_true, length_singleton]
    omega
  | readDone i r hreader =>
    obtain ⟨hi, -⟩ := List.getElem?_eq_some_iff.mp hreader
    refine ⟨h1, by simpa [callFinish] using h2, h3, ?_⟩
    simp [callFinish, isReturned, length_eraseIdx, hi]
    omega
  | finish =>
    exact ⟨h1, by simpa [callFinish] using h2, h3, by simpa [callFinish, isReturned] using h4⟩
  | late i r hcall =>
    have hcount := countP_eraseIdx (fun c : FinishCall => c.result.isSome) hcall
    refine ⟨h1, by simpa [finished] using h2, h3, ?_⟩
    simp only [finished, append_nil, countP_append, countP_isReturned_map]
    simp only at hcount
    omega
  | enter i r hcall =>
    have hcount := countP_eraseIdx (fun c : FinishCall => c.result.isSome) hcall
    refine ⟨h1, by simpa [proceed] using h2, h3, ?_⟩
    cases r <;> simp_all [proceed]
  | close i r hcall =>
    have hcount := countP_eraseIdx (fun c : FinishCall => c.result.isSome) hcall
    refine ⟨h1, by simpa [proceed] using h2, h3, ?_⟩
    cases r <;> simp_all [proceed, isReturned]
  | cancel i r hcall =>
    have hcount := countP_eraseIdx (fun c : FinishCall => c.result.isSome) hcall
    refine ⟨h1, by simpa [finished] using h2, h3, ?_⟩
    simp only [finished, countP_append, countP_isReturned_map]
    simp [isReturned] at hcount ⊢
    omega

/-! ### The end of the body -/

/-- The number of calls of `finish` at a point. -/
def finishersAt (s : StreamRun) (p : FinishPoint) : ℕ := s.finishers.countP fun c => c.point = p

/-- The call of `finish` that set `done` closes the body and cancels the context. -/
structure Ending (s : StreamRun) : Prop where
  closes : s.log.count .bodyClosed + s.finishersAt .closing = s.st.done.toNat
  cancels : s.log.count .ctxCancelled + s.finishersAt .closing + s.finishersAt .cancelling =
    s.st.done.toNat
  called : .finishCalled ∈ s.log → s.st.done = true ∨ 0 < s.finishersAt .enter

lemma ending_init : Ending {} := ⟨rfl, rfl, by simp⟩

/-- Steps that leave `finish` alone. -/
lemma Ending.of_eq {es : List StreamEvent} (h : s.Ending) (hdone : s'.st.done = s.st.done)
    (hfinishers : s'.finishers = s.finishers) (hlog : s'.log = s.log ++ es)
    (hes : .bodyClosed ∉ es ∧ .ctxCancelled ∉ es ∧ .finishCalled ∉ es) : s'.Ending := by
  have hat : ∀ p, s'.finishersAt p = s.finishersAt p := fun p => by
    rw [finishersAt, hfinishers, finishersAt]
  refine ⟨?_, ?_, fun hmem => ?_⟩
  · rw [hlog, count_append, count_eq_zero.mpr hes.1, hat, hdone]
    exact h.closes
  · rw [hlog, count_append, count_eq_zero.mpr hes.2.1, hat, hat, hdone]
    exact h.cancels
  · rw [hlog, mem_append] at hmem
    rw [hat, hdone]
    exact h.called (hmem.resolve_right hes.2.2)

lemma finishersAt_finished {i : ℕ} {c : FinishCall} (hcall : s.finishers[i]? = some c)
    (r : Option ReadResult) (es : List StreamEvent) (p : FinishPoint) :
    s.finishersAt p = (s.finished i r es).finishersAt p + (decide (c.point = p)).toNat :=
  countP_eraseIdx _ hcall

/-- A call has gone on to `d`. -/
lemma finishersAt_proceed {i : ℕ} {c : FinishCall} (hcall : s.finishers[i]? = some c)
    (d : FinishCall) (es : List StreamEvent) (p : FinishPoint) :
    s.finishersAt p + (decide (d.point = p)).toNat =
      (s.proceed i d es).finishersAt p + (decide (c.point = p)).toNat := by
  have hcount := countP_eraseIdx (fun c : FinishCall => decide (c.point = p)) hcall
  simp only [finishersAt, proceed, countP_append, countP_singleton]
  cases decide (d.point = p) <;> simp at hcount ⊢ <;> omega

lemma Ending.callFinish (h : s.Ending) (r : Option ReadResult) : (s.callFinish r).Ending := by
  obtain ⟨h1, h2, -⟩ := h
  refine ⟨?_, ?_, fun _ => .inr ?_⟩
  · simpa [StreamRun.callFinish, finishersAt] using h1
  · simpa [StreamRun.callFinish, finishersAt] using h2
  · simp [StreamRun.callFinish, finishersAt]

lemma count_map_returned (r : Option ReadResult) {e : StreamEvent} (he : isReturned e = false) :
    (r.toList.map StreamEvent.returned).count e = 0 := by
  refine count_eq_zero.mpr fun hmem => ?_
  obtain ⟨q, -, rfl⟩ := mem_map.mp hmem
  cases he

lemma count_finished (i : ℕ) (r : Option ReadResult) (es : List StreamEvent) {e : StreamEvent}
    (he : isReturned e = false) : (s.finished i r es).log.count e = s.log.count e + es.count e := by
  simp only [finished, count_append, count_map_returned r he, Nat.add_zero]

lemma count_proceed (i : ℕ) (c : FinishCall) (es : List StreamEvent) (e : StreamEvent) :
    (s.proceed i c es).log.count e = s.log.count e + es.count e :=
  count_append

lemma Ending.moves (h : s.Ending) (hm : Moves s s') : s'.Ending := by
  have h1 := h.closes
  have h2 := h.cancels
  cases hm with
  | pullRefused => exact h
  | pull | pullReturned | delivered | claim | read =>
    exact h.of_eq rfl rfl (append_nil _).symm (by simp)
  | pullRead | consumed => exact h.of_eq rfl rfl rfl (by simp)
  | deliveredEnd =>
    exact (h.callFinish none).of_eq rfl rfl (append_nil _).symm (by simp)
  | readDone i r =>
    exact (h.callFinish (some r)).of_eq rfl rfl (append_nil _).symm (by simp)
  | finish => exact h.callFinish none
  | late i r hcall hdone =>
    have hat : ∀ p ≠ .enter, s.finishersAt p = (s.finished i r []).finishersAt p := fun p hp => by
      simpa [hp.symm] using finishersAt_finished hcall r [] p
    refine ⟨?_, ?_, fun _ => .inl hdone⟩
    · rw [count_finished _ _ _ rfl, ← hat .closing (by simp)]
      exact h1
    · rw [count_finished _ _ _ rfl, ← hat .closing (by simp), ← hat .cancelling (by simp)]
      exact h2
  | enter i r hcall hdone =>
    -- the first call takes the closing upon itself
    have hclosing := finishersAt_proceed hcall ⟨.closing, r⟩ [] .closing
    have hcancelling := finishersAt_proceed hcall ⟨.closing, r⟩ [] .cancelling
    simp only [reduceCtorEq, decide_false, decide_true, Bool.toNat_false, Bool.toNat_true]
      at hclosing hcancelling
    simp only [hdone, Bool.toNat_false] at h1 h2
    refine ⟨?_, ?_, fun _ => .inl rfl⟩
    · change (s.proceed i ⟨.closing, r⟩ []).log.count .bodyClosed +
        (s.proceed i ⟨.closing, r⟩ []).finishersAt .closing = 1
      rw [count_proceed, count_nil]
      omega
    · change (s.proceed i ⟨.closing, r⟩ []).log.count .ctxCancelled +
        (s.proceed i ⟨.closing, r⟩ []).finishersAt .closing +
        (s.proceed i ⟨.closing, r⟩ []).finishersAt .cancelling = 1
      rw [count_proceed, count_nil]
      omega
  | close i r hcall =>
    have hat := fun p => finishersAt_proceed hcall ⟨.cancelling, r⟩ [.bodyClosed] p
    have hclosing := hat .closing
    have hcancelling := hat .cancelling
    have henter := hat .enter
    simp only [reduceCtorEq, decide_false, decide_true, Bool.toNat_false, Bool.toNat_true]
      at hclosing hcancelling henter
    refine ⟨?_, ?_, fun hmem => ?_⟩
    · rw [count_proceed, count_singleton_self]
      change _ = s.st.done.toNat
      omega
    · have hno : [StreamEvent.bodyClosed].count .ctxCancelled = 0 := rfl
      rw [count_proceed, hno]
      change _ = s.st.done.toNat
      omega
    · refine (h.called (by simpa [proceed] using hmem)).imp id fun hpos => ?_
      omega
  | cancel i r hcall =>
    have hat := fun p => finishersAt_finished hcall r [.ctxCancelled] p
    have hclosing := hat .closing
    have hcancelling := hat .cancelling
    have henter := hat .enter
    simp only [reduceCtorEq, decide_false, decide_true, Bool.toNat_false, Bool.toNat_true]
      at hclosing hcancelling henter
    refine ⟨?_, ?_, fun hmem => ?_⟩
    · have hno : [StreamEvent.ctxCancelled].count .bodyClosed = 0 := rfl
      rw [count_finished _ _ _ rfl, hno]
      change _ = s.st.done.toNat
      omega
    · rw [count_finished _ _ _ rfl, count_singleton_self]
      change _ = s.st.done.toNat
      omega
    · refine (h.called ?_).imp id fun hpos => by omega
      simpa [finished] using hmem

lemma Ending.step {i : StreamInput} (h : s.Exclusive ∧ s.Ending) (hs : s.step i = some s') :
    s'.Exclusive ∧ s'.Ending :=
  have hm := moves_of_step hs
  ⟨h.1.moves hm, h.2.moves hm⟩

end StreamRun

/-- At most one `Read` is in progress, at most one `readAll` returns data, and none does once a pull
has read. The body is closed and the context cancelled at most once. -/
theorem fetchStream_exclusive {ins : List StreamInput} {s : StreamRun}
    (hrun : run StreamRun.step {} ins = some s) :
    s.readsInProgress ≤ 1 ∧
    s.log.count (.returned .data) ≤ 1 ∧
    (.pulled ∈ s.log → (∀ r, .returned r ∉ s.log) ∧ s.readers = [] ∧
      s.step .readAll = some { s with log := s.log ++ [.consumed] }) ∧
    s.log.count .bodyClosed ≤ 1 ∧ s.log.count .ctxCancelled ≤ 1 ∧
    (.finishCalled ∈ s.log → s.finishers = [] →
      s.log.count .bodyClosed = 1 ∧ s.log.count .ctxCancelled = 1) := by
  obtain ⟨hexcl, hend⟩ : s.Exclusive ∧ s.Ending :=
    run_invariant_all (I := fun s => s.Exclusive ∧ s.Ending)
      (fun _ _ _ h hs => StreamRun.Ending.step h hs)
      ⟨StreamRun.exclusive_init, StreamRun.ending_init⟩ hrun
  have hone := hexcl.one
  have hreading := Bool.toNat_le s.st.reading
  have hdone := Bool.toNat_le s.st.done
  have hcloses := hend.closes
  have hcancels := hend.cancels
  -- while the stream has the body, no `readAll` does
  have hstream : s.st.claimed = .stream → s.st.reading = false := fun hc => by
    by_contra hr
    simp [hexcl.buffered (by simpa using hr)] at hc
  refine ⟨?_, ?_, fun hpulled => ?_, by omega, by omega, fun hcalled hnone => ?_⟩
  · have hcount := count_le_length (a := ReaderPoint.reading) (l := s.readers)
    unfold StreamRun.readsInProgress
    split_ifs with hpull
    · have hno := hstream (hexcl.stream (by simp [hpull]))
      simp only [hno, Bool.toNat_false] at hone
      omega
    · omega
  · have hle : s.log.count (.returned .data) ≤ s.log.countP StreamRun.isReturned :=
      countP_mono_left fun e _ he => by simp_all [StreamRun.isReturned]
    omega
  · have hclaimed := hexcl.pulled hpulled
    simp only [hstream hclaimed, Bool.toNat_false] at hone
    refine ⟨fun r hmem => ?_, length_eq_zero_iff.mp (by omega), ?_⟩
    · have hpos : 0 < s.log.countP StreamRun.isReturned :=
        countP_pos_iff.mpr ⟨_, hmem, rfl⟩
      omega
    · simp [StreamRun.step, hclaimed]
  · simp only [StreamRun.finishersAt, hnone, countP_nil, Nat.add_zero] at hcloses hcancels
    have hset := hend.called hcalled
    simp only [StreamRun.finishersAt, hnone, countP_nil, Nat.lt_irrefl, or_false] at hset
    simp only [hset, Bool.toNat_true] at hcloses hcancels
    exact ⟨hcloses, hcancels⟩

/-- `text()` is called twice and the body is cancelled while it is read. -/
def textTwice : List StreamInput :=
  [.readAll, .read 0, .readAll, .finish, .finishing 0, .finishing 0, .readReturned 0 (some .data),
    .pull, .finishing 0, .finishing 0]

theorem fetchStream_exclusive_textTwice :
    ∃ s, run StreamRun.step {} textTwice = some s ∧ s.log.count .consumed = 1 ∧
      .returned .data ∈ s.log ∧ s.log.count (.returned .data) ≤ 1 ∧
      s.log.count .bodyClosed = 1 ∧ s.log.count .ctxCancelled = 1 := by
  obtain ⟨s, hrun, hconsumed, hdata, hcalled, hnone⟩ :
      ∃ s, run StreamRun.step {} textTwice = some s ∧ s.log.count .consumed = 1 ∧
        .returned .data ∈ s.log ∧ .finishCalled ∈ s.log ∧ s.finishers = [] :=
    ⟨_, rfl, rfl, by decide, by decide, rfl⟩
  obtain ⟨-, hreturned, -, -, -, hfinish⟩ := fetchStream_exclusive hrun
  exact ⟨s, hrun, hconsumed, hdata, hreturned, hfinish hcalled hnone⟩

end GoSpidermonkey.Web
