import GoSpidermonkey.Lib.Log
import GoSpidermonkey.Lib.Machine
import GoSpidermonkey.Nodejs.ConnWriter

/-!
# The write actor and its callers

`connWriter.run` together with any number of calls of `enqueue`, `attach`, `requestHalfClose` and
`requestClose`. A call is cut where it releases the lock: after that it only puts a token into the
wake channel, or calls the callback of a write that was refused. The log keeps what happened, so
that the results can speak of the order of things.
-/

open Machine Log

namespace GoSpidermonkey.Nodejs

open List

/-- What a call still does after it has released the lock. -/
inductive AfterLock where
  /-- The signal at the end of `requestClose`, or of another call. -/
  | signal (close : Bool)
  /-- The callback of a refused `enqueue`. -/
  | refused (onDone : Option ℕ)

@[simp] def AfterLock.callback : AfterLock → Option ℕ
  | .refused onDone => onDone
  | .signal _ => none

inductive WriterEvent where
  /-- A call of `enqueue`, and its answer. -/
  | enqueued (c : ConnWrite) (answer : Bool)
  | attached
  | halfCloseRequested
  | closeRequested
  /-- A call of `conn.Write` has returned. -/
  | wrote (data : Bytes) (ok : Bool)
  | closeWrite
  | close
  | acked (cb : ℕ)
  deriving DecidableEq

/-- The writer, its goroutine, the calls that have not returned, and the log. -/
structure WriterRun where
  w : ConnWriter := {}
  actor : Actor := .top
  calls : List AfterLock := []
  log : List WriterEvent := []

inductive WriterInput where
  | enqueue (c : ConnWrite)
  | attach
  | requestHalfClose
  | requestClose
  | finish (i : ℕ)
  | run
  /-- Its call of `Write` returns. -/
  | wrote (ok : Bool)

def Effect.events (ok : Bool) (e : Effect) : List WriterEvent :=
  (match e.conn with
    | none => []
    | some (.write data) => [.wrote data ok]
    | some .closeWrite => [.closeWrite]
    | some .close => [.close]) ++ e.acks.map .acked

namespace WriterRun

def step (s : WriterRun) : WriterInput → Option WriterRun
  | .enqueue c =>
    -- nothing is enqueued after `requestHalfClose`
    if s.w.halfCloseReq then none
    else if s.w.closeReq then
      some { s with calls := s.calls ++ [.refused c.onDone], log := s.log ++ [.enqueued c false] }
    else
      some { s with
        w := s.w.append c
        calls := s.calls ++ [.signal false]
        log := s.log ++ [.enqueued c true] }
  | .attach =>
    if s.w.conn then none
    else
      some { s with
        w := s.w.attach
        calls := s.calls ++ [.signal false]
        log := s.log ++ [.attached] }
  | .requestHalfClose =>
    some { s with
      w := s.w.requestHalfClose
      calls := s.calls ++ [.signal false]
      log := s.log ++ [.halfCloseRequested] }
  | .requestClose =>
    some { s with
      w := s.w.requestClose
      calls := s.calls ++ [.signal true]
      log := s.log ++ [.closeRequested] }
  | .finish i =>
    match s.calls[i]? with
    | none => none
    | some (.signal _) => some { s with w := s.w.signal, calls := s.calls.eraseIdx i }
    | some (.refused onDone) =>
      some { s with calls := s.calls.eraseIdx i, log := s.log ++ onDone.toList.map .acked }
  | .run => (s.w.run s.actor).map fun (w, actor, e) =>
      { s with w := w, actor := actor, log := s.log ++ e.events true }
  | .wrote ok => (ConnWriter.wrote ok s.actor).map fun (actor, e) =>
      { s with actor := actor, log := s.log ++ e.events ok }

end WriterRun

/-! ### Reading the log -/

namespace WriterEvent

/-- The data of a call of `enqueue` that returned true. -/
@[simp] def accepted : WriterEvent → Option Bytes
  | .enqueued c true => some c.data
  | _ => none

/-- The data passed to `conn.Write`. -/
@[simp] def written : WriterEvent → Option Bytes
  | .wrote data _ => some data
  | _ => none

/-- The callback given to `enqueue`. -/
@[simp] def callback : WriterEvent → Option ℕ
  | .enqueued c _ => c.onDone
  | _ => none

@[simp] def called : WriterEvent → Option ℕ
  | .acked cb => some cb
  | _ => none

end WriterEvent

def accepted (log : List WriterEvent) : List Bytes := log.filterMap WriterEvent.accepted

def writtenData (log : List WriterEvent) : List Bytes := log.filterMap WriterEvent.written

def callbacks (log : List WriterEvent) : List ℕ := log.filterMap WriterEvent.callback

def called (log : List WriterEvent) : List ℕ := log.filterMap WriterEvent.called

/-- No call of `Write` has failed. -/
def NoFailure (log : List WriterEvent) : Prop := ∀ data, .wrote data false ∉ log

/-- Every request to close comes after the connection was attached. -/
def AttachedFirst (log : List WriterEvent) : Prop :=
  AtEach (fun e pre => e = .closeRequested → .attached ∈ pre) log

section reading

variable (l m : List WriterEvent)

@[simp] lemma accepted_append : accepted (l ++ m) = accepted l ++ accepted m :=
  filterMap_append

@[simp] lemma writtenData_append : writtenData (l ++ m) = writtenData l ++ writtenData m :=
  filterMap_append

@[simp] lemma callbacks_append : callbacks (l ++ m) = callbacks l ++ callbacks m :=
  filterMap_append

@[simp] lemma called_append : called (l ++ m) = called l ++ called m := filterMap_append

@[simp] lemma accepted_cons (e : WriterEvent) :
    accepted (e :: l) = e.accepted.toList ++ accepted l :=
  filterMap_cons_toList _ e l

@[simp] lemma writtenData_cons (e : WriterEvent) :
    writtenData (e :: l) = e.written.toList ++ writtenData l :=
  filterMap_cons_toList _ e l

@[simp] lemma callbacks_cons (e : WriterEvent) :
    callbacks (e :: l) = e.callback.toList ++ callbacks l :=
  filterMap_cons_toList _ e l

@[simp] lemma called_cons (e : WriterEvent) : called (e :: l) = e.called.toList ++ called l :=
  filterMap_cons_toList _ e l

@[simp] lemma reading_nil :
    accepted [] = [] ∧ writtenData [] = [] ∧ callbacks [] = [] ∧ called [] = [] :=
  ⟨rfl, rfl, rfl, rfl⟩

@[simp] lemma accepted_acked (cbs : List ℕ) : accepted (cbs.map .acked) = [] := by
  simp [accepted, filterMap_map]

@[simp] lemma writtenData_acked (cbs : List ℕ) : writtenData (cbs.map .acked) = [] := by
  simp [writtenData, filterMap_map]

@[simp] lemma callbacks_acked (cbs : List ℕ) : callbacks (cbs.map .acked) = [] := by
  simp [callbacks, filterMap_map]

@[simp] lemma called_acked (cbs : List ℕ) : called (cbs.map .acked) = cbs := by
  simp [called, filterMap_map, Function.comp_def]

@[simp] lemma acksOf_nil : acksOf [] = [] := rfl

@[simp] lemma acksOf_append (p q : List ConnWrite) : acksOf (p ++ q) = acksOf p ++ acksOf q :=
  filterMap_append

@[simp] lemma acksOf_cons (c : ConnWrite) (q : List ConnWrite) :
    acksOf (c :: q) = c.onDone.toList ++ acksOf q :=
  filterMap_cons_toList _ c q

end reading

lemma NoFailure.of_append {l m : List WriterEvent} (h : NoFailure (l ++ m)) : NoFailure l :=
  fun data hmem => h data (mem_append_left m hmem)

/-! ### What a step does -/

namespace WriterRun

variable {s s' : WriterRun}

/-- The steps of the writer and its callers, with what each of them found. -/
inductive Moves (s : WriterRun) : WriterRun → Prop
  | refuse (c : ConnWrite) (hclose : s.w.closeReq = true) :
    Moves s { s with calls := s.calls ++ [.refused c.onDone], log := s.log ++ [.enqueued c false] }
  | accept (c : ConnWrite) (hhalf : s.w.halfCloseReq = false) (hclose : s.w.closeReq = false) :
    Moves s { s with
      w := s.w.append c, calls := s.calls ++ [.signal false], log := s.log ++ [.enqueued c true] }
  | attach :
    Moves s { s with
      w := s.w.attach, calls := s.calls ++ [.signal false], log := s.log ++ [.attached] }
  | requestHalfClose :
    Moves s { s with
      w := s.w.requestHalfClose
      calls := s.calls ++ [.signal false]
      log := s.log ++ [.halfCloseRequested] }
  | requestClose :
    Moves s { s with
      w := s.w.requestClose, calls := s.calls ++ [.signal true], log := s.log ++ [.closeRequested] }
  | signal (i : ℕ) (close : Bool) (hcall : s.calls[i]? = some (.signal close)) :
    Moves s { s with w := s.w.signal, calls := s.calls.eraseIdx i }
  | tell (i : ℕ) (onDone : Option ℕ) (hcall : s.calls[i]? = some (.refused onDone)) :
    Moves s { s with calls := s.calls.eraseIdx i, log := s.log ++ onDone.toList.map .acked }
  | take (hactor : s.actor = .top) (hconn : s.w.conn = true) :
    Moves s { s with
      w := { s.w with queue := [] }, actor := .batch true s.w.queue s.w.closeReq }
  | hold (hactor : s.actor = .top) (hconn : s.w.conn = false) :
    Moves s { s with actor := .batch false [] s.w.closeReq }
  | close (hactor : s.actor = .batch true [] true) :
    Moves s { s with actor := .leaving, log := s.log ++ [.close] }
  | abandon (hactor : s.actor = .batch false [] true) : Moves s { s with actor := .leaving }
  | half (conn : Bool) (hactor : s.actor = .batch conn [] false) (hdue : s.w.doHalf conn = true) :
    Moves s { s with w := { s.w with halfCloseDone := true }, actor := .halfClosing }
  | wait (conn : Bool) (hactor : s.actor = .batch conn [] false) :
    Moves s { s with actor := .waiting }
  | leave (hactor : s.actor = .leaving) :
    Moves s { s with
      w := { s.w with queue := [] }
      actor := .returned
      log := s.log ++ (acksOf s.w.queue).map .acked }
  | closeWrite (hactor : s.actor = .halfClosing) :
    Moves s { s with actor := .waiting, log := s.log ++ [.closeWrite] }
  | wake (hactor : s.actor = .waiting) (hwake : s.w.wake = true) :
    Moves s { s with w := { s.w with wake := false }, actor := .top }
  | wrote (conn : Bool) (c : ConnWrite) (q : List ConnWrite) (closeReq : Bool)
      (hactor : s.actor = .batch conn (c :: q) closeReq) :
    Moves s { s with
      actor := .batch conn q closeReq
      log := s.log ++ .wrote c.data true :: (acksOf [c]).map .acked }
  | failed (conn : Bool) (c : ConnWrite) (q : List ConnWrite) (closeReq : Bool)
      (hactor : s.actor = .batch conn (c :: q) closeReq) :
    Moves s { s with
      actor := .batch conn [] closeReq
      log := s.log ++ .wrote c.data false :: (acksOf (c :: q)).map .acked }

lemma moves_of_run {w : ConnWriter} {a : Actor} {e : Effect}
    (h : s.w.run s.actor = some (w, a, e)) :
    Moves s { s with w := w, actor := a, log := s.log ++ e.events true } := by
  cases ha : s.actor with
  | off | returned => simp [ha, ConnWriter.run] at h
  | top =>
    simp only [ha, ConnWriter.run] at h
    split_ifs at h with hconn
    all_goals cases h
    · simpa [Effect.events] using Moves.take ha hconn
    · simpa [Effect.events] using Moves.hold ha (by simpa using hconn)
  | batch conn q closeReq =>
    cases q with
    | cons c q => simp [ha, ConnWriter.run] at h
    | nil =>
      cases closeReq with
      | true =>
        simp only [ha, ConnWriter.run] at h
        cases h
        cases conn with
        | true => simpa [Effect.events] using Moves.close ha
        | false => simpa [Effect.events] using Moves.abandon ha
      | false =>
        simp only [ha, ConnWriter.run] at h
        split_ifs at h with hdue
        all_goals cases h
        · simpa [Effect.events] using Moves.half conn ha hdue
        · simpa [Effect.events] using Moves.wait conn ha
  | leaving =>
    simp only [ha, ConnWriter.run] at h
    cases h
    simpa [Effect.events] using Moves.leave ha
  | halfClosing =>
    simp only [ha, ConnWriter.run] at h
    cases h
    simpa [Effect.events] using Moves.closeWrite ha
  | waiting =>
    simp only [ha, ConnWriter.run] at h
    split_ifs at h with hwake
    cases h
    simpa [Effect.events] using Moves.wake ha hwake

lemma moves_of_wrote {ok : Bool} {a : Actor} {e : Effect}
    (h : ConnWriter.wrote ok s.actor = some (a, e)) :
    Moves s { s with actor := a, log := s.log ++ e.events ok } := by
  cases ha : s.actor with
  | batch conn q closeReq =>
    cases q with
    | nil => simp [ha, ConnWriter.wrote] at h
    | cons c q =>
      simp only [ha, ConnWriter.wrote] at h
      cases ok with
      | true =>
        cases h
        exact Moves.wrote conn c q closeReq ha
      | false =>
        cases h
        exact Moves.failed conn c q closeReq ha
  | _ => simp [ha, ConnWriter.wrote] at h

lemma moves_of_step {i : WriterInput} (h : s.step i = some s') : Moves s s' := by
  cases i with
  | enqueue c =>
    simp only [step] at h
    split_ifs at h with hhalf hclose
    all_goals cases h
    · exact .refuse c hclose
    · exact .accept c (by simpa using hhalf) (by simpa using hclose)
  | attach =>
    simp only [step] at h
    split_ifs at h
    cases h
    exact .attach
  | requestHalfClose =>
    cases h
    exact .requestHalfClose
  | requestClose =>
    cases h
    exact .requestClose
  | finish i =>
    simp only [step] at h
    split at h
    · cases h
    · cases h
      exact .signal i _ ‹_›
    · cases h
      exact .tell i _ ‹_›
  | run =>
    obtain ⟨⟨w, a, e⟩, hrun, rfl⟩ := Option.map_eq_some_iff.mp h
    exact moves_of_run hrun
  | wrote ok =>
    obtain ⟨⟨a, e⟩, hwrote, rfl⟩ := Option.map_eq_some_iff.mp h
    exact moves_of_wrote hwrote

/-! ### The way of the data -/

def inHand : Actor → List ConnWrite
  | .batch _ q _ => q
  | .off | .top | .leaving | .halfClosing | .waiting | .returned => []

def held (s : WriterRun) : List ConnWrite := inHand s.actor ++ s.w.queue

/-- The accepted data is what has left the writer and then what it holds. -/
def Flow (s : WriterRun) : Prop :=
  ∃ gone, accepted s.log = gone ++ s.held.map ConnWrite.data ∧ (writtenData s.log).Sublist gone ∧
    (NoFailure s.log → s.actor ≠ .returned → writtenData s.log = gone)

lemma Flow.of_eq (h : s.Flow) (hacc : accepted s'.log = accepted s.log)
    (hwritten : writtenData s'.log = writtenData s.log) (hheld : s'.held = s.held)
    (hfail : NoFailure s'.log → NoFailure s.log)
    (hactor : s'.actor ≠ .returned → s.actor ≠ .returned) : s'.Flow := by
  obtain ⟨gone, h1, h2, h3⟩ := h
  refine ⟨gone, ?_, ?_, fun hf ha => ?_⟩
  · rw [hacc, hheld, h1]
  · rwa [hwritten]
  · rw [hwritten]
    exact h3 (hfail hf) (hactor ha)

lemma Flow.moves (h : s.Flow) (hm : Moves s s') : s'.Flow := by
  cases hm with
  | accept c =>
    obtain ⟨gone, h1, h2, h3⟩ := h
    refine ⟨gone, ?_, ?_, fun hf ha => ?_⟩
    · simp [h1, held, ConnWriter.append]
    · simpa using h2
    · simpa using h3 hf.of_append ha
  | wrote conn c q closeReq hactor =>
    obtain ⟨gone, h1, h2, h3⟩ := h
    refine ⟨gone ++ [c.data], ?_, ?_, fun hf _ => ?_⟩
    · simpa [held, inHand, hactor] using h1
    · simpa using h2
    · simpa using h3 hf.of_append (by simp [hactor])
  | failed conn c q closeReq hactor =>
    obtain ⟨gone, h1, h2, -⟩ := h
    refine ⟨gone ++ (c :: q).map ConnWrite.data, ?_, ?_, fun hf _ => ?_⟩
    · simpa [held, inHand, hactor] using h1
    · simpa using h2.append (singleton_sublist.mpr mem_cons_self)
    · exact absurd (by simp) (hf c.data)
  | leave hactor =>
    -- what is left in the queue is given up
    obtain ⟨gone, h1, h2, -⟩ := h
    refine ⟨gone ++ s.w.queue.map ConnWrite.data, ?_, ?_, fun _ ha => absurd rfl ha⟩
    · simpa [held, inHand, hactor] using h1
    · simpa using h2.trans (sublist_append_left _ _)
  | take hactor | hold hactor | abandon hactor | wake hactor
  | half conn hactor | wait conn hactor =>
    exact h.of_eq rfl rfl (by simp [held, inHand, hactor]) id (by simp [hactor])
  | close hactor | closeWrite hactor =>
    exact h.of_eq (by simp) (by simp) (by simp [held, inHand, hactor]) NoFailure.of_append
      (by simp [hactor])
  | signal i close => exact h.of_eq rfl rfl rfl id id
  | tell | refuse | attach | requestHalfClose | requestClose =>
    exact h.of_eq (by simp) (by simp) rfl NoFailure.of_append id

/-- A goroutine that runs and holds nothing has written everything, unless a write failed. -/
lemma Flow.all_written (h : s.Flow) (hheld : s.held = []) (hactor : s.actor ≠ .returned)
    (hf : NoFailure s.log) : writtenData s.log = accepted s.log := by
  obtain ⟨gone, h1, -, h3⟩ := h
  rw [h3 hf hactor, h1, hheld, map_nil, append_nil]

/-! ### The way of the callbacks -/

def refusals (calls : List AfterLock) : List ℕ := calls.filterMap AfterLock.callback

@[simp] lemma refusals_append (cs ds : List AfterLock) :
    refusals (cs ++ ds) = refusals cs ++ refusals ds :=
  filterMap_append

@[simp] lemma refusals_singleton (c : AfterLock) : refusals [c] = c.callback.toList :=
  (filterMap_cons_toList _ c []).trans (append_nil _)

lemma refusals_eraseIdx {calls : List AfterLock} {i : ℕ} {c : AfterLock} (h : calls[i]? = some c) :
    (refusals calls).Perm (c.callback.toList ++ refusals (calls.eraseIdx i)) := by
  obtain ⟨hi, rfl⟩ := List.getElem?_eq_some_iff.mp h
  rw [← refusals_singleton, ← refusals_append]
  exact (getElem_cons_eraseIdx_perm hi).symm.filterMap _

/-- Every callback was called, is about to be called by a refused call, or belongs to a write that
is held. -/
def Conserved (s : WriterRun) : Prop :=
  (callbacks s.log).Perm (called s.log ++ (refusals s.calls ++ acksOf s.held))

lemma conserved_iff : s.Conserved ↔ ∀ n, (callbacks s.log).count n =
    (called s.log).count n + ((refusals s.calls).count n +
      ((acksOf (inHand s.actor)).count n + (acksOf s.w.queue).count n)) := by
  simp only [Conserved, perm_iff_count, held, acksOf_append, count_append]

lemma Conserved.moves (h : s.Conserved) (hm : Moves s s') : s'.Conserved := by
  rw [conserved_iff] at h ⊢
  intro n
  have h := h n
  cases hm with
  | signal i close hcall =>
    have hperm := (refusals_eraseIdx hcall).count_eq n
    simp only [AfterLock.callback, Option.toList_none, nil_append] at hperm
    simpa only [ConnWriter.signal, hperm] using h
  | tell i onDone hcall =>
    have hperm := (refusals_eraseIdx hcall).count_eq n
    simp only [AfterLock.callback, count_append] at hperm
    simp only [callbacks_append, called_append, callbacks_acked, called_acked, append_nil,
      count_append]
    omega
  | refuse c | accept c | attach | requestHalfClose | requestClose =>
    simp [ConnWriter.append, ConnWriter.attach, ConnWriter.requestHalfClose,
      ConnWriter.requestClose]
    omega
  | take hactor | hold hactor | close hactor | abandon hactor | leave hactor | closeWrite hactor
  | wake hactor | half conn hactor | wait conn hactor
  | wrote conn c q closeReq hactor | failed conn c q closeReq hactor =>
    simp [inHand, hactor] at h ⊢
    omega

/-! ### The half-close -/

/-- The calls of `CloseWrite` that are decided but not made. -/
def halfCloses : Actor → ℕ
  | .halfClosing => 1
  | .off | .top | .batch _ _ _ | .leaving | .waiting | .returned => 0

/-- The half-close is decided once, when it was requested and nothing is held. -/
structure HalfClosed (s : WriterRun) : Prop where
  requested : s.w.halfCloseReq = true → .halfCloseRequested ∈ s.log
  once : s.log.count .closeWrite + halfCloses s.actor = s.w.halfCloseDone.toNat
  due : s.actor = .halfClosing → s.w.halfCloseReq = true ∧ s.w.queue = []
  flushed : AtEach (fun e pre => e = .closeWrite →
    .halfCloseRequested ∈ pre ∧ (NoFailure pre → writtenData pre = accepted pre)) s.log

lemma HalfClosed.of_eq {es : List WriterEvent} (h : s.HalfClosed) (hlog : s'.log = s.log ++ es)
    (hes : .closeWrite ∉ es) (hreq : s'.w.halfCloseReq = s.w.halfCloseReq)
    (hdone : s'.w.halfCloseDone = s.w.halfCloseDone)
    (hactor : halfCloses s'.actor = halfCloses s.actor)
    (hdue : s'.actor = .halfClosing → s.actor = .halfClosing ∧ s'.w.queue = s.w.queue) :
    s'.HalfClosed where
  requested hr := by
    rw [hlog]
    exact mem_append_left es (h.requested (hreq ▸ hr))
  once := by
    rw [hlog, count_append, count_eq_zero.mpr hes, hactor, hdone]
    exact h.once
  due ha := by
    rw [hreq, (hdue ha).2]
    exact h.due (hdue ha).1
  flushed := by
    rw [hlog]
    exact atEach_append h.flushed fun e he pre heq => absurd (heq ▸ he) hes

lemma HalfClosed.moves (hflow : s.Flow) (h : s.HalfClosed) (hm : Moves s s') : s'.HalfClosed := by
  cases hm with
  | closeWrite hactor =>
    obtain ⟨hreq, hqueue⟩ := h.due hactor
    have honce := h.once
    simp only [hactor, halfCloses] at honce
    refine ⟨fun hr => mem_append_left _ (h.requested hr), ?_, by simp, ?_⟩
    · simpa [halfCloses] using honce
    · refine atEach_snoc h.flushed fun _ => ⟨h.requested hreq, fun hf => ?_⟩
      exact hflow.all_written (by simp [held, inHand, hactor, hqueue]) (by simp [hactor]) hf
  | half conn hactor hdue =>
    simp only [ConnWriter.doHalf, Bool.and_eq_true, Bool.not_eq_true', List.isEmpty_iff] at hdue
    have honce := h.once
    simp only [hactor, hdue.1.1.2, halfCloses, Bool.toNat_false] at honce
    refine ⟨h.requested, ?_, fun _ => ⟨hdue.1.1.1, hdue.1.2⟩, h.flushed⟩
    simpa [halfCloses] using honce
  | accept c hhalf =>
    -- a write is accepted only before the half-close is requested
    have hno : s.actor ≠ .halfClosing := fun ha => by simp [(h.due ha).1] at hhalf
    exact h.of_eq rfl (by simp) rfl rfl rfl fun ha => absurd ha hno
  | requestHalfClose =>
    refine ⟨fun _ => by simp, ?_, fun ha => ⟨rfl, (h.due ha).2⟩, atEach_append h.flushed (by simp)⟩
    simpa [ConnWriter.requestHalfClose] using h.once
  | refuse | attach | requestClose =>
    exact h.of_eq rfl (by simp) rfl rfl rfl fun ha => ⟨ha, rfl⟩
  | tell i onDone => exact h.of_eq rfl (by simp) rfl rfl rfl fun ha => ⟨ha, rfl⟩
  | signal i close =>
    exact h.of_eq (append_nil _).symm (by simp) rfl rfl rfl fun ha => ⟨ha, rfl⟩
  | take hactor | hold hactor | abandon hactor | wake hactor | wait conn hactor =>
    exact h.of_eq (append_nil _).symm (by simp) rfl rfl (by simp [halfCloses, hactor])
      (by simp)
  | close hactor | leave hactor
  | wrote conn c q closeReq hactor | failed conn c q closeReq hactor =>
    exact h.of_eq rfl (by simp) rfl rfl (by simp [halfCloses, hactor]) (by simp)

/-! ### The close -/

/-- The flags tell what the log tells, and only a goroutine that saw the request is closing. -/
structure Known (s : WriterRun) : Prop where
  asked : s.w.closeReq = true → .closeRequested ∈ s.log
  joined : .attached ∈ s.log → s.w.conn = true
  seen : s.actor.closing = true → s.w.closeReq = true

lemma Known.moves (h : s.Known) (hm : Moves s s') : s'.Known := by
  obtain ⟨h1, h2, h3⟩ := h
  have hasked {es : List WriterEvent} (hc : s.w.closeReq = true) :
      .closeRequested ∈ s.log ++ es := mem_append_left es (h1 hc)
  cases hm with
  | refuse | accept | requestHalfClose | tell =>
    exact ⟨hasked, fun ha => h2 (by simpa using ha), h3⟩
  | attach => exact ⟨hasked, fun _ => rfl, h3⟩
  | requestClose => exact ⟨fun _ => by simp, fun ha => h2 (by simpa using ha), fun _ => rfl⟩
  | signal => exact ⟨h1, h2, h3⟩
  | take | hold => exact ⟨h1, h2, id⟩
  | abandon hactor => exact ⟨h1, h2, fun _ => h3 (by simp [hactor, Actor.closing])⟩
  | half | wait | wake => exact ⟨h1, h2, by simp [Actor.closing]⟩
  | close hactor | leave hactor =>
    exact ⟨hasked, fun ha => h2 (by simpa using ha),
      fun _ => h3 (by simp [hactor, Actor.closing])⟩
  | closeWrite =>
    exact ⟨hasked, fun ha => h2 (by simpa using ha), by simp [Actor.closing]⟩
  | wrote conn c q closeReq hactor | failed conn c q closeReq hactor =>
    exact ⟨hasked, fun ha => h2 (by simpa using ha),
      fun hc => h3 (by simpa [hactor, Actor.closing] using hc)⟩

lemma Known.actor_ne {a : Actor} (h : s.Known) (hclose : s.w.closeReq = false)
    (ha : a.closing = true) : s.actor ≠ a := by
  rintro rfl
  simp [h.seen ha] at hclose

/-- Once the goroutine has taken its last batch, the queue stays empty. -/
structure Emptied (s : WriterRun) : Prop where
  last : ∀ q, s.actor = .batch true q true → s.w.queue = []
  left : s.actor = .returned → s.w.queue = []

lemma Emptied.moves (hknown : s.Known) (h : s.Emptied) (hm : Moves s s') : s'.Emptied := by
  obtain ⟨h1, h2⟩ := h
  cases hm with
  | accept c hhalf hclose =>
    exact ⟨fun q ha => absurd ha (hknown.actor_ne hclose rfl),
      fun ha => absurd ha (hknown.actor_ne hclose rfl)⟩
  | refuse | attach | requestHalfClose | requestClose | signal | tell => exact ⟨h1, h2⟩
  | take => exact ⟨fun _ _ => rfl, fun _ => rfl⟩
  | leave => exact ⟨by simp, fun _ => rfl⟩
  | hold | close | abandon | half | wait | closeWrite | wake => exact ⟨by simp, by simp⟩
  | wrote conn c q closeReq hactor | failed conn c q closeReq hactor =>
    refine ⟨fun q' ha => ?_, by simp⟩
    simp only [Actor.batch.injEq] at ha
    exact h1 (c :: q) (by rw [hactor, ha.1, ha.2.2])

def unaware : Actor → Bool
  | .batch _ _ closeReq => !closeReq
  | .halfClosing | .waiting => true
  | .off | .top | .leaving | .returned => false

/-- A request to close that is not seen has a token, or a call that made one is about to put it. -/
def Awake (s : WriterRun) : Prop :=
  s.w.closeReq = true → unaware s.actor = true → s.w.wake = true ∨ .signal true ∈ s.calls

lemma Awake.moves (h : s.Awake) (hm : Moves s s') : s'.Awake := by
  intro hc hu
  cases hm with
  | refuse | accept | attach | requestHalfClose =>
    exact (h hc hu).imp id fun hmem => mem_append_left _ hmem
  | requestClose => exact .inr (by simp)
  | signal => exact .inl rfl
  | tell i onDone hcall =>
    refine (h hc hu).imp id fun hmem => ?_
    obtain ⟨hi, hget⟩ := List.getElem?_eq_some_iff.mp hcall
    have := (getElem_cons_eraseIdx_perm hi).mem_iff.mpr hmem
    simpa [hget] using this
  | take | hold =>
    simp only [unaware, Bool.not_eq_true'] at hu
    simp [hu] at hc
  | close | abandon | leave | wake => simp [unaware] at hu
  | half conn hactor | wait conn hactor | closeWrite hactor =>
    exact h hc (by simp [hactor, unaware])
  | wrote conn c q closeReq hactor | failed conn c q closeReq hactor =>
    exact h hc (by simpa [hactor, unaware] using hu)

/-- The connection is closed after everything was written. -/
structure Closes (s : WriterRun) : Prop where
  closed : AtEach (fun e pre => e = .close →
    s.w.closeReq = true ∧ (NoFailure pre → writtenData pre = accepted s.log)) s.log
  skipped : ∀ q, s.actor = .batch false q true → ¬ AttachedFirst s.log
  done : s.actor = .leaving ∨ s.actor = .returned → AttachedFirst s.log → .close ∈ s.log

lemma Closes.of_eq {es : List WriterEvent} (h : s.Closes) (hlog : s'.log = s.log ++ es)
    (hes : .close ∉ es) (hacc : accepted es = [])
    (hreq : s.w.closeReq = true → s'.w.closeReq = true)
    (hskip : ∀ q, s'.actor = .batch false q true → ∃ q', s.actor = .batch false q' true)
    (hdone : s'.actor = .leaving ∨ s'.actor = .returned →
      s.actor = .leaving ∨ s.actor = .returned) : s'.Closes where
  closed := by
    rw [hlog, accepted_append, hacc, append_nil]
    refine atEach_append (h.closed.mono fun e pre hq he => ?_) fun e he pre heq => ?_
    · exact (hq he).imp hreq id
    · exact absurd (heq ▸ he) hes
  skipped q ha hfirst := by
    obtain ⟨q', hq'⟩ := hskip q ha
    exact h.skipped q' hq' (hlog ▸ hfirst).of_append
  done ha hfirst := by
    rw [hlog] at hfirst ⊢
    exact mem_append_left es (h.done (hdone ha) hfirst.of_append)

lemma Closes.moves (hflow : s.Flow) (hknown : s.Known) (hempty : s.Emptied) (h : s.Closes)
    (hm : Moves s s') : s'.Closes := by
  cases hm with
  | close hactor =>
    have hreq := hknown.seen (by simp [hactor, Actor.closing])
    refine ⟨?_, by simp, fun _ _ => by simp⟩
    rw [accepted_append]
    refine atEach_snoc (h.closed.mono fun e pre hq he => ?_) fun _ => ⟨hreq, fun hf => ?_⟩
    · simpa using hq he
    · have := hflow.all_written (by simp [held, inHand, hactor, hempty.last [] hactor])
        (by simp [hactor]) hf
      simpa using this
  | accept c hhalf hclose =>
    -- the connection is not closed yet: that takes a request, after which nothing is accepted
    refine ⟨?_, fun q ha => absurd ha (hknown.actor_ne hclose rfl), fun ha => ?_⟩
    · refine atEach_append (h.closed.mono fun e pre hq he => ?_) (by simp)
      simp [(hq he).1] at hclose
    · rcases ha with ha | ha
      all_goals exact absurd ha (hknown.actor_ne hclose rfl)
  | hold hactor hconn =>
    refine ⟨h.closed, fun q ha hfirst => ?_, by simp⟩
    simp only [Actor.batch.injEq, true_and] at ha
    obtain ⟨pre, post, heq⟩ := append_of_mem (hknown.asked ha.2)
    have hmem : .attached ∈ s.log := heq ▸ mem_append_left _ (hfirst pre _ post heq rfl)
    simp [hknown.joined hmem] at hconn
  | abandon hactor =>
    exact ⟨h.closed, by simp, fun _ hfirst => absurd hfirst (h.skipped [] hactor)⟩
  | refuse | attach | requestHalfClose =>
    exact h.of_eq rfl (by simp) rfl id (fun q ha => ⟨q, ha⟩) id
  | requestClose => exact h.of_eq rfl (by simp) rfl (fun _ => rfl) (fun q ha => ⟨q, ha⟩) id
  | signal => exact h.of_eq (append_nil _).symm (by simp) rfl id (fun q ha => ⟨q, ha⟩) id
  | tell => exact h.of_eq rfl (by simp) (by simp) id (fun q ha => ⟨q, ha⟩) id
  | take | half | wait | wake =>
    exact h.of_eq (append_nil _).symm (by simp) rfl id (by simp) (by simp)
  | leave hactor => exact h.of_eq rfl (by simp) (by simp) id (by simp) (by simp [hactor])
  | closeWrite => exact h.of_eq rfl (by simp) rfl id (by simp) (by simp)
  | wrote conn c q closeReq hactor | failed conn c q closeReq hactor =>
    refine h.of_eq rfl (by simp) (by simp) id (fun q' ha => ⟨c :: q, ?_⟩) (by simp)
    simp only [Actor.batch.injEq] at ha
    rw [hactor, ha.1, ha.2.2]

/-! ### Every interleaving -/

structure Sound (s : WriterRun) : Prop where
  flow : s.Flow
  conserved : s.Conserved
  half : s.HalfClosed
  known : s.Known
  emptied : s.Emptied
  awake : s.Awake
  closes : s.Closes

lemma sound_init : Sound {} where
  flow := ⟨[], rfl, .slnil, fun _ _ => rfl⟩
  conserved := .nil
  half := ⟨by simp, rfl, by simp, atEach_nil _⟩
  known := ⟨by simp, by simp, by simp [Actor.closing]⟩
  emptied := ⟨by simp, by simp⟩
  awake := by simp [Awake]
  closes := ⟨atEach_nil _, by simp, by simp⟩

lemma Sound.moves (h : s.Sound) (hm : Moves s s') : s'.Sound where
  flow := h.flow.moves hm
  conserved := h.conserved.moves hm
  half := h.half.moves h.flow hm
  known := h.known.moves hm
  emptied := h.emptied.moves h.known hm
  awake := h.awake.moves hm
  closes := h.closes.moves h.flow h.known h.emptied hm

end WriterRun

/-- What is written is accepted data in its order; the connection is closed after all of it was
written; when `run` has returned, the callbacks called are those given; and it does not sleep
through a request to close. -/
theorem connWriter_orderly {ins : List WriterInput} {s : WriterRun}
    (hrun : run WriterRun.step {} ins = some s) :
    (writtenData s.log).Sublist (accepted s.log) ∧
    AtEach (fun e pre => e = .close → NoFailure pre → writtenData pre = accepted s.log) s.log ∧
    (s.actor = .returned → AttachedFirst s.log → .close ∈ s.log) ∧
    s.log.count .closeWrite ≤ 1 ∧
    AtEach (fun e pre => e = .closeWrite →
      .halfCloseRequested ∈ pre ∧ (NoFailure pre → writtenData pre = accepted pre)) s.log ∧
    (s.actor = .returned → (∀ onDone, .refused onDone ∉ s.calls) →
      (called s.log).Perm (callbacks s.log)) ∧
    (s.actor = .waiting → s.w.closeReq = true → s.w.wake = false → .signal true ∈ s.calls) := by
  have h : s.Sound := run_invariant_all (fun _ _ _ h hs => h.moves (WriterRun.moves_of_step hs))
    WriterRun.sound_init hrun
  refine ⟨?_, ?_, fun ha => h.closes.done (.inr ha), ?_, h.half.flushed, fun ha hcalls => ?_,
    fun ha hc hw => ?_⟩
  · obtain ⟨gone, h1, h2, -⟩ := h.flow
    rw [h1]
    exact h2.trans (sublist_append_left _ _)
  · exact h.closes.closed.mono fun e pre hq he => (hq he).2
  · have honce := h.half.once
    have := Bool.toNat_le s.w.halfCloseDone
    omega
  · have hrefusals : WriterRun.refusals s.calls = [] := by
      refine filterMap_eq_nil_iff.mpr fun c hc => ?_
      cases c with
      | signal close => rfl
      | refused onDone => exact absurd hc (hcalls onDone)
    have hall := h.conserved
    simp only [WriterRun.Conserved, hrefusals, WriterRun.held, WriterRun.inHand, ha,
      h.emptied.left ha, append_nil, acksOf_nil] at hall
    exact hall.symm
  · exact (h.awake hc (by simp [ha, WriterRun.unaware])).resolve_left (by simp [hw])

/-- A write that waits for the connection, then `end()` and `destroy()`. -/
def wholeLife : List WriterInput :=
  [.enqueue ⟨[104, 105], some 7⟩, .run, .run, .attach, .finish 1, .run, .run, .wrote true,
    .requestHalfClose, .run, .run, .requestClose, .finish 2, .run, .run, .run, .run]

theorem connWriter_orderly_wholeLife :
    ∃ s, run WriterRun.step {} wholeLife = some s ∧ s.actor = .returned ∧
      writtenData s.log = [[104, 105]] ∧ s.log.count .closeWrite ≤ 1 ∧
      (called s.log).Perm (callbacks s.log) := by
  obtain ⟨s, hrun, hactor, hcalls, hdata⟩ : ∃ s, run WriterRun.step {} wholeLife = some s ∧
      s.actor = .returned ∧ s.calls = [.signal false, .signal false] ∧
      writtenData s.log = [[104, 105]] := ⟨_, rfl, rfl, rfl, rfl⟩
  obtain ⟨-, -, -, hhalf, -, hacks, -⟩ := connWriter_orderly hrun
  exact ⟨s, hrun, hactor, hdata, hhalf, hacks hactor (by simp [hcalls])⟩

end GoSpidermonkey.Nodejs
