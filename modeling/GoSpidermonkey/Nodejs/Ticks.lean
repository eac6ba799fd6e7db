import GoSpidermonkey.Lib.Machine

/-!
# The queue of `process.nextTick`

`nextTick` appends a callback and schedules a microtask, and `runTicks` drains the queue. What runs
inside a drain is a callback, or the `uncaughtException` handlers for an error that has left one.
The callbacks are numbered in the order of their registration.
-/

namespace GoSpidermonkey.Nodejs.Ticks

open Machine List

/-- Where `runTicks` is. -/
inductive Phase
  | idle
  | looping
  | calling
  | handling
deriving DecidableEq

structure State where
  queue : List ℕ := []
  registered : ℕ := 0
  tickScheduled : Bool := false
  /-- The microtasks of `scheduleTicks` that have not run. -/
  jobs : ℕ := 0
  phase : Phase := .idle
  ran : List ℕ := []
  /-- A callback has called `process.exit`. -/
  exited : Bool := false
  /-- The callbacks that were started after that. -/
  late : List ℕ := []
  /-- What the drains that are over have left in the queue. -/
  left : List (List ℕ) := []

/-- What leaves a callback: the sentinel of `process.exit`, which no handler gets, or an error. -/
inductive Thrown
  | sentinel
  | error (listened : Bool)
deriving DecidableEq

inductive Act
  | nextTick
  /-- A drain starts, as a microtask or by a call of the host. -/
  | runTicks (byHost : Bool)
  | shift
  | exit
  | returns
  | throws (e : Thrown)
  | handlersReturn
  | handlersThrow
  | finish

def step (s : State) : Act → Option State
  | .nextTick => some { s with
      queue := s.queue ++ [s.registered]
      registered := s.registered + 1
      tickScheduled := true
      jobs := if s.tickScheduled then s.jobs else s.jobs + 1 }
  | .runTicks byHost =>
    if s.phase = .idle ∧ (byHost = true ∨ 0 < s.jobs) then some { s with
      tickScheduled := false
      jobs := if byHost then s.jobs else s.jobs - 1
      phase := .looping }
    else none
  | .shift =>
    match s.queue with
    | [] => none
    | cb :: rest =>
      if s.phase = .looping then some { s with
        queue := rest
        phase := .calling
        ran := s.ran ++ [cb]
        late := if s.exited then s.late ++ [cb] else s.late }
      else none
  -- `process.exit` throws its sentinel inside of the callback, which may catch it
  | .exit => if s.phase = .calling then some { s with exited := true } else none
  | .returns => if s.phase = .calling then some { s with phase := .looping } else none
  | .throws e =>
    if s.phase = .calling ∧ (e = .sentinel → s.exited = true) then
      some { s with phase := if e = .error true then .handling else .looping }
    else none
  | .handlersReturn => if s.phase = .handling then some { s with phase := .looping } else none
  -- the error leaves `runTicks`
  | .handlersThrow =>
    if s.phase = .handling then some { s with phase := .idle, left := s.left ++ [s.queue] }
      else none
  | .finish =>
    if s.phase = .looping ∧ s.queue = [] then
      some { s with phase := .idle, left := s.left ++ [s.queue] }
    else none

/-- No handler throws, and when a callback calls `process.exit` none is queued or
registered later. -/
def Calm (s : State) : Act → Prop
  | .handlersThrow => False
  | .exit => s.queue = []
  | .nextTick => s.exited = false
  | _ => True

/-! ### Order -/

variable {s s' : State} {a : Act}

def InOrder (s : State) : Prop := s.ran ++ s.queue = range s.registered

lemma InOrder.step (h : InOrder s) (hs : step s a = some s') : InOrder s' := by
  cases a with
  | nextTick =>
    cases hs
    rw [InOrder, ← append_assoc, h, range_succ]
  | shift =>
    simp only [Ticks.step] at hs
    split at hs
    · cases hs
    · rename_i cb rest hqueue
      obtain ⟨-, rfl⟩ := of_guard hs
      rwa [InOrder, hqueue, append_cons] at h
  | runTicks | exit | returns | throws | handlersReturn | handlersThrow | finish =>
    obtain ⟨-, rfl⟩ := of_guard hs
    exact h

/-! ### Drains -/

/-- Every drain has emptied the queue, and nothing runs after `process.exit`. -/
structure Drained (s : State) : Prop where
  left : ∀ q ∈ s.left, q = []
  late : s.late = []
  exited : s.exited = true → s.queue = []

lemma Drained.step (h : Drained s) (ha : Calm s a) (hs : step s a = some s') : Drained s' := by
  cases a with
  | nextTick =>
    cases hs
    exact { h with exited := fun hexited => absurd (ha.symm.trans hexited) (by simp) }
  | shift =>
    simp only [Ticks.step] at hs
    split at hs
    · cases hs
    · rename_i cb rest hqueue
      obtain ⟨-, rfl⟩ := of_guard hs
      have hrunning : s.exited = false := by
        by_contra hexited
        have hnil := h.exited (by simpa using hexited)
        rw [hqueue] at hnil
        cases hnil
      exact ⟨h.left, by simp [hrunning, h.late], fun hexited => by simp [hrunning] at hexited⟩
  | exit =>
    obtain ⟨-, rfl⟩ := of_guard hs
    exact { h with exited := fun _ => ha }
  | handlersThrow => exact ha.elim
  | finish =>
    obtain ⟨⟨-, hqueue⟩, rfl⟩ := of_guard hs
    refine { h with left := fun q hq => ?_ }
    rcases mem_append.mp hq with hq | hq
    · exact h.left q hq
    · exact (mem_singleton.mp hq).trans hqueue
  | runTicks | returns | throws | handlersReturn =>
    obtain ⟨-, rfl⟩ := of_guard hs
    exact ⟨h.left, h.late, h.exited⟩

/-- Callbacks run in the order of their registration, none twice. In calm runs every drain has run
all of them, and none after `process.exit`. -/
theorem ticks_drained (acts : List Act) (s : State) (hrun : run step {} acts = some s) :
    s.ran ++ s.queue = range s.registered ∧
      (Obeys step Calm {} acts → (∀ q ∈ s.left, q = []) ∧ s.late = []) := by
  have hstart : InOrder {} := rfl
  have horder : InOrder s := run_invariant_all (fun _ _ _ h => h.step) hstart hrun
  refine ⟨horder, fun hcalm => ?_⟩
  have hempty : Drained {} := ⟨by simp, rfl, by simp⟩
  have hdrained := run_invariant (fun _ _ _ h => h.step) hempty hcalm hrun
  exact ⟨hdrained.left, hdrained.late⟩

/-- The first callback throws and registers another, which calls `process.exit`. -/
def calmTicks : List Act :=
  [.nextTick, .runTicks false, .shift, .nextTick, .throws (.error true), .handlersReturn, .shift,
    .exit, .throws .sentinel, .finish]

theorem calmTicks_drained : ∃ s, run step {} calmTicks = some s ∧ s.ran = [0, 1] ∧
    s.left = [[]] ∧ ∀ q ∈ s.left, q = [] := by
  refine ⟨_, rfl, rfl, rfl, ((ticks_drained calmTicks _ rfl).2 ?_).1⟩
  simp [calmTicks, Obeys, Calm, step]

/-- A callback runs after `process.exit`, and a handler that throws leaves the queue as it is. -/
theorem exit_runs_on_and_throw_stops :
    (∃ s, run step {} [.nextTick, .nextTick, .runTicks false, .shift, .exit,
      .throws .sentinel, .shift]
      = some s ∧ s.late = [1]) ∧
    ∃ s, run step {} [.nextTick, .nextTick, .runTicks false, .shift, .throws (.error true),
      .handlersThrow] = some s ∧ s.left = [[1]] :=
  ⟨⟨_, rfl, rfl⟩, _, rfl, rfl⟩

/-! ### Waiting callbacks -/

/-- Callbacks that wait between the drains have a microtask that will drain them. -/
structure Scheduled (s : State) : Prop where
  jobs : s.tickScheduled = true → 0 < s.jobs
  queue : s.phase = .idle → s.queue ≠ [] → s.tickScheduled = true

lemma Scheduled.step (h : Scheduled s) (ha : a ≠ .handlersThrow) (hs : step s a = some s') :
    Scheduled s' := by
  cases a with
  | nextTick =>
    cases hs
    refine ⟨fun _ => ?_, fun _ _ => rfl⟩
    by_cases hjob : s.tickScheduled
    · simpa [hjob] using h.jobs hjob
    · simp [hjob]
  | runTicks =>
    obtain ⟨-, rfl⟩ := of_guard hs
    exact ⟨by simp, by simp⟩
  | shift =>
    simp only [Ticks.step] at hs
    split at hs
    · cases hs
    · obtain ⟨-, rfl⟩ := of_guard hs
      exact ⟨h.jobs, by simp⟩
  | throws e =>
    obtain ⟨-, rfl⟩ := of_guard hs
    exact ⟨h.jobs, by split_ifs <;> simp⟩
  | finish =>
    obtain ⟨⟨-, hqueue⟩, rfl⟩ := of_guard hs
    exact ⟨h.jobs, fun _ hne => absurd hqueue hne⟩
  | handlersThrow => exact absurd rfl ha
  | exit =>
    obtain ⟨-, rfl⟩ := of_guard hs
    exact ⟨h.jobs, h.queue⟩
  | returns | handlersReturn =>
    obtain ⟨-, rfl⟩ := of_guard hs
    exact ⟨h.jobs, by simp⟩

/-- As long as no handler throws, no callback waits without a microtask that will run it. -/
theorem waiting_ticks_scheduled (acts : List Act) (s : State) (hrun : run step {} acts = some s)
    (hacts : ∀ a ∈ acts, a ≠ .handlersThrow) (hidle : s.phase = .idle) (hqueue : s.queue ≠ []) :
    0 < s.jobs := by
  have hstart : Scheduled {} := ⟨by simp, by simp⟩
  have h : Scheduled s := run_invariant (G := fun _ a => a ≠ .handlersThrow)
    (fun _ _ _ h => h.step) hstart (obeys_of_forall_mem (fun _ a ha => hacts a ha) _) hrun
  exact h.jobs (h.queue hidle hqueue)

theorem later_tick_scheduled : ∃ s, run step {} (calmTicks ++ [.nextTick]) = some s ∧
    s.queue = [2] ∧ 0 < s.jobs := by
  refine ⟨_, rfl, rfl, waiting_ticks_scheduled (calmTicks ++ [.nextTick]) _ rfl ?_ rfl ?_⟩
  · simp [calmTicks]
  · simp

end GoSpidermonkey.Nodejs.Ticks
