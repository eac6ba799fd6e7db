import GoSpidermonkey.Lib.Machine

/-!
# The iterator of `events.on`

`next` gives the first queued event, throws the error, ends, or waits until `wake` is called and
then starts again. There is one `wake` for all the calls: a call that waits takes the place of
another one, and `return` leaves it as it is. Events and calls of `next` are numbered.
-/

namespace GoSpidermonkey.Nodejs.EventIterator

open Machine List

inductive Result
  | event (e : ℕ)
  | thrown
  | done

def Result.event? : Result → Option ℕ
  | .event e => some e
  | _ => none

structure State where
  queue : List ℕ := []
  emitted : ℕ := 0
  /-- `error` is set to a value that counts as true. -/
  error : Bool := false
  finished : Bool := false
  wake : Option ℕ := none
  calls : ℕ := 0
  /-- The calls at their `await`. -/
  waiting : List ℕ := []
  /-- The calls whose `await` is over: microtasks that have not run. -/
  ready : List ℕ := []
  results : List (ℕ × Result) := []
  aborted : Bool := false
  /-- There was an abort or an `error` event. -/
  failed : Bool := false

namespace State

variable (s : State)

def wakeUp : State :=
  match s.wake with
  | some i => { s with wake := none, waiting := s.waiting.erase i, ready := s.ready ++ [i] }
  | none => s

def settle (i : ℕ) (r : Result) : State := { s with results := s.results ++ [(i, r)] }

def next (i : ℕ) : State :=
  match s.queue with
  | e :: rest => { s with queue := rest }.settle i (.event e)
  | [] =>
    if s.error then s.settle i .thrown
    else if s.finished then s.settle i .done
    else { s with wake := some i, waiting := s.waiting ++ [i] }

end State

inductive Act
  /-- A call of `handler`. An emission that was under way when it was taken off still calls it. -/
  | emit
  /-- A call of `errHandler`, with a value that may count as false. -/
  | error (truthy : Bool)
  | abort
  | next
  | close
  | resume

def step (s : State) : Act → Option State
  | .emit => some { s with queue := s.queue ++ [s.emitted], emitted := s.emitted + 1 }.wakeUp
  | .error truthy => some { s with error := truthy, failed := true }.wakeUp
  | .abort =>
    if s.aborted then none
    else some { s with aborted := true, error := true, failed := true }.wakeUp
  | .next => some ({ s with calls := s.calls + 1 }.next s.calls)
  -- the method `return`
  | .close => some { s with finished := true }
  | .resume =>
    match s.ready with
    | i :: rest => some ({ s with ready := rest }.next i)
    | [] => none

/-- Errors count as true, and `next` and `return` are called while no call is pending. -/
def Alone (s : State) : Act → Prop
  | .next | .close => s.waiting = [] ∧ s.ready = []
  | .error truthy => truthy = true
  | _ => True

/-! ### Order -/

variable {s s' : State} {a : Act}

def InOrder (s : State) : Prop :=
  s.results.filterMap (fun r => r.2.event?) ++ s.queue = range s.emitted

lemma InOrder.wakeUp (h : InOrder s) : InOrder s.wakeUp := by
  unfold State.wakeUp
  split <;> exact h

lemma InOrder.next (h : InOrder s) (i : ℕ) : InOrder (s.next i) := by
  unfold State.next
  split
  · rename_i e rest hqueue
    rw [InOrder, hqueue, append_cons] at h
    simpa [InOrder, State.settle, Result.event?] using h
  · split_ifs
    · simpa [InOrder, State.settle, Result.event?] using h
    · simpa [InOrder, State.settle, Result.event?] using h
    · exact h

lemma InOrder.step (h : InOrder s) (hs : step s a = some s') : InOrder s' := by
  cases a with
  | emit =>
    cases hs
    refine InOrder.wakeUp ?_
    rw [InOrder, ← append_assoc, h, range_succ]
  | error truthy =>
    cases hs
    exact InOrder.wakeUp h
  | abort =>
    obtain ⟨-, rfl⟩ := of_not_guard hs
    exact InOrder.wakeUp h
  | next =>
    cases hs
    exact InOrder.next (s := { s with calls := s.calls + 1 }) h _
  | close =>
    cases hs
    exact h
  | resume =>
    simp only [EventIterator.step] at hs
    split at hs
    · rename_i i rest hready
      cases hs
      exact InOrder.next (s := { s with ready := rest }) h i
    · cases hs

/-! ### One call at a time -/

/-- At most one call is pending, and it waits only for what has not happened. -/
inductive Turn (s : State) : Prop
  | free (hwaiting : s.waiting = []) (hready : s.ready = []) (hwake : s.wake = none)
  | woken (i : ℕ) (hwaiting : s.waiting = []) (hready : s.ready = [i]) (hwake : s.wake = none)
  | waits (i : ℕ) (hwaiting : s.waiting = [i]) (hready : s.ready = []) (hwake : s.wake = some i)
      (hqueue : s.queue = []) (herror : s.error = false) (hfinished : s.finished = false)

structure Single (s : State) : Prop where
  failed : s.failed = true → s.error = true
  turn : Turn s

lemma Single.wakeUp (h : Single s) (hfailed : s'.failed = true → s'.error = true)
    (hwaiting : s'.waiting = s.waiting) (hready : s'.ready = s.ready) (hwake : s'.wake = s.wake) :
    Single s'.wakeUp := by
  cases h.turn with
  | free hw hr hk =>
    rw [State.wakeUp, hwake.trans hk]
    exact ⟨hfailed, .free (hwaiting.trans hw) (hready.trans hr) (hwake.trans hk)⟩
  | woken i hw hr hk =>
    rw [State.wakeUp, hwake.trans hk]
    exact ⟨hfailed, .woken i (hwaiting.trans hw) (hready.trans hr) (hwake.trans hk)⟩
  | waits i hw hr hk =>
    rw [State.wakeUp, hwake.trans hk]
    exact ⟨hfailed, .woken i (by simp [hwaiting, hw]) (by simp [hready, hr]) rfl⟩

lemma single_next (hfailed : s.failed = true → s.error = true) (hwaiting : s.waiting = [])
    (hready : s.ready = []) (hwake : s.wake = none) (i : ℕ) : Single (s.next i) := by
  unfold State.next
  split
  · exact ⟨hfailed, .free hwaiting hready hwake⟩
  · rename_i hqueue
    split_ifs with herror hfinished
    · exact ⟨hfailed, .free hwaiting hready hwake⟩
    · exact ⟨hfailed, .free hwaiting hready hwake⟩
    · exact ⟨hfailed, .waits i (by simp [hwaiting]) hready rfl hqueue (by simpa using herror)
        (by simpa using hfinished)⟩

/-- Where no call is pending nothing is to be woken. -/
lemma Single.wake (h : Single s) (hnone : s.waiting = [] ∧ s.ready = []) : s.wake = none := by
  cases h.turn with
  | free _ _ hwake | woken _ _ _ hwake => exact hwake
  | waits i hwaiting => exact absurd (hwaiting.symm.trans hnone.1) (by simp)

lemma Single.step (h : Single s) (ha : Alone s a) (hs : step s a = some s') : Single s' := by
  cases a with
  | emit =>
    cases hs
    exact h.wakeUp h.failed rfl rfl rfl
  | error truthy =>
    cases hs
    exact h.wakeUp (fun _ => ha) rfl rfl rfl
  | abort =>
    obtain ⟨-, rfl⟩ := of_not_guard hs
    exact h.wakeUp (fun _ => rfl) rfl rfl rfl
  | next =>
    cases hs
    exact single_next (s := { s with calls := s.calls + 1 }) h.failed ha.1 ha.2 (h.wake ha) _
  | close =>
    cases hs
    exact ⟨h.failed, .free ha.1 ha.2 (h.wake ha)⟩
  | resume =>
    simp only [EventIterator.step] at hs
    split at hs
    · rename_i i rest hrest
      cases hs
      cases h.turn with
      | free _ hready | waits _ _ hready => exact absurd (hready.symm.trans hrest) (by simp)
      | woken j hwaiting hready hwake =>
        obtain ⟨-, rfl⟩ := cons.inj (hready.symm.trans hrest)
        exact single_next (s := { s with ready := [] }) h.failed hwaiting rfl hwake i
    · cases hs

/-- Every event is returned once, in the order of the emissions. As long as calls of `next` and
`return` do not overlap, no call is left pending. -/
theorem iterator_settles (acts : List Act) (s : State) (hrun : run step {} acts = some s) :
    s.results.filterMap (fun r => r.2.event?) ++ s.queue = range s.emitted ∧
      (Obeys step Alone {} acts → s.ready = [] →
        s.finished = true ∨ s.failed = true ∨ s.queue ≠ [] → s.waiting = []) := by
  have hstart : InOrder {} := rfl
  have horder : InOrder s := run_invariant_all (fun _ _ _ h => h.step) hstart hrun
  refine ⟨horder, fun halone hquiet hover => ?_⟩
  have hfree : Single {} := ⟨by simp, .free rfl rfl rfl⟩
  have hsingle : Single s := run_invariant (fun _ _ _ h => h.step) hfree halone hrun
  cases hsingle.turn with
  | free hwaiting | woken i hwaiting => exact hwaiting
  | waits i hwaiting hready hwake hqueue herror hfinished =>
    rcases hover with hover | hover | hover
    · exact absurd (hfinished.symm.trans hover) (by simp)
    · exact absurd (herror.symm.trans (hsingle.failed hover)) (by simp)
    · exact absurd hqueue hover

def oneByOne : List Act := [.next, .emit, .resume, .next, .abort, .resume, .close]

theorem oneByOne_settles : ∃ s, run step {} oneByOne = some s ∧
    s.results = [(0, .event 0), (1, .thrown)] ∧ s.waiting = [] := by
  refine ⟨_, rfl, rfl, (iterator_settles oneByOne _ rfl).2 ?_ rfl (.inl rfl)⟩
  simp [oneByOne, Obeys, Alone, step, State.next, State.wakeUp, State.settle]

/-- A call waits for ever: after a second one, after `return`, and after an error that counts as
false. -/
theorem pending_for_ever :
    (∃ s, run step {} [.next, .next, .emit, .emit, .resume] = some s ∧ s.ready = [] ∧
      s.queue = [1] ∧ s.waiting = [0]) ∧
    (∃ s, run step {} [.next, .close] = some s ∧ s.ready = [] ∧ s.waiting = [0]) ∧
    ∃ s, run step {} [.next, .error false, .resume] = some s ∧ s.ready = [] ∧ s.failed = true ∧
      s.waiting = [0] :=
  ⟨⟨_, rfl, rfl, rfl, rfl⟩, ⟨_, rfl, rfl, rfl⟩, _, rfl, rfl, rfl, rfl⟩

end GoSpidermonkey.Nodejs.EventIterator
