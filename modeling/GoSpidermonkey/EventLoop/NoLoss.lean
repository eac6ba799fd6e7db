import GoSpidermonkey.EventLoop.Slot

/-!
# No timer and no immediate is lost

A one-shot timer or an immediate that nobody clears is scheduled until its callback is called, once,
and a callback that is not called again is freed by the time the loop is idle. While the timers
phase runs, its entries are no longer in the map but only in the list the loop has still to visit; a
callback or a drain that fails in the middle of that list loses the rest of it
(`lost_after_failure`). `no_loss` says that this is the only way: in every run in which failures
happen at the last entry of a batch, nothing is lost and nothing leaks.
-/

namespace GoSpidermonkey.EventLoop

/-! ### Steps and runs -/

/-- A callback or a drain fails only at the last entry of the batch it belongs to. -/
def FailsLast (s : St) (a : Act) : Prop :=
  a = .returned true ∨ a = .drained true → s.pc.dueRest = [] ∧ s.pc.immRest = []

instance (s : St) (a : Act) : Decidable (FailsLast s a) :=
  inferInstanceAs (Decidable
    (a = .returned true ∨ a = .drained true → s.pc.dueRest = [] ∧ s.pc.immRest = []))

structure Slots (marks : Bool) (v : TimerView) : Prop where
  listed : Listed v
  ok : ∀ id, (v.slot id).OK marks

/-- What a run keeps in which no failure loses a batch. -/
structure Kept (s : St) : Prop where
  timers : Slots false s.timerView
  imms : Slots true s.immSide.toTimerView

lemma kept_init : Kept St.init := by
  refine ⟨⟨?_, fun id => ?_⟩, ⟨?_, fun id => ?_⟩⟩
  all_goals
    constructor <;>
      simp [St.init, St.timerView, St.immSide, Immediate.timer, TimerView.slot, Loop.new,
        Pc.dueRest, Pc.currentTimer, Pc.immRest, Pc.currentImm]

lemma Kept.step {s s' : St} {a : Act} (h : Kept s) (hG : FailsLast s a) (hs : s.step a = some s') :
    Kept s' := by
  have hlast : a.fails = true → s.pc.dueRest = [] ∧ s.pc.immRest = [] := by
    intro hfails
    cases a with
    | returned failed => exact hG (.inl (congrArg Act.returned hfails))
    | drained failed => exact hG (.inr (congrArg Act.drained hfails))
    | _ => cases hfails
  obtain ⟨htimers, _, himms⟩ := moves_step hs
  refine ⟨⟨htimers.listed h.timers.listed, fun id => ?_⟩,
    ⟨himms.listed h.imms.listed, fun id => ?_⟩⟩
  · refine (h.timers.ok id).move (fun hfails => ?_) (htimers.slot h.timers.listed id)
    simp [TimerView.slot, St.timerView, (hlast hfails).1]
  · refine (h.imms.ok id).move (fun hfails => ?_) (himms.slot h.imms.listed id)
    simp [TimerView.slot, Immediate.timer, St.immSide, (hlast hfails).2]

namespace St

variable (s : St)

/-- A timer that a later turn, or the rest of this one, will call. -/
def TimerScheduled (id : ℕ) : Prop := id ∈ s.loop.timers ∨ id ∈ s.pc.dueRest

def ImmScheduled (id : ℕ) : Prop := id ∈ s.loop.immediates ∨ id ∈ s.pc.immRest

/-- What was set, not cleared and not dropped is scheduled, or was called once. -/
structure NoneLost : Prop where
  timer : ∀ id ∈ s.timerIds, (s.loop.timer id).interval = 0 → (s.loop.timer id).cleared = false →
    id ∉ s.dropped →
      s.TimerScheduled id ∧ s.timerCalls id = 0 ∨ ¬ s.TimerScheduled id ∧ s.timerCalls id = 1
  immediate : ∀ id ∈ s.immIds, (s.loop.immediate id).cleared = false → id ∉ s.dropped →
    s.ImmScheduled id ∧ s.immCalls id = 0 ∨ ¬ s.ImmScheduled id ∧ s.immCalls id = 1

/-- When the loop is found idle, the handles of what will not be called again are freed. -/
structure NoneLeaked : Prop where
  timer : s.pc = .evalIdle → s.loop.Idle → ∀ id ∈ s.timerIds,
    (s.loop.timer id).cleared ∨ (s.loop.timer id).interval = 0 ∧ 0 < s.timerCalls id →
      (s.loop.timer id).fn = false
  immediate : s.pc = .evalIdle → s.loop.Idle → ∀ id ∈ s.immIds,
    (s.loop.immediate id).cleared ∨ 0 < s.immCalls id → (s.loop.immediate id).fn = false

end St

lemma Kept.noneLost {s : St} (h : Kept s) : s.NoneLost where
  timer := by
    intro id hid hi hc hd
    have := (h.timers.ok id).oneShot hid hi hc hd
    simp only [St.TimerScheduled]
    simp only [TimerView.slot, St.timerView] at this
    tauto
  immediate := by
    intro id hid hc hd
    have := (h.imms.ok id).oneShot hid rfl hc hd
    simp only [St.ImmScheduled]
    simp only [TimerView.slot, St.immSide] at this
    tauto

lemma Kept.noneLeaked {s : St} (h : Kept s) : s.NoneLeaked where
  timer := by
    intro hpc _ id _ hdone
    by_contra hfn
    -- a handle that is still held is that of an armed timer
    have harmed : id ∈ s.loop.timers := by
      have := (h.timers.ok id).held (by simpa [TimerView.slot, St.timerView] using hfn)
      simpa [TimerView.slot, St.timerView, hpc, Pc.dueRest, Pc.currentTimer] using this
    rcases hdone with hc | ⟨hi, hcalls⟩
    · have hnot : (s.loop.timer id).cleared = false := (h.timers.ok id).armed rfl harmed
      simp [hnot] at hc
    · have hzero : s.timerCalls id = 0 := (h.timers.ok id).uncalled harmed hi
      omega
  immediate := by
    intro hpc hidle id _ _
    by_contra hfn
    have := (h.imms.ok id).held (by simpa [TimerView.slot, Immediate.timer, St.immSide] using hfn)
    simp [TimerView.slot, Immediate.timer, St.immSide, hpc, hidle.2.2.2, Pc.immRest,
      Pc.currentImm] at this

/-- In every run in which callbacks and drains fail only at the last entry of a batch, nothing is
lost and nothing leaks. -/
theorem no_loss {acts : List Act} {s : St} (hG : Machine.Obeys St.step FailsLast St.init acts)
    (hrun : Machine.run St.step St.init acts = some s) : s.NoneLost ∧ s.NoneLeaked := by
  have h : Kept s :=
    Machine.run_invariant (I := Kept) (fun _ _ _ h hG hs => h.step hG hs) kept_init hG hrun
  exact ⟨h.noneLost, h.noneLeaked⟩

/-! ### Two timers that are due together -/

def twoDue : List Act :=
  [.guest (.setTimer 0 0 false), .guest (.setTimer 0 0 false), .run false, .go, .drained false,
    .takeDue 1, .go]

def firstFails : List Act :=
  twoDue ++ [.returned true, .run false, .go, .drained false, .takeDue 2, .go, .go, .go, .go, .go]

def secondFails : List Act :=
  twoDue ++ [.returned false, .drained false, .go, .returned true]

/-- The second timer is neither scheduled nor called, although the loop is idle. -/
theorem lost_after_failure :
    ∃ s, Machine.run St.step St.init firstFails = some s ∧ s.pc = .evalIdle ∧ s.loop.Idle ∧
      ¬ s.NoneLost := by
  have hview : (Machine.run St.step St.init firstFails).map (fun s =>
      (s.pc, decide s.loop.Idle, s.timerIds, (s.loop.timer 2).interval, (s.loop.timer 2).cleared))
      = some (.evalIdle, true, [2, 1], 0, false) := by decide
  have hlost : (Machine.run St.step St.init firstFails).map (fun s =>
      (s.dropped, s.loop.timers, s.timerCalls 2)) = some ([], [], 0) := by decide
  obtain ⟨s, hs⟩ : ∃ s, Machine.run St.step St.init firstFails = some s :=
    Option.isSome_iff_exists.mp (by decide)
  simp only [hs, Option.map_some, Option.some.injEq, Prod.mk.injEq, decide_eq_true_eq]
    at hview hlost
  obtain ⟨hpc, hidle, hids, hint, hcl⟩ := hview
  obtain ⟨hd, htimers, hcalls⟩ := hlost
  refine ⟨s, hs, hpc, hidle, fun h => ?_⟩
  have := h.timer 2 (by simp [hids]) hint hcl (by simp [hd])
  simp [St.TimerScheduled, hpc, Pc.dueRest, htimers, hcalls] at this

theorem no_loss_secondFails :
    ∃ s, Machine.run St.step St.init secondFails = some s ∧ s.timerCalls 2 = 1 ∧ s.NoneLost ∧
      s.NoneLeaked := by
  have hG : Machine.Obeys St.step FailsLast St.init secondFails := by decide
  have hcalls : (Machine.run St.step St.init secondFails).map (·.timerCalls 2) = some 1 := by decide
  obtain ⟨s, hs⟩ : ∃ s, Machine.run St.step St.init secondFails = some s :=
    Option.isSome_iff_exists.mp (by decide)
  exact ⟨s, hs, by simpa [hs] using hcalls, no_loss hG hs⟩

end GoSpidermonkey.EventLoop
