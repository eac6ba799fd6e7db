import GoSpidermonkey.EventLoop.Run

/-!
# What a step does to timers and immediates

A step of the loop changes its timers in one of a few ways, and its immediates too (`moves_step`).
The invariants about timers and immediates are proved of these moves; whether a timer is visited,
called or cleared is the event of the step.
-/

namespace GoSpidermonkey.EventLoop

open Machine

/-- What happens to timers. -/
inductive TimerEvent where
  | called (id : ℕ)
  | skipped (id : ℕ)
  | cleared (id : ℕ)
  | taken
  | dropped
  deriving DecidableEq

def St.event (s : St) : Act → Option TimerEvent
  | .go =>
    match s.pc with
    | .timers (id :: _) =>
      some (if (s.loop.timer id).cleared then .skipped id else .called id)
    | _ => none
  | .guest (.clearTimer id) => some (.cleared id)
  | .takeDue _ => some .taken
  | .reset | .clearTimers => some .dropped
  | _ => none

def Act.fails : Act → Bool
  | .returned failed | .drained failed => failed
  | _ => false

/-- The part of the state that decides about timers. -/
structure TimerView where
  timer : ℕ → Timer
  timers : List ℕ
  rest : List ℕ
  current : Option ℕ
  calls : ℕ → ℕ
  ids : List ℕ
  dropped : List ℕ
  nextID : ℕ

def St.timerView (s : St) : TimerView :=
  ⟨s.loop.timer, s.loop.timers, s.pc.dueRest, s.pc.currentTimer, s.timerCalls, s.timerIds,
    s.dropped, s.loop.nextID⟩

/-- The same with the batch in which `ClearTimer` looks for a timer. -/
structure TimerSide extends TimerView where
  dueBatch : List ℕ

def St.side (s : St) : TimerSide := ⟨s.timerView, s.loop.dueBatch⟩

/-- An immediate is a one-shot timer. -/
def Immediate.timer (im : Immediate) : Timer := ⟨0, 0, im.fn, false, im.cleared, false⟩

lemma Immediate.timer_update (imm : ℕ → Immediate) (id : ℕ) (im : Immediate) :
    Immediate.timer ∘ Function.update imm id im
      = Function.update (Immediate.timer ∘ imm) id im.timer :=
  Function.comp_update _ _ _ _

/-- An immediate that was called is freed as a timer is. -/
lemma Immediate.timer_free (im : Immediate) :
    im.free.timer = { im.timer with
      running := false
      fn := im.timer.fn && !(im.timer.interval == 0 || im.timer.cleared) } := by
  simp [Immediate.timer, Immediate.free]

/-- The part of the state that decides about immediates. -/
def St.immSide (s : St) : TimerSide :=
  ⟨⟨Immediate.timer ∘ s.loop.immediate, s.loop.immediates, s.pc.immRest, s.pc.currentImm,
    s.immCalls, s.immIds, s.dropped, s.loop.nextID⟩, s.loop.batch⟩

/-- What a step does to the timers, with its event. If it failed, the timers that are left are not
visited. Immediates are only marked when they are cleared, and taken all at once. -/
inductive Move (marks failed : Bool) : Option TimerEvent → TimerSide → TimerSide → Prop where
  | same {v : TimerSide} : Move marks failed none v v
  /-- `SetTimerRef`. -/
  | unref {v : TimerSide} (id : ℕ) (b : Bool) :
      Move marks failed none v
        { v with timer := Function.update v.timer id { v.timer id with unref := b } }
  | bump {v : TimerSide} : Move marks failed none v { v with nextID := v.nextID + 1 }
  | set {v : TimerSide} {t : Timer} (hfn : t.fn = true) (hcleared : t.cleared = false)
      (hrunning : t.running = false) (hinterval : 0 ≤ t.interval) :
      Move marks failed none v { v with
        timer := Function.update v.timer (v.nextID + 1) t
        timers := v.timers ++ [v.nextID + 1]
        ids := (v.nextID + 1) :: v.ids
        nextID := v.nextID + 1 }
  | clear {v : TimerSide} {id : ℕ} (h : id ∈ v.timers ∨ id ∈ v.dueBatch) :
      Move marks failed (some (.cleared id)) v { v with
        timer := Function.update v.timer id
          { v.timer id with cleared := true, fn := (v.timer id).fn && (v.timer id).running }
        timers := v.timers.filter (· ≠ id) }
  | mark {v : TimerSide} (id : ℕ) (h : marks = true) :
      Move marks failed none v
        { v with timer := Function.update v.timer id { v.timer id with cleared := true } }
  | clearUnknown {v : TimerSide} {id : ℕ} (h : ¬ (id ∈ v.timers ∨ id ∈ v.dueBatch)) :
      Move marks failed (some (.cleared id)) v v
  | take {v : TimerSide} (now : ℤ) {due : List ℕ}
      (hdue : due.Perm (v.timers.filter fun id => (v.timer id).due ≤ now))
      (hrest : v.rest = []) (hcurrent : v.current = none) :
      Move marks failed (some .taken) v { v with
        timer := fun id => if id ∈ due then (v.timer id).take now else v.timer id
        timers := v.timers.filter fun id => id ∉ due ∨ 0 < (v.timer id).interval
        dueBatch := due
        rest := due }
  | takeAll {v : TimerSide} (h : marks = true) (honce : ∀ id, (v.timer id).interval = 0)
      (hrest : v.rest = []) (hcurrent : v.current = none) :
      Move marks failed none v { v with timers := [], dueBatch := v.timers, rest := v.timers }
  | skip {v : TimerSide} {id : ℕ} {rest : List ℕ} (hrest : v.rest = id :: rest)
      (hcurrent : v.current = none) (hcleared : (v.timer id).cleared = true) :
      Move marks failed (some (.skipped id)) v
        { v with timer := Function.update v.timer id (v.timer id).free, rest }
  | call {v : TimerSide} {id : ℕ} {rest : List ℕ} (hrest : v.rest = id :: rest)
      (hcurrent : v.current = none) (hcleared : (v.timer id).cleared = false) :
      Move marks failed (some (.called id)) v { v with
        rest, current := some id
        calls := Function.update v.calls id (v.calls id + 1) }
  | ended {v : TimerSide} {id : ℕ} (hcurrent : v.current = some id) :
      Move marks failed none v { v with
        timer := Function.update v.timer id
          { v.timer id with
            running := false
            fn := (v.timer id).fn && !((v.timer id).interval == 0 || (v.timer id).cleared) }
        rest := if failed then [] else v.rest
        current := none }
  | abandon {v : TimerSide} (h : failed = true) : Move marks failed none v { v with rest := [] }
  | finish {v : TimerSide} (hrest : v.rest = []) :
      Move marks failed none v { v with dueBatch := [] }
  /-- `ClearTimers` and `Reset`. -/
  | drop {v : TimerSide} {gone : List ℕ} (hrest : v.rest = []) (hcurrent : v.current = none)
      (hgone : v.timers ++ v.dropped ⊆ gone) :
      Move marks failed (some .dropped) v { v with
        timer := fun id =>
          if id ∈ v.timers ∨ id ∈ v.dueBatch then (v.timer id).free else v.timer id
        timers := []
        dueBatch := []
        dropped := gone }

/-- What a step does to both. -/
def St.Moves (failed : Bool) (e : Option TimerEvent) (s s' : St) : Prop :=
  Move false failed e s.side s'.side ∧ ∃ e, Move true failed e s.immSide s'.immSide

/-- Only what the timers are is left to compare. -/
lemma Move.of_timer {marks failed : Bool} {e : Option TimerEvent} {v v' : TimerSide}
    {timer : ℕ → Timer} (hm : Move marks failed e v { v' with timer }) (h : v'.timer = timer) :
    Move marks failed e v v' := by
  subst h
  exact hm

variable {s s' : St} {failed : Bool}

lemma clampDelay_nonneg (delay : ℤ) (rep : Bool) : 0 ≤ Loop.clampDelay delay rep := by
  simp only [Loop.clampDelay, Loop.millisecond]
  split_ifs <;> omega

lemma move_clearTimer (s : St) (id : ℕ) :
    Move false failed (some (.cleared id)) s.side
      { s with loop := s.loop.clearTimer id : St }.side := by
  rw [Loop.clearTimer]
  split_ifs with hmem hbatch
  · exact .clear (.inl hmem)
  · -- the timer is not armed, so the list of armed timers stays
    have hmove : Move false failed _ _ _ := Move.clear (v := s.side) (.inr hbatch)
    have hfilter : s.side.timers.filter (· ≠ id) = s.loop.timers :=
      List.filter_eq_self.mpr fun i hi => by simpa using fun h : i = id => hmem (h ▸ hi)
    rw [hfilter] at hmove
    exact hmove
  · exact .clearUnknown (not_or.mpr ⟨hmem, hbatch⟩)

lemma move_setTimerRef (s : St) (id : ℕ) (ref : Bool) :
    Move false failed none s.side
      { s with loop := s.loop.setTimerRef id ref : St }.side := by
  rw [Loop.setTimerRef]
  split_ifs
  · exact .unref id (!ref)
  · exact .same

lemma moves_guestCall (s : St) (c : GuestCall) :
    s.Moves failed (s.event (.guest c)) (s.guestCall c) := by
  cases c with
  | setTimer now delay rep =>
    refine ⟨.set rfl rfl rfl ?_, _, .bump⟩
    have := clampDelay_nonneg delay rep
    dsimp only
    split_ifs <;> omega
  | clearTimer id =>
    obtain ⟨timer, timers, hclear⟩ := s.loop.clearTimer_frame id
    refine ⟨move_clearTimer s id, none, ?_⟩
    simp only [St.guestCall, hclear]
    exact .same
  | setTimerRef id ref =>
    obtain ⟨timer, href⟩ := s.loop.setTimerRef_frame id ref
    refine ⟨move_setTimerRef s id ref, none, ?_⟩
    simp only [St.guestCall, href]
    exact .same
  | postImmediate =>
    have hset : Move true failed none s.immSide _ :=
      .set (t := Immediate.timer ⟨true, false⟩) rfl rfl rfl le_rfl
    refine ⟨.bump, none, hset.of_timer ?_⟩
    exact Immediate.timer_update _ _ _
  | clearImmediate id =>
    simp only [St.guestCall, Loop.clearImmediate]
    split_ifs
    · refine ⟨.same, none, .of_timer (.mark id rfl) ?_⟩
      exact Immediate.timer_update _ _ _
    · exact ⟨.same, _, .same⟩
  | unref | ref => exact ⟨.same, _, .same⟩

lemma moves_outside {o : Outside} (hs : s.outside o = some s') :
    s.Moves failed none s' := by
  cases o with
  | donePending op =>
    obtain ⟨-, rfl⟩ := of_guard hs
    exact ⟨.same, _, .same⟩
  | setTimerRef id ref =>
    cases hs
    obtain ⟨timer, href⟩ := s.loop.setTimerRef_frame id ref
    refine ⟨move_setTimerRef s id ref, none, ?_⟩
    simp only [href]
    exact .same
  | _ =>
    cases hs
    exact ⟨.same, _, .same⟩

lemma moves_go (hs : s.go = some s') :
    s.Moves failed (s.event .go) s' := by
  obtain ⟨loop, pc, _⟩ := s
  cases pc with
  | timers rest =>
    cases rest with
    | nil =>
      cases hs
      exact ⟨.finish rfl, _, .same⟩
    | cons id rest =>
      simp only [St.go] at hs
      simp only [St.event]
      split_ifs at hs with hcleared <;> cases hs
      · rw [if_pos hcleared]
        exact ⟨.skip rfl rfl hcleared, _, .same⟩
      · rw [if_neg hcleared]
        exact ⟨.call rfl rfl (Bool.eq_false_iff.mpr hcleared), _, .same⟩
  | posts =>
    simp only [St.go] at hs
    split at hs <;> cases hs <;> exact ⟨.same, _, .same⟩
  | postsDone =>
    cases hs
    exact ⟨.same, _, .takeAll rfl (fun _ => rfl) rfl rfl⟩
  | imms rest =>
    cases rest with
    | nil =>
      cases hs
      exact ⟨.same, _, .finish rfl⟩
    | cons id rest =>
      simp only [St.go] at hs
      split_ifs at hs with hcleared <;> cases hs
      · refine ⟨.same, _, .of_timer (.skip rfl rfl hcleared) ?_⟩
        exact Immediate.timer_update _ _ _
      · exact ⟨.same, _, .call rfl rfl (Bool.eq_false_iff.mpr hcleared)⟩
  | decided idle => cases idle <;> cases hs <;> exact ⟨.same, _, .same⟩
  | head | timersDone | evalIdle =>
    cases hs
    exact ⟨.same, _, .same⟩
  | _ => cases hs

lemma moves_returned (hs : s.returned failed = some s') :
    s.Moves failed none s' := by
  obtain ⟨loop, pc, _⟩ := s
  cases pc with
  | timerCall id rest =>
    cases hs
    cases failed <;> exact ⟨.ended rfl, _, .same⟩
  | immCall id rest =>
    cases hs
    have hfree := (Immediate.timer_update loop.immediate id _).trans
      (congrArg (Function.update _ id) (Immediate.timer_free (loop.immediate id)))
    cases failed <;> exact ⟨.same, _, .of_timer (.ended rfl) hfree⟩
  | postCall =>
    cases hs
    cases failed <;> exact ⟨.same, _, .same⟩
  | _ => cases hs

lemma moves_drained (hs : s.drained failed = some s') :
    s.Moves failed none s' := by
  obtain ⟨loop, pc, _⟩ := s
  cases pc with
  | timerDrain rest =>
    cases hs
    cases failed with
    | true => exact ⟨.abandon rfl, _, .same⟩
    | false => exact ⟨.same, _, .same⟩
  | immDrain rest =>
    cases hs
    cases failed with
    | true => exact ⟨.same, _, .abandon rfl⟩
    | false => exact ⟨.same, _, .same⟩
  | drain | postDrain =>
    cases hs
    cases failed <;> exact ⟨.same, _, .same⟩
  | _ => cases hs

lemma moves_drop {loop : Loop ℕ} (hs : s.drop loop = some s')
    (hloop : ∃ posts pending unrefPending,
      loop = { s.loop.clearTimers with posts, pending, unrefPending }) :
    s.Moves failed (some .dropped) s' := by
  obtain ⟨posts, pending, unrefPending, rfl⟩ := hloop
  rw [Loop.clearTimers_eq] at hs
  obtain ⟨loop, pc, _⟩ := s
  cases pc with
  | off last =>
    cases hs
    refine ⟨.drop rfl rfl (by simp [St.side, St.timerView]), _,
      .of_timer (.drop rfl rfl (by simp [St.immSide])) ?_⟩
    exact funext fun id => apply_ite Immediate.timer _ _ _
  | _ => cases hs

/-- What every step does to timers and immediates. -/
theorem moves_step {a : Act} (hs : s.step a = some s') :
    s.Moves a.fails (s.event a) s' := by
  cases a with
  | go => exact moves_go hs
  | returned failed => exact moves_returned hs
  | drained failed => exact moves_drained hs
  | outside o => exact moves_outside hs
  | guest c =>
    obtain ⟨-, rfl⟩ := of_guard hs
    exact moves_guestCall s c
  | takeDue now =>
    obtain ⟨hpc, rfl⟩ := of_guard hs
    obtain ⟨loop, pc, _⟩ := s
    cases hpc
    exact ⟨.take now (List.perm_insertionSort _ _) rfl rfl, _, .same⟩
  | reset | clearTimers => exact moves_drop hs ⟨_, _, _, rfl⟩
  | run hasStop =>
    obtain ⟨loop, pc, _⟩ := s
    cases pc with
    | off last =>
      cases hs
      exact ⟨.same, _, .same⟩
    | _ => cases hs
  | stop =>
    obtain ⟨hcheck, rfl⟩ := of_guard hs
    obtain ⟨loop, pc, _⟩ := s
    cases pc with
    | head | drained | timersDone | postsDone | decided => exact ⟨.same, _, .same⟩
    | _ => exact absurd hcheck.2 (by simp [Pc.stopCheck])
  | ctxDone =>
    obtain ⟨hpc, rfl⟩ := of_guard hs
    obtain ⟨loop, pc, _⟩ := s
    rcases hpc with rfl | rfl <;> exact ⟨.same, _, .same⟩
  | recv | tick =>
    obtain ⟨⟨hpc, -⟩, rfl⟩ := of_guard hs
    obtain ⟨loop, pc, _⟩ := s
    cases hpc
    exact ⟨.same, _, .same⟩
  | wakeup =>
    obtain ⟨-, rfl⟩ := of_guard hs
    exact ⟨.same, _, .same⟩

end GoSpidermonkey.EventLoop
