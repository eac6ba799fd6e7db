import GoSpidermonkey.EventLoop.Slot
import GoSpidermonkey.Lib.Log

/-!
# The timers phase

A turn of the loop takes the timers that are due and calls their callbacks one after another. The
callbacks set and clear timers, those of this turn included. The phase visits every timer it took
once, in the order of due time and id, and calls its callback unless the timer was cleared before
(`timers_phase`). The handle of a callback is held at each call, and once it is freed it stays so,
in every run and whatever fails in it.
-/

namespace GoSpidermonkey.EventLoop

open List Machine

namespace TimerEvent

def slot : TimerEvent → Option ℕ
  | .called id | .skipped id => some id
  | _ => none

def call : TimerEvent → Option ℕ
  | .called id => some id
  | _ => none

end TimerEvent

/-! ### Handles -/

/-- What every run keeps of the timers. -/
structure Held (v : TimerSide) : Prop where
  listed : Listed v.toTimerView
  safe : ∀ id, (v.slot id).Safe

variable {e : Option TimerEvent} {v v' : TimerSide} {failed : Bool} {id : ℕ} {acts : List Act}
  {s s' : St} {a : Act}

lemma Held.move (h : Held v) (hmove : Move false failed e v v') : Held v' where
  listed := hmove.listed h.listed
  safe := fun id => (h.safe id).move (hmove.slot h.listed id)

lemma held_init : Held St.init.side := by
  refine ⟨?_, fun id => ?_⟩ <;> constructor <;>
    simp [St.side, St.timerView, TimerView.slot, St.init, Loop.new, Pc.dueRest, Pc.currentTimer]

lemma held_of_run (hrun : Machine.run St.step St.init acts = some s) : Held s.side :=
  run_invariant_all (I := fun s => Held s.side) (fun _ _ _ h hs => h.move (moves_step hs).1)
    held_init hrun

lemma read_update {β : Type} (f : Timer → β) {timer : ℕ → Timer} {i id : ℕ} {t : Timer}
    (h : i = id → f t = f (timer i)) : f (Function.update timer i t id) = f (timer id) := by
  by_cases heq : id = i
  · subst heq
    rw [Function.update_self]
    exact h rfl
  · rw [Function.update_of_ne heq]

lemma Move.visits {e : TimerEvent}
    (hmove : Move false failed (some e) v v')
    (he : e.slot = some id) :
    id ∈ v.rest ∧ e = if (v.timer id).cleared then .skipped id else .called id := by
  cases hmove with
  | skip hrest hcurrent hcleared =>
    obtain rfl := Option.some.inj he
    exact ⟨hrest ▸ mem_cons_self, by rw [if_pos hcleared]⟩
  | call hrest hcurrent hcleared =>
    obtain rfl := Option.some.inj he
    exact ⟨hrest ▸ mem_cons_self, by rw [if_neg (Bool.eq_false_iff.mp hcleared)]⟩
  | _ => cases he

/-- The handle of the timer's callback is freed. -/
def Freed (s s' : St) (id : ℕ) : Prop :=
  (s.loop.timer id).fn = true ∧ (s'.loop.timer id).fn = false

/-- A callback is called while its handle is held, and once the handle is freed it is neither called
nor freed again. -/
def HandlesSafe : Prop :=
  ∀ (acts : List Act) (s s' : St) (a : Act), Machine.run St.step St.init acts = some s →
    s.step a = some s' → ∀ id,
      (s.event a = some (.called id) → (s.loop.timer id).fn = true) ∧
      (Freed s s' id → ∀ (later : List Act) (t t' : St) (b : Act),
        Machine.run St.step s' later = some t → t.step b = some t' →
        t.event b ≠ some (.called id) ∧ ¬ Freed t t' id)

lemma fn_of_called
    (hrun : Machine.run St.step St.init acts = some s) (hs : s.step a = some s')
    (he : s.event a = some (.called id)) : (s.loop.timer id).fn = true := by
  have hmove := (moves_step hs).1
  rw [he] at hmove
  exact (((held_of_run hrun).safe id).taken (.inl (hmove.visits rfl).1)).1

lemma handlesSafe : HandlesSafe := by
  intro acts s s' a hrun hs id
  refine ⟨fn_of_called hrun hs, ?_⟩
  rintro ⟨hfn, hfreed⟩ later t t' b hlater ht
  have hheld := held_of_run hrun
  have hslot := (moves_step hs).1.slot hheld.listed id
  have hused : id ∈ s.timerIds := (hheld.safe id).used (.inr (.inr (.inr hfn)))
  -- the handle stays freed from here on
  have hstep : ∀ (t : St) (b : Act) (t' : St),
      Held t.side ∧ id ∈ t.timerIds ∧ (t.loop.timer id).fn = false → t.step b = some t' →
      Held t'.side ∧ id ∈ t'.timerIds ∧ (t'.loop.timer id).fn = false := by
    rintro t b t' ⟨h, hused, hfn⟩ ht
    have hslot := (moves_step ht).1.slot h.listed id
    exact ⟨h.move (moves_step ht).1, hslot.used hused, hslot.unheld hused hfn⟩
  obtain ⟨-, -, hfn⟩ := run_invariant_all hstep
    ⟨hheld.move (moves_step hs).1, hslot.used hused, hfreed⟩ hlater
  have hwhole : Machine.run St.step St.init (acts ++ a :: later) = some t := by
    rw [run_append, hrun, Option.bind_some, run_cons, hs]
    exact hlater
  constructor
  · intro he
    simp [fn_of_called hwhole ht he] at hfn
  · rintro ⟨hfn', -⟩
    simp [hfn'] at hfn

/-! ### The phase -/

def Pc.inTimers : Pc → Bool
  | .timers _ | .timerCall _ _ | .timerDrain _ => true
  | _ => false

def phaseStep (x : St × List TimerEvent) (a : Act) : Option (St × List TimerEvent) :=
  if x.1.pc.inTimers then (x.1.step a).map fun s' => (s', x.2 ++ (x.1.event a).toList) else none

def clearedBefore (es : List TimerEvent) (id : ℕ) : Bool :=
  .cleared id ∈ es.takeWhile fun e => e.slot ≠ some id

/-- How a step of the phase goes on: in the phase, after it, or, if it failed, out of the loop. -/
inductive PhaseCase (s : St) (a : Act) (s' : St) : Prop where
  | goesOn (hpc : s'.pc.inTimers = true) (hbatch : s'.loop.dueBatch = s.loop.dueBatch)
      (hrest : s.pc.dueRest = ((s.event a).bind TimerEvent.slot).toList ++ s'.pc.dueRest)
  | ends (hpc : s'.pc = .timersDone) (hrest : s.pc.dueRest = []) (hevent : s.event a = none)
  | fails (hpc : ∃ last, s'.pc = .off last) (hfails : a.fails = true) (hevent : s.event a = none)

section

variable (hin : s.pc.inTimers = true)
include hin

lemma phaseCase_go (hs : s.go = some s') : PhaseCase s .go s' := by
  obtain ⟨loop, pc, _⟩ := s
  cases pc with
  | timers rest =>
    cases rest with
    | nil =>
      obtain rfl := Option.some.inj hs
      exact .ends rfl rfl rfl
    | cons id rest =>
      simp only [St.go] at hs
      split at hs
      · rename_i hcleared
        obtain rfl := Option.some.inj hs
        exact .goesOn rfl rfl (by simp [St.event, hcleared, TimerEvent.slot, Pc.dueRest])
      · rename_i hcleared
        obtain rfl := Option.some.inj hs
        exact .goesOn rfl rfl (by simp [St.event, hcleared, TimerEvent.slot, Pc.dueRest])
  | timerCall | timerDrain => cases hs
  | _ => cases hin

lemma phaseCase_returned (hs : s.returned failed = some s') :
    PhaseCase s (.returned failed) s' := by
  obtain ⟨loop, pc, _⟩ := s
  cases pc with
  | timerCall id rest =>
    obtain rfl := Option.some.inj hs
    cases failed with
    | true => exact .fails ⟨_, rfl⟩ rfl rfl
    | false => exact .goesOn rfl rfl rfl
  | timers | timerDrain => cases hs
  | _ => cases hin

lemma phaseCase_drained (hs : s.drained failed = some s') : PhaseCase s (.drained failed) s' := by
  obtain ⟨loop, pc, _⟩ := s
  cases pc with
  | timerDrain rest =>
    obtain rfl := Option.some.inj hs
    cases failed with
    | true => exact .fails ⟨_, rfl⟩ rfl rfl
    | false => exact .goesOn rfl rfl rfl
  | timers | timerCall => cases hs
  | _ => cases hin

lemma phaseCase_guest (c : GuestCall) : PhaseCase s (.guest c) (s.guestCall c) := by
  cases c with
  | clearTimer id =>
    obtain ⟨timer, timers, hclear⟩ := s.loop.clearTimer_frame id
    exact .goesOn hin (by simp [St.guestCall, hclear]) rfl
  | setTimerRef id ref =>
    obtain ⟨timer, href⟩ := s.loop.setTimerRef_frame id ref
    exact .goesOn hin (by simp [St.guestCall, href, Loop.wakeup]) rfl
  | clearImmediate id =>
    obtain ⟨immediate, himm⟩ := s.loop.clearImmediate_frame id
    exact .goesOn hin (by simp [St.guestCall, himm]) rfl
  | setTimer | postImmediate | unref | ref => exact .goesOn hin rfl rfl

lemma phaseCase_outside {o : Outside}
    (hs : s.outside o = some s') : PhaseCase s (.outside o) s' := by
  cases o with
  | donePending op =>
    simp only [St.outside] at hs
    split at hs
    · obtain rfl := Option.some.inj hs
      exact .goesOn hin rfl rfl
    · cases hs
  | setTimerRef id ref =>
    obtain rfl := Option.some.inj hs
    obtain ⟨timer, href⟩ := s.loop.setTimerRef_frame id ref
    exact .goesOn hin (by simp [href]) rfl
  | post | addPending | unref =>
    obtain rfl := Option.some.inj hs
    exact .goesOn hin rfl rfl

lemma step_inTimers
    (ha : a ∈ [.stop, .ctxDone, .recv, .tick, .reset, .clearTimers] ∨ (∃ b, a = .run b) ∨
      ∃ now, a = .takeDue now) : s.step a = none := by
  obtain ⟨loop, pc, _⟩ := s
  cases pc with
  | timers | timerCall | timerDrain =>
    rcases ha with ha | ⟨b, rfl⟩ | ⟨now, rfl⟩
    · fin_cases ha <;> simp [St.step, St.drop, Pc.stopCheck]
    · rfl
    · simp [St.step]
  | _ => cases hin

lemma phase_cases (hs : s.step a = some s') :
    s.event a ≠ some .taken ∧ s.event a ≠ some .dropped ∧ PhaseCase s a s' := by
  have hnot := fun ha => (step_inTimers hin ha).symm.trans hs
  have hnone (e : TimerEvent) : none ≠ some e := (Option.some_ne_none e).symm
  cases a with
  | go =>
    have hvisit : ∀ e, s.event .go = some e → e.slot ≠ none := by
      intro e he
      simp only [St.event] at he
      split at he
      · obtain rfl := Option.some.inj he
        split_ifs <;> exact Option.some_ne_none _
      · cases he
    exact ⟨fun he => hvisit _ he rfl, fun he => hvisit _ he rfl, phaseCase_go hin hs⟩
  | returned failed => exact ⟨hnone _, hnone _, phaseCase_returned hin hs⟩
  | drained failed => exact ⟨hnone _, hnone _, phaseCase_drained hin hs⟩
  | outside o => exact ⟨hnone _, hnone _, phaseCase_outside hin hs⟩
  | guest c =>
    simp only [St.step] at hs
    split at hs
    · obtain rfl := Option.some.inj hs
      refine ⟨?_, ?_, phaseCase_guest hin c⟩
      · cases c <;> simp [St.event]
      · cases c <;> simp [St.event]
    · cases hs
  | wakeup =>
    simp only [St.step] at hs
    split at hs
    · obtain rfl := Option.some.inj hs
      exact ⟨hnone _, hnone _, .goesOn hin rfl rfl⟩
    · cases hs
  | run hasStop => cases hnot (.inr (.inl ⟨_, rfl⟩))
  | takeDue now => cases hnot (.inr (.inr ⟨_, rfl⟩))
  | _ => cases hnot (.inl (by simp))

end

/-- The timers that are cleared are those that `ClearTimer` found. -/
lemma Move.cleared_iff
    (hmove : Move false failed e v v')
    (h : Listed v.toTimerView) (hused : id ∈ v.ids) (hknown : id ∈ v.timers ∨ id ∈ v.dueBatch) :
    (v'.timer id).cleared = true ↔ (v.timer id).cleared = true ∨ e = some (.cleared id) := by
  have hupdate := @read_update _ Timer.cleared v.timer
  have hkeep : ∀ {b : Bool}, b = (v.timer id).cleared → e ≠ some (.cleared id) →
      (b = true ↔ (v.timer id).cleared = true ∨ e = some (.cleared id)) := by
    rintro _ rfl he
    simp [he]
  cases hmove with
  | same | call | abandon | finish | bump => exact hkeep rfl nofun
  | unref | skip | ended => exact hkeep (hupdate fun _ => rfl) nofun
  | set => exact hkeep (hupdate fun heq => absurd (heq ▸ hused) h.new) nofun
  | @clear _ i _ =>
    by_cases heq : id = i
    · subst heq
      simp
    · exact hkeep (hupdate fun h => absurd h.symm heq) (by simpa using Ne.symm heq)
  | @clearUnknown _ i hunknown =>
    have hne : i ≠ id := fun heq => hunknown (heq ▸ hknown)
    exact hkeep rfl (by simpa using hne)
  | mark id hmarks | takeAll hmarks => cases hmarks
  | take now =>
    refine hkeep ?_ nofun
    dsimp only
    split_ifs
    · rfl
    · rfl
  | drop =>
    refine hkeep ?_ nofun
    dsimp only
    rw [if_pos hknown]
    rfl

lemma Move.armed
    (hmove : Move false failed e v v')
    (h : Listed v.toTimerView) (hused : id ∈ v.ids) (hcleared : e ≠ some (.cleared id))
    (htaken : e ≠ some .taken)
    (hdropped : e ≠ some .dropped) (hmem : id ∈ v.timers) :
    id ∈ v'.timers ∧ (v'.timer id).due = (v.timer id).due := by
  have hupdate := @read_update _ Timer.due v.timer
  cases hmove with
  | same | call | abandon | finish | bump | clearUnknown => exact ⟨hmem, rfl⟩
  | unref | skip | ended => exact ⟨hmem, hupdate fun _ => rfl⟩
  | set => exact ⟨mem_append_left _ hmem, hupdate fun heq => absurd (heq ▸ hused) h.new⟩
  | @clear _ i _ =>
    have hne : id ≠ i := fun heq => hcleared (heq ▸ rfl)
    exact ⟨mem_filter.mpr ⟨hmem, by simpa using hne⟩, hupdate fun _ => rfl⟩
  | mark id hmarks | takeAll hmarks => cases hmarks
  | take => exact absurd rfl htaken
  | drop => exact absurd rfl hdropped

/-- What the log says of a visit. -/
def ClearedFirst : TimerEvent → List TimerEvent → Prop
  | .called id, before => .cleared id ∉ before
  | .skipped id, before => .cleared id ∈ before
  | _, _ => True

/-- The phase that began in the state `s` at the time `now`. -/
structure InPhase (s : St) (now : ℤ) (x : St × List TimerEvent) : Prop where
  held : Held x.1.side
  due_used : ∀ id ∈ s.loop.dueTimers now, id ∈ x.1.timerIds
  seen : x.2.filterMap TimerEvent.slot <+: s.loop.dueTimers now
  unseen : x.1.pc.inTimers = true →
    x.2.filterMap TimerEvent.slot ++ x.1.pc.dueRest = s.loop.dueTimers now
  all : x.1.pc = .timersDone → x.2.filterMap TimerEvent.slot = s.loop.dueTimers now
  batch : x.1.pc.inTimers = true → x.1.loop.dueBatch = s.loop.dueTimers now
  cleared : ∀ id ∈ s.loop.dueTimers now, (x.1.loop.timer id).cleared = true ↔ .cleared id ∈ x.2
  logged : Log.AtEach ClearedFirst x.2
  rearmed : ∀ id ∈ s.loop.dueTimers now, 0 < (s.loop.timer id).interval → .cleared id ∉ x.2 →
    id ∈ x.1.loop.timers ∧ (x.1.loop.timer id).due = now + (s.loop.timer id).interval

lemma mem_dueTimers {l : Loop ℕ} {now : ℤ} :
    id ∈ l.dueTimers now ↔ id ∈ l.timers ∧ (l.timer id).due ≤ now := by
  simp [Loop.dueTimers]

namespace InPhase

lemma start {acts : List Act} {s s₀ : St} {now : ℤ}
    (hrun : Machine.run St.step St.init acts = some s) (hs : s.step (.takeDue now) = some s₀) :
    InPhase s now (s₀, []) := by
  have hheld := held_of_run hrun
  have hstart := hheld.move (moves_step hs).1
  simp only [St.step] at hs
  split at hs
  · obtain rfl := Option.some.inj hs
    constructor
    case held => exact hstart
    case due_used => exact fun id hid => hheld.listed.timers_ids (mem_dueTimers.mp hid).1
    case seen => exact nil_prefix
    case unseen => exact fun _ => rfl
    case all => exact fun hpc => nomatch hpc
    case batch => exact fun _ => rfl
    case cleared =>
      intro id hid
      have hcleared : (s.loop.timer id).cleared = false :=
        ((hheld.safe id).armed (mem_dueTimers.mp hid).1).2
      simp [Loop.takeDue, hid, Timer.take, hcleared]
    case logged => exact Log.atEach_nil _
    case rearmed =>
      intro id hid hinterval _
      simp [Loop.takeDue, hid, Timer.take, hinterval, (mem_dueTimers.mp hid).1]
  · cases hs

variable {s : St} {now : ℤ} {x y : St × List TimerEvent}

lemma clearedFirst (h : InPhase s now x) (hin : x.1.pc.inTimers = true) {e : TimerEvent}
    {failed : Bool} {v : TimerSide} (hmove : Move false failed (some e) x.1.side v) :
    ClearedFirst e x.2 := by
  have hvisit : ∀ id, e.slot = some id →
      ((x.1.loop.timer id).cleared = true ↔ .cleared id ∈ x.2) := by
    intro id he
    refine h.cleared id ?_
    rw [← h.unseen hin]
    exact mem_append_right _ (hmove.visits he).1
  cases e with
  | called id =>
    have hcase := (hmove.visits rfl).2
    split_ifs at hcase with hcleared
    exact fun hbefore => hcleared ((hvisit id rfl).mpr hbefore)
  | skipped id =>
    have hcase := (hmove.visits rfl).2
    split_ifs at hcase with hcleared
    exact (hvisit id rfl).mp hcleared
  | cleared | taken | dropped => trivial

lemma step (h : InPhase s now x) {a : Act} (hs : phaseStep x a = some y) : InPhase s now y := by
  obtain ⟨t, es⟩ := x
  rw [phaseStep] at hs
  split_ifs at hs with hin
  obtain ⟨t', ht, rfl⟩ := Option.map_eq_some_iff.mp hs
  obtain ⟨htaken, hdropped, hcase⟩ := phase_cases hin ht
  have hmove := (moves_step ht).1
  have hmem : ∀ e, e ∈ es ++ (t.event a).toList ↔ e ∈ es ∨ t.event a = some e := by
    intro e
    simp [Option.mem_toList]
  have hslots : (es ++ (t.event a).toList).filterMap TimerEvent.slot =
      es.filterMap TimerEvent.slot ++ ((t.event a).bind TimerEvent.slot).toList := by
    rw [filterMap_append]
    cases t.event a with
    | none => rfl
    | some e => cases he : e.slot <;> simp [he]
  have hunseen : es.filterMap TimerEvent.slot ++ t.pc.dueRest = s.loop.dueTimers now := h.unseen hin
  have hbatch : t.loop.dueBatch = s.loop.dueTimers now := h.batch hin
  constructor
  case held => exact h.held.move hmove
  case due_used => exact fun id hid => (hmove.slot h.held.listed id).used (h.due_used id hid)
  case seen =>
    rw [hslots, ← hunseen]
    cases hcase with
    | goesOn hpc hbatch hrest =>
      rw [hrest, ← append_assoc]
      exact prefix_append _ _
    | ends hpc hrest hevent => simp [hevent, hrest]
    | fails hpc hfails hevent => simp [hevent]
  case unseen =>
    intro hpc'
    dsimp only at hpc' ⊢
    cases hcase with
    | goesOn hpc hbatch hrest => rw [hslots, append_assoc, ← hrest, hunseen]
    | ends hpc hrest hevent => simp [hpc, Pc.inTimers] at hpc'
    | fails hpc hfails hevent =>
      obtain ⟨last, hpc⟩ := hpc
      simp [hpc, Pc.inTimers] at hpc'
  case all =>
    intro hpc'
    dsimp only at hpc' ⊢
    cases hcase with
    | goesOn hpc hbatch hrest => simp [hpc', Pc.inTimers] at hpc
    | ends hpc hrest hevent => simpa [hslots, hevent, hrest] using hunseen
    | fails hpc hfails hevent =>
      obtain ⟨last, hpc⟩ := hpc
      simp [hpc] at hpc'
  case batch =>
    intro hpc'
    dsimp only at hpc' ⊢
    cases hcase with
    | goesOn hpc hsame hrest => exact hsame.trans hbatch
    | ends hpc hrest hevent => simp [hpc, Pc.inTimers] at hpc'
    | fails hpc hfails hevent =>
      obtain ⟨last, hpc⟩ := hpc
      simp [hpc, Pc.inTimers] at hpc'
  case cleared =>
    intro id hid
    have hknown : id ∈ t.loop.dueBatch := hbatch.symm ▸ hid
    have hiff := hmove.cleared_iff h.held.listed (h.due_used id hid) (.inr hknown)
    exact hiff.trans ((or_congr_left (h.cleared id hid)).trans (hmem _).symm)
  case logged =>
    cases he : t.event a with
    | none => simpa using h.logged
    | some e => exact Log.atEach_snoc h.logged (h.clearedFirst hin (he ▸ hmove))
  case rearmed =>
    intro id hid hinterval hclear
    rw [hmem, not_or] at hclear
    obtain ⟨harmed, hdue⟩ := h.rearmed id hid hinterval hclear.1
    obtain ⟨harmed', hdue'⟩ := hmove.armed h.held.listed (h.due_used id hid) hclear.2
      htaken hdropped harmed
    exact ⟨harmed', hdue'.trans hdue⟩

lemma step_ends {a : Act} (ha : a.fails = false) (hs : phaseStep x a = some y) :
    y.1.pc.inTimers = true ∨ y.1.pc = .timersDone := by
  rw [phaseStep] at hs
  split_ifs at hs with hin
  obtain ⟨t', ht, rfl⟩ := Option.map_eq_some_iff.mp hs
  cases (phase_cases hin ht).2.2 with
  | goesOn hpc => exact .inl hpc
  | ends hpc => exact .inr hpc
  | fails hpc hfails => simp [ha] at hfails

lemma calls (h : InPhase s now x) (hheld : (s.loop.dueTimers now).Nodup) :
    x.2.filterMap TimerEvent.call =
      (x.2.filterMap TimerEvent.slot).filter fun id => !clearedBefore x.2 id := by
  have hnodup : (x.2.filterMap TimerEvent.slot).Nodup := hheld.sublist h.seen.sublist
  -- up to its visit, the log is the part before it
  have hbefore : ∀ pre e post id, x.2 = pre ++ e :: post → e.slot = some id →
      x.2.takeWhile (fun e => e.slot ≠ some id) = pre := by
    intro pre e post id heq he
    have hne : ∀ d ∈ pre, d.slot ≠ some id := by
      intro d hd hslot
      rw [heq, filterMap_append, filterMap_cons_some he] at hnodup
      exact (nodup_append.mp hnodup).2.2 id (mem_filterMap.mpr ⟨d, hd, hslot⟩) id
        mem_cons_self rfl
    rw [heq, takeWhile_append_of_pos (by simpa using hne), takeWhile_cons_of_neg (by simp [he]),
      append_nil]
  rw [filter_filterMap]
  refine filterMap_congr fun e he => ?_
  obtain ⟨pre, post, heq⟩ := append_of_mem he
  have hfirst := h.logged pre e post heq
  cases e with
  | called id =>
    have hnot : clearedBefore x.2 id = false := by
      rw [clearedBefore, hbefore _ _ _ id heq rfl]
      exact decide_eq_false hfirst
    simp [TimerEvent.call, TimerEvent.slot, Option.filter_some, hnot]
  | skipped id =>
    have hyes : clearedBefore x.2 id = true := by
      rw [clearedBefore, hbefore _ _ _ id heq rfl]
      exact decide_eq_true hfirst
    simp [TimerEvent.call, TimerEvent.slot, Option.filter_some, hyes]
  | cleared | taken | dropped => rfl

end InPhase

/-- The order of the due timers, which is strict since ids differ. -/
def Loop.DueBefore (l : Loop ℕ) (a b : ℕ) : Prop :=
  (l.timer a).due < (l.timer b).due ∨ (l.timer a).due = (l.timer b).due ∧ a < b

lemma dueTimers_sorted {l : Loop ℕ} (hnodup : l.timers.Nodup) (now : ℤ) :
    (l.dueTimers now).Nodup ∧ (l.dueTimers now).Pairwise l.DueBefore := by
  have hdue : (l.dueTimers now).Nodup :=
    (perm_insertionSort _ _).nodup_iff.mpr (hnodup.filter _)
  have htrans : IsTrans ℕ l.dueLe := ⟨fun a b c hab hbc => by unfold Loop.dueLe at *; omega⟩
  have htotal : Std.Total l.dueLe := ⟨fun a b => by unfold Loop.dueLe; omega⟩
  have hle : (l.dueTimers now).Pairwise l.dueLe := pairwise_insertionSort l.dueLe _
  refine ⟨hdue, (hle.and hdue).imp ?_⟩
  rintro a b ⟨hab, hne⟩
  exact hab.imp_right fun ⟨heq, hid⟩ => ⟨heq, lt_of_le_of_ne hid hne⟩

/-- The calls of a timers phase are those of the timers that were due, as far as the phase came, in
the order of due time and id, without the ones cleared before; no timer set in the phase is called
in it, and the repeating timers are armed with their new due times. -/
theorem timers_phase {before acts : List Act} {s s₀ s' : St} {now : ℤ} {es : List TimerEvent}
    (hbefore : Machine.run St.step St.init before = some s)
    (htake : s.step (.takeDue now) = some s₀)
    (hphase : Machine.run phaseStep (s₀, []) acts = some (s', es)) :
    (∀ id, id ∈ s.loop.dueTimers now ↔ id ∈ s.loop.timers ∧ (s.loop.timer id).due ≤ now) ∧
    (s.loop.dueTimers now).Pairwise s.loop.DueBefore ∧
    (∃ seen, seen <+: s.loop.dueTimers now ∧
      es.filterMap TimerEvent.call = seen.filter (fun id => !clearedBefore es id) ∧
      (s'.pc.inTimers = false → (∀ a ∈ acts, a.fails = false) → seen = s.loop.dueTimers now)) ∧
    (∀ id, s.loop.nextID < id → .called id ∉ es) ∧
    (∀ id ∈ s.loop.dueTimers now, 0 < (s.loop.timer id).interval →
      (id ∈ s'.loop.timers ↔ .cleared id ∉ es) ∧
      (id ∈ s'.loop.timers → (s'.loop.timer id).due = now + (s.loop.timer id).interval)) ∧
    HandlesSafe := by
  have hheld := held_of_run hbefore
  obtain ⟨hnodup, hsorted⟩ := dueTimers_sorted hheld.listed.timers_nodup now
  have h : InPhase s now (s', es) :=
    run_invariant_all (I := InPhase s now) (fun _ _ _ h hs => h.step hs)
      (InPhase.start hbefore htake) hphase
  refine ⟨fun id => mem_dueTimers, hsorted, ⟨_, h.seen, h.calls hnodup, ?_⟩, ?_, ?_, handlesSafe⟩
  · intro hpc hnone
    have hends := run_invariant (G := fun _ a => a.fails = false)
      (I := fun x : St × List TimerEvent => x.1.pc.inTimers = true ∨ x.1.pc = .timersDone)
      (fun _ _ _ _ ha hs => InPhase.step_ends ha hs) ?_
      (obeys_of_forall_mem (fun _ a ha => hnone a ha) _) hphase
    · exact h.all (hends.resolve_left (by simp [hpc]))
    · simp only [St.step] at htake
      split at htake
      · obtain rfl := Option.some.inj htake
        exact .inl rfl
      · cases htake
  · intro id hid hcalled
    have hdue : id ∈ s.loop.dueTimers now :=
      h.seen.subset (mem_filterMap.mpr ⟨_, hcalled, rfl⟩)
    exact absurd (hheld.listed.ids_le id (hheld.listed.timers_ids (mem_dueTimers.mp hdue).1))
      (not_le.mpr hid)
  · intro id hid hinterval
    have hiff : id ∈ s'.loop.timers ↔ .cleared id ∉ es := by
      refine ⟨fun harmed hclear => ?_, fun hclear => (h.rearmed id hid hinterval hclear).1⟩
      have hcleared : (s'.loop.timer id).cleared = false := ((h.held.safe id).armed harmed).2
      have hagain : (s'.loop.timer id).cleared = true := (h.cleared id hid).mpr hclear
      simp [hagain] at hcleared
    exact ⟨hiff, fun harmed => (h.rearmed id hid hinterval (hiff.mp harmed)).2⟩

def threeDue : List Act :=
  [.guest (.setTimer 0 0 false), .guest (.setTimer 0 0 false), .guest (.setTimer 0 1000000 true),
    .run false, .go, .drained false]

def clearsSecond : List Act :=
  [.go, .guest (.clearTimer 2), .returned false, .drained false, .go, .go,
    .guest (.setTimer 1000000 0 false), .returned false, .drained false, .go]

theorem timers_phase_clearsSecond :
    ∃ s s₀ s' es, Machine.run St.step St.init threeDue = some s ∧
      s.step (.takeDue 1000000) = some s₀ ∧
      Machine.run phaseStep (s₀, []) clearsSecond = some (s', es) ∧
      es.filterMap TimerEvent.call = [1, 3] ∧
      es.filterMap TimerEvent.call =
        (s.loop.dueTimers 1000000).filter (fun id => !clearedBefore es id) ∧
      (s'.loop.timer 3).due = 1000000 + (s.loop.timer 3).interval := by
  obtain ⟨s, hs⟩ : ∃ s, Machine.run St.step St.init threeDue = some s :=
    Option.isSome_iff_exists.mp (by decide)
  have hdue : (Machine.run St.step St.init threeDue).map (fun s =>
      (s.loop.dueTimers 1000000, (s.loop.timer 3).interval)) =
        some ([1, 2, 3], 1000000) := by decide
  have htake : ((Machine.run St.step St.init threeDue).bind
    (·.step (.takeDue 1000000))).isSome := by
    decide
  have hphase : ((Machine.run St.step St.init threeDue).bind (·.step (.takeDue 1000000))).bind
      (fun s₀ => (Machine.run phaseStep (s₀, []) clearsSecond).map fun x =>
        (x.1.pc, x.1.loop.timers, x.2.filterMap TimerEvent.call)) =
      some (.timersDone, [3, 4], [1, 3]) := by decide
  rw [hs] at hdue htake hphase
  simp only [Option.map_some, Option.some.injEq, Prod.mk.injEq] at hdue
  obtain ⟨s₀, hs₀⟩ := Option.isSome_iff_exists.mp htake
  rw [hs₀, Option.bind_some] at hphase
  obtain ⟨⟨s', es⟩, hrun, hview⟩ := Option.map_eq_some_iff.mp hphase
  simp only [Prod.mk.injEq] at hview
  obtain ⟨hpc, htimers, hcalls⟩ := hview
  obtain ⟨-, -, ⟨seen, -, hseen, hall⟩, -, hrepeating, -⟩ := timers_phase hs hs₀ hrun
  have hlast : 3 ∈ s.loop.dueTimers 1000000 := by simp [hdue.1]
  refine ⟨s, s₀, s', es, hs, hs₀, hrun, hcalls, ?_, ?_⟩
  · rw [hseen, hall (by rw [hpc]; rfl) (by decide)]
  · exact (hrepeating 3 hlast (by simp [hdue.2])).2 (by simp [htimers])

end GoSpidermonkey.EventLoop
