import GoSpidermonkey.EventLoop.Loop
import GoSpidermonkey.Lib.Machine

/-!
# Running the loop

`Loop.run` as a machine. The goroutine that runs it is at a point `Pc` between two of its critical
sections; guest code runs while a callback or a microtask drain is in progress, and calls the loop's
methods from there; other goroutines call `Post`, `AddPending`, `DonePending`, `Unref` and
`SetTimerRef` at any time, and each of them wakes the loop in a step of its own after its critical
section.

The label of a step carries what the state does not determine: whether a callback or a drain fails,
whether the context is done, what the stop function says, what time it is. A post is a serial
number. `timerCalls` and `immCalls` count the calls of each callback, `timerIds` and `immIds` record
the ids handed out, and `dropped` those that `Reset` and `ClearTimers` found scheduled.
-/

namespace GoSpidermonkey.EventLoop

inductive Outcome where
  | idle
  | stopped
  | ctxDone
  | failed
  deriving DecidableEq

/-- Where the goroutine of the loop is. The lists are what its loops have still to visit. -/
inductive Pc where
  | off (last : Option Outcome)
  | head
  | drain
  /-- After that drain: stop function, then `takeDue`. -/
  | drained
  | timers (rest : List ℕ)
  | timerCall (id : ℕ) (rest : List ℕ)
  | timerDrain (rest : List ℕ)
  | timersDone
  | posts
  | postCall
  | postDrain
  | postsDone
  | imms (rest : List ℕ)
  | immCall (id : ℕ) (rest : List ℕ)
  | immDrain (rest : List ℕ)
  | evalIdle
  | decided (idle : Bool)
  | select
  deriving DecidableEq

namespace Pc

def dueRest : Pc → List ℕ
  | .timers rest | .timerCall _ rest | .timerDrain rest => rest
  | _ => []

def immRest : Pc → List ℕ
  | .imms rest | .immCall _ rest | .immDrain rest => rest
  | _ => []

def currentTimer : Pc → Option ℕ
  | .timerCall id _ => some id
  | _ => none

def currentImm : Pc → Option ℕ
  | .immCall id _ => some id
  | _ => none

/-- Guest code can run: in a callback, in a drain, and outside of `run`. -/
def guest : Pc → Bool
  | .off _ | .drain | .timerCall _ _ | .timerDrain _ | .postCall | .postDrain | .immCall _ _
  | .immDrain _ => true
  | _ => false

def stopCheck : Pc → Bool
  | .head | .drained | .timersDone | .postsDone | .decided false => true
  | _ => false

end Pc

structure St where
  loop : Loop ℕ
  pc : Pc
  /-- `RunUntil` rather than `Run`. -/
  hasStop : Bool
  /-- The goroutines between a critical section and the `wakeup` after it. -/
  waking : ℕ
  timerCalls : ℕ → ℕ
  immCalls : ℕ → ℕ
  timerIds : List ℕ
  immIds : List ℕ
  dropped : List ℕ
  posted : ℕ
  executed : ℕ
  /-- The operations that took a pending; `true` until their `DonePending`. -/
  held : List Bool

def St.init : St where
  loop := .new
  pc := .off none
  hasStop := false
  waking := 0
  timerCalls := fun _ => 0
  immCalls := fun _ => 0
  timerIds := []
  immIds := []
  dropped := []
  posted := 0
  executed := 0
  held := []

/-- The methods guest code calls on the goroutine of the loop. -/
inductive GuestCall where
  | setTimer (now delay : ℤ) (rep : Bool)
  | clearTimer (id : ℕ)
  | setTimerRef (id : ℕ) (ref : Bool)
  | postImmediate
  | clearImmediate (id : ℕ)
  | unref
  | ref
  deriving DecidableEq

inductive Outside where
  | post
  | addPending
  | donePending (op : ℕ)
  | unref
  | setTimerRef (id : ℕ) (ref : Bool)
  deriving DecidableEq

inductive Act where
  | run (hasStop : Bool)
  /-- The next step of the loop's goroutine where nothing is left open. -/
  | go
  | stop
  | ctxDone
  | takeDue (now : ℤ)
  | returned (failed : Bool)
  | drained (failed : Bool)
  /-- `select` takes the token. -/
  | recv
  /-- `select` takes the tick of the earliest timer. -/
  | tick
  | guest (c : GuestCall)
  | outside (o : Outside)
  /-- One of the goroutines counted by `waking` calls `wakeup`. -/
  | wakeup
  | reset
  | clearTimers
  deriving DecidableEq

namespace St

variable (s : St)

def guestCall : GuestCall → St
  | .setTimer now delay rep =>
    { s with loop := s.loop.setTimer now delay rep, timerIds := (s.loop.nextID + 1) :: s.timerIds }
  | .clearTimer id => { s with loop := s.loop.clearTimer id }
  | .setTimerRef id ref => { s with loop := (s.loop.setTimerRef id ref).wakeup }
  | .postImmediate =>
    { s with loop := s.loop.postImmediate, immIds := (s.loop.nextID + 1) :: s.immIds }
  | .clearImmediate id => { s with loop := s.loop.clearImmediate id }
  | .unref => { s with loop := s.loop.unref.wakeup }
  | .ref => { s with loop := s.loop.ref }

def outside : Outside → Option St
  | .post =>
    some { s with loop := s.loop.post s.posted, posted := s.posted + 1, waking := s.waking + 1 }
  | .addPending => some { s with loop := s.loop.addPending, held := s.held ++ [true] }
  | .donePending op =>
    if s.held[op]? = some true then
      some { s with
        loop := s.loop.donePending
        held := s.held.set op false
        waking := s.waking + 1 }
    else none
  | .unref => some { s with loop := s.loop.unref, waking := s.waking + 1 }
  | .setTimerRef id ref =>
    some { s with loop := s.loop.setTimerRef id ref, waking := s.waking + 1 }

def go : Option St :=
  match s.pc with
  | .head => some { s with pc := .drain }
  | .timers [] => some { s with loop := { s.loop with dueBatch := [] }, pc := .timersDone }
  | .timers (id :: rest) =>
    if (s.loop.timer id).cleared then
      some { s with loop := s.loop.freeTimer id, pc := .timers rest }
    else
      some { s with
        timerCalls := Function.update s.timerCalls id (s.timerCalls id + 1)
        pc := .timerCall id rest }
  | .timersDone => some { s with pc := .posts }
  | .posts =>
    match s.loop.posts with
    | [] => some { s with pc := .postsDone }
    | _ :: rest => some { s with loop := { s.loop with posts := rest }, pc := .postCall }
  | .postsDone => some { s with loop := s.loop.takeImmediates, pc := .imms s.loop.immediates }
  | .imms [] => some { s with loop := { s.loop with batch := [] }, pc := .evalIdle }
  | .imms (id :: rest) =>
    if (s.loop.immediate id).cleared then
      some { s with loop := s.loop.freeImmediate id, pc := .imms rest }
    else
      some { s with
        immCalls := Function.update s.immCalls id (s.immCalls id + 1)
        pc := .immCall id rest }
  | .evalIdle => some { s with pc := .decided (decide s.loop.Idle) }
  | .decided true => some { s with pc := .off (some .idle) }
  | .decided false => some { s with pc := .select }
  | _ => none

def endTimerCall (id : ℕ) : Loop ℕ :=
  let t := s.loop.timer id
  s.loop.setTimerObj id
    { t with running := false, fn := t.fn && !(t.interval == 0 || t.cleared) }

def returned (failed : Bool) : Option St :=
  match s.pc with
  | .timerCall id rest =>
    some { s with
      loop := s.endTimerCall id
      pc := if failed then .off (some .failed) else .timerDrain rest }
  | .postCall =>
    some { s with
      executed := s.executed + 1
      pc := if failed then .off (some .failed) else .postDrain }
  | .immCall id rest =>
    some { s with
      loop := s.loop.freeImmediate id
      pc := if failed then .off (some .failed) else .immDrain rest }
  | _ => none

def drained (failed : Bool) : Option St :=
  match s.pc with
  | .drain => some { s with pc := if failed then .off (some .failed) else .drained }
  | .timerDrain rest => some { s with pc := if failed then .off (some .failed) else .timers rest }
  | .postDrain => some { s with pc := if failed then .off (some .failed) else .posts }
  | .immDrain rest => some { s with pc := if failed then .off (some .failed) else .imms rest }
  | _ => none

/-- `Reset` and `ClearTimers` are called while the loop does not run. -/
def drop (loop : Loop ℕ) : Option St :=
  match s.pc with
  | .off _ => some { s with loop, dropped := s.loop.timers ++ s.loop.immediates ++ s.dropped }
  | _ => none

def step : St → Act → Option St
  | s, .run hasStop =>
    match s.pc with
    | .off _ => some { s with pc := .head, hasStop }
    | _ => none
  | s, .go => s.go
  | s, .stop =>
    if s.hasStop ∧ s.pc.stopCheck then some { s with pc := .off (some .stopped) } else none
  | s, .ctxDone =>
    if s.pc = .head ∨ s.pc = .select then some { s with pc := .off (some .ctxDone) } else none
  | s, .takeDue now =>
    if s.pc = .drained then
      some { s with loop := s.loop.takeDue now, pc := .timers (s.loop.dueTimers now) }
    else none
  | s, .returned failed => s.returned failed
  | s, .drained failed => s.drained failed
  | s, .recv =>
    if s.pc = .select ∧ s.loop.wake then
      some { s with loop := { s.loop with wake := false }, pc := .head }
    else none
  | s, .tick => if s.pc = .select ∧ s.loop.timers ≠ [] then some { s with pc := .head } else none
  | s, .guest c => if s.pc.guest then some (s.guestCall c) else none
  | s, .outside o => s.outside o
  | s, .wakeup =>
    if 0 < s.waking then some { s with loop := s.loop.wakeup, waking := s.waking - 1 } else none
  | s, .reset => s.drop s.loop.reset
  | s, .clearTimers => s.drop s.loop.clearTimers

end St

end GoSpidermonkey.EventLoop
