import GoSpidermonkey.EventLoop.Loop
import GoSpidermonkey.Lib.Machine

/-!
# Handles and the loop's references

The guest's handles (sockets, servers, datagram sockets and standard input) and what the host holds
for them. An operation of the host that keeps the loop alive is a *registration*: it is made with
`AddPending`, and its last step is `DonePending`. `unref` does not release the registration of a
handle, it only counts it in `unrefPending`, and what undoes this is a `ref`, the closing of a
server, the end of standard input, or the listener for 'close' that a socket adds when it is first
unref'd.

A step is one call of the guest, one step of a goroutine of the host, or one of the loop: a post, a
tick of the guest's queue, or the evaluation of the idle condition. The ticks are drained before
each evaluation. What the loop posts to a handle runs the guest's own listeners as well; what these
do are further steps of the guest. They are taken not to throw, and not to remove the listeners of
the library.
-/

namespace GoSpidermonkey.Nodejs.Handles

open EventLoop

/-! ### Handles and registrations -/

inductive HandleKind where
  | socket
  /-- Has neither `ref` nor `unref`. -/
  | tlsSocket
  | netServer
  | tlsServer
  | httpServer
  | dgram
  | stdin
  deriving DecidableEq

namespace HandleKind

def isSocket : HandleKind → Bool
  | .socket | .tlsSocket => true
  | _ => false

/-- `unref` adds a listener for 'close'. -/
def hooksClose : HandleKind → Bool
  | .socket | .dgram => true
  | _ => false

end HandleKind

structure Handle where
  kind : HandleKind
  /-- `_id`, the registration the handle knows. -/
  id : Option ℕ := none
  unreffed : Bool := false
  /-- `_unrefCloseHooked`. -/
  closeHooked : Bool := false
  armed : Bool := false
  allowHalfOpen : Bool := false
  ended : Bool := false
  endEmitted : Bool := false
  ending : Bool := false
  finished : Bool := false
  finishEmitted : Bool := false
  destroyed : Bool := false
  closeEmitted : Bool := false
  started : Bool := false
  stdinEnded : Bool := false

/-- The guard of `unref`: the handle takes itself to be registered. -/
def Handle.canUnref (x : Handle) : Bool :=
  match x.kind with
  | .tlsSocket => false
  | .stdin => x.started && !x.stdinEnded
  | _ => x.id.isSome

inductive Stage where
  | dialing
  | reading
  /-- The peer has ended; the pump left its pending with the write half (`readEnded`). -/
  | halfOpen
  | listening
  | bound
  | input
  | serving
  | shutdown
  /-- The last post is made, `DonePending` comes next. -/
  | exiting
  /-- `DonePending` is in a post. -/
  | posted
  | released
  deriving DecidableEq

structure Registration where
  owner : ℕ
  stage : Stage
  live : Bool := true
  /-- `writeSideEnded`. -/
  writeEnded : Bool := false

inductive Task where
  | dialFailed (r : ℕ)
  | dialAborted (r : ℕ)
  | connected (r : ℕ)
  | data (r : ℕ)
  /-- The pump is done: `onError` and `onEnd`, if the connection was still in the tables. -/
  | ended (r : ℕ) (live failed : Bool)
  | stdinEnd (h : ℕ)
  | httpClosed (r : ℕ)
  deriving DecidableEq

def Task.releases : Task → Option ℕ
  | .dialFailed r | .dialAborted r | .httpClosed r => some r
  | _ => none

/-- What `process.nextTick` is given. -/
inductive Tick where
  | finish (h : ℕ)
  | close (h : ℕ)
  deriving DecidableEq

inductive Phase where
  | tasks
  | check
  /-- `Run` has returned. -/
  | returned
  deriving DecidableEq

structure State where
  loop : Loop Task
  handle : ℕ → Handle
  handles : ℕ
  reg : ℕ → Registration
  regs : ℕ
  others : ℕ := 0
  ticks : List Tick := []
  phase : Phase := .tasks
  /-- `Config.Stdin` is set. -/
  hasStdin : Bool

/-- Before the program runs there is `process.stdin` only. -/
def init (hasStdin : Bool) : State where
  loop := Loop.new
  handle := fun _ => { kind := .stdin }
  handles := 1
  reg := fun _ => { owner := 0, stage := .released }
  regs := 0
  hasStdin := hasStdin

namespace State

variable (s : State)

@[simps] def setHandle (h : ℕ) (x : Handle) : State :=
  { s with handle := Function.update s.handle h x }

@[simps] def setReg (r : ℕ) (y : Registration) : State :=
  { s with reg := Function.update s.reg r y }

@[simps] def post (t : Task) : State := { s with loop := s.loop.post t }

@[simps] def nextTick (t : Tick) : State := { s with ticks := s.ticks ++ [t] }

/-! ### References -/

/-- `if (this._unreffed) { ops.loop_ref(true); this._unreffed = false; }`. -/
def refHandle (h : ℕ) : State :=
  if (s.handle h).unreffed then
    { s.setHandle h { s.handle h with unreffed := false } with loop := s.loop.ref }
  else s

def unrefHandle (h : ℕ) : State :=
  let x := s.handle h
  if !x.unreffed && x.canUnref then
    let hook := x.kind.hooksClose && !x.closeHooked
    { s.setHandle h { x with
        unreffed := true, closeHooked := x.closeHooked || hook, armed := x.armed || hook } with
      loop := s.loop.unref }
  else s

def fireClose (h : ℕ) : State :=
  if (s.handle h).armed then (s.setHandle h { s.handle h with armed := false }).refHandle h else s

/-- `emitClose` of a stream: once, and when both sides are done. -/
def emitClose (h : ℕ) : State :=
  let x := s.handle h
  if !x.closeEmitted && (x.endEmitted || x.destroyed) && (x.finishEmitted || x.destroyed) then
    (s.setHandle h { x with closeEmitted := true }).fireClose h
  else s

/-! ### The host's operations -/

/-- A new registration, with `AddPending`. -/
@[simps] def register (h : ℕ) (stage : Stage) : State :=
  { s with
    loop := s.loop.addPending
    reg := Function.update s.reg s.regs { owner := h, stage := stage }
    regs := s.regs + 1 }

/-- `DonePending` of a registration. -/
@[simps] def release (r : ℕ) : State :=
  { s.setReg r { s.reg r with stage := .released } with loop := s.loop.donePending }

/-- `net_end`. -/
def netEnd (r : ℕ) : State :=
  if (s.reg r).live then
    if (s.reg r).stage = .halfOpen then (s.setReg r { s.reg r with live := false }).release r
    else s.setReg r { s.reg r with writeEnded := true }
  else s

/-- `net_close`. -/
def netClose (r : ℕ) : State :=
  let s' := s.setReg r { s.reg r with live := false }
  if (s.reg r).stage = .halfOpen then s'.release r else s'

def attach (h : ℕ) (stage : Stage) : State :=
  (s.register h stage).setHandle h { s.handle h with id := some s.regs }

def create (k : HandleKind) (allowHalfOpen : Bool) : State :=
  { s.setHandle s.handles { kind := k, allowHalfOpen := allowHalfOpen } with
    handles := s.handles + 1 }

/-! ### The guest's operations -/

/-- `Socket.destroy`. The guest's exception for an error that nobody listens to comes before
'close'. -/
def destroy (h : ℕ) (unhandled : Bool) : State :=
  let s₁ := match (s.handle h).id with
    | some r => (s.netClose r).setHandle h { s.handle h with id := none }
    | none => s
  if (s.handle h).destroyed then s₁
  else
    let s₂ := s₁.setHandle h { s₁.handle h with destroyed := true }
    if unhandled then s₂ else s₂.emitClose h

/-- `_maybeFinish` once all writes are done, with `_final`. -/
def finish (h : ℕ) : State :=
  let s₁ := match (s.handle h).id with
    | some r => s.netEnd r
    | none => s
  (s₁.setHandle h { s₁.handle h with finished := true }).nextTick (.finish h)

/-- The readable side emits 'end'; a socket that does not allow half-open connections ends its
writable side as well. -/
def emitEnd (h : ℕ) : State :=
  let x := s.handle h
  (s.setHandle h { x with endEmitted := true, ending := x.ending || !x.allowHalfOpen }).emitClose h

/-- `close` of a server or a datagram socket. -/
def close (h : ℕ) : State :=
  match (s.handle h).id with
  | none => s
  | some r =>
    match (s.handle h).kind with
    | .dgram => (s.setHandle h { s.handle h with id := none }).nextTick (.close h)
    | .httpServer =>
      let s₁ := s.refHandle h
      let s₂ := s₁.setHandle h { s₁.handle h with id := none }
      s₂.setReg r { s₂.reg r with stage := .shutdown }
    | .netServer | .tlsServer =>
      let s₁ := s.refHandle h
      s₁.setHandle h { s₁.handle h with id := none }
    | _ => s

/-! ### Posts and ticks -/

def runTask : Task → State
  | .dialFailed r | .dialAborted r | .httpClosed r => s.release r
  | .connected _ | .data _ => s
  | .ended r live _ =>
    let h := (s.reg r).owner
    if live && !(s.handle h).destroyed then s.setHandle h { s.handle h with ended := true } else s
  | .stdinEnd h =>
    let s₁ := s.refHandle h
    s₁.setHandle h { s₁.handle h with stdinEnded := true, ended := true }

def runTick : Tick → State
  | .finish h => (s.setHandle h { s.handle h with finishEmitted := true }).emitClose h
  | .close h => s.fireClose h

end State

/-! ### Steps -/

/-- What the loop and the guest do with timers and immediates. -/
inductive TimerOp where
  | setTimer (now delay : ℤ) (rep : Bool)
  | clearTimer (id : ℕ)
  | setTimerRef (id : ℕ) (ref : Bool)
  | takeDue (now : ℤ)
  | postImmediate
  | clearImmediate (id : ℕ)
  | takeImmediates

def TimerOp.run (l : Loop Task) : TimerOp → Loop Task
  | .setTimer now delay rep => l.setTimer now delay rep
  | .clearTimer id => l.clearTimer id
  | .setTimerRef id ref => l.setTimerRef id ref
  | .takeDue now => l.takeDue now
  | .postImmediate => l.postImmediate
  | .clearImmediate id => l.clearImmediate id
  | .takeImmediates => l.takeImmediates

inductive Act where
  -- the guest
  | create (k : HandleKind) (allowHalfOpen : Bool)
  | connect (h : ℕ)
  | accept (tls allowHalfOpen : Bool)
  | listen (h : ℕ)
  | bind (h : ℕ)
  | startStdin
  | ref (h : ℕ)
  | unref (h : ℕ)
  /-- `end` of the writable side. -/
  | endWrite (h : ℕ)
  | finish (h : ℕ)
  | emitEnd (h : ℕ)
  | destroy (h : ℕ) (unhandled : Bool)
  | close (h : ℕ)
  -- the host
  | dialFail (r : ℕ)
  | dialOk (r : ℕ)
  | readData (r : ℕ)
  | readEof (r : ℕ)
  | readErr (r : ℕ)
  /-- `Accept` or `ReadFromUDP` fails, because of a `close` or by itself. -/
  | fails (r : ℕ)
  | stdinEof (r : ℕ)
  | shutdownDone (r : ℕ)
  /-- `DonePending` after the last post. -/
  | release (r : ℕ)
  | addOther
  | doneOther
  -- the loop
  | runPost
  | runTick
  | postsDone
  | evaluate
  /-- The next turn, or the next `Run`. -/
  | turn
  | timer (op : TimerOp)

def step (s : State) : Act → Option State
  | .create k allowHalfOpen => if k = .stdin then none else some (s.create k allowHalfOpen)
  | .connect h =>
    if h < s.handles ∧ (s.handle h).kind.isSocket then some (s.attach h .dialing) else none
  | .accept tls allowHalfOpen =>
    let k := if tls then .tlsSocket else .socket
    some ((s.create k allowHalfOpen).attach s.handles .reading)
  | .listen h =>
    if h < s.handles then
      match (s.handle h).kind with
      | .netServer | .tlsServer => some (s.attach h .listening)
      | .httpServer => some (s.attach h .serving)
      | _ => none
    else none
  | .bind h =>
    if h < s.handles ∧ (s.handle h).kind = .dgram then some (s.attach h .bound) else none
  | .startStdin =>
    if (s.handle 0).started then some s
    else
      let s₁ := s.setHandle 0 { s.handle 0 with started := true }
      some (if s.hasStdin then s₁.register 0 .input else s₁)
  | .ref h => if h < s.handles then some (s.refHandle h) else none
  | .unref h => if h < s.handles then some (s.unrefHandle h) else none
  | .endWrite h =>
    if h < s.handles ∧ (s.handle h).kind.isSocket then
      some (s.setHandle h { s.handle h with ending := true })
    else none
  | .finish h =>
    let x := s.handle h
    if h < s.handles ∧ x.ending ∧ ¬ x.finished ∧ ¬ x.destroyed then some (s.finish h) else none
  | .emitEnd h =>
    let x := s.handle h
    if h < s.handles ∧ x.kind.isSocket ∧ x.ended ∧ ¬ x.endEmitted ∧ ¬ x.destroyed then
      some (s.emitEnd h)
    else none
  | .destroy h unhandled =>
    if h < s.handles ∧ (s.handle h).kind.isSocket then some (s.destroy h unhandled) else none
  | .close h => if h < s.handles then some (s.close h) else none
  | .dialFail r =>
    if r < s.regs ∧ (s.reg r).stage = .dialing then
      some ((s.setReg r { s.reg r with stage := .posted, live := false }).post (.dialFailed r))
    else none
  | .dialOk r =>
    if r < s.regs ∧ (s.reg r).stage = .dialing then
      if (s.reg r).live then
        some ((s.setReg r { s.reg r with stage := .reading }).post (.connected r))
      else some ((s.setReg r { s.reg r with stage := .posted }).post (.dialAborted r))
    else none
  | .readData r =>
    if r < s.regs ∧ (s.reg r).stage = .reading then some (s.post (.data r)) else none
  | .readEof r =>
    let y := s.reg r
    if r < s.regs ∧ y.stage = .reading then
      if y.live ∧ ¬ y.writeEnded then
        some ((s.setReg r { y with stage := .halfOpen }).post (.ended r true false))
      else
        some ((s.setReg r { y with stage := .exiting, live := false }).post (.ended r y.live false))
    else none
  | .readErr r =>
    let y := s.reg r
    if r < s.regs ∧ y.stage = .reading then
      some ((s.setReg r { y with stage := .exiting, live := false }).post (.ended r y.live true))
    else none
  | .fails r =>
    if r < s.regs ∧ ((s.reg r).stage = .listening ∨ (s.reg r).stage = .bound) then
      some (s.release r)
    else none
  | .stdinEof r =>
    if r < s.regs ∧ (s.reg r).stage = .input then
      some ((s.setReg r { s.reg r with stage := .exiting }).post (.stdinEnd (s.reg r).owner))
    else none
  | .shutdownDone r =>
    if r < s.regs ∧ (s.reg r).stage = .shutdown then
      some ((s.setReg r { s.reg r with stage := .posted }).post (.httpClosed r))
    else none
  | .release r =>
    if r < s.regs ∧ (s.reg r).stage = .exiting then some (s.release r) else none
  | .addOther => some { s with loop := s.loop.addPending, others := s.others + 1 }
  | .doneOther =>
    if 0 < s.others then some { s with loop := s.loop.donePending, others := s.others - 1 }
    else none
  | .runPost =>
    match s.phase, s.loop.posts with
    | .tasks, t :: rest => some (State.runTask { s with loop := { s.loop with posts := rest } } t)
    | _, _ => none
  | .runTick =>
    match s.ticks with
    | t :: rest => some (State.runTick { s with ticks := rest } t)
    | [] => none
  | .postsDone =>
    if s.phase = .tasks ∧ s.loop.posts = [] then some { s with phase := .check } else none
  | .evaluate =>
    if s.phase = .check ∧ s.ticks = [] then
      some { s with phase := if s.loop.Idle then .returned else .tasks }
    else none
  | .turn => some { s with phase := .tasks }
  | .timer op => some { s with loop := op.run s.loop }

/-! ### The accounting -/

namespace State

variable (s : State)

def Unreffed (h : ℕ) : Prop := (s.handle h).unreffed = true

instance : DecidablePred s.Unreffed := fun h =>
  inferInstanceAs (Decidable ((s.handle h).unreffed = true))

/-- The host still holds a pending for the handle. -/
def Holds (h : ℕ) : Prop := ∃ r < s.regs, (s.reg r).owner = h ∧ (s.reg r).stage ≠ .released

instance : DecidablePred s.Holds := fun h =>
  inferInstanceAs (Decidable (∃ r < s.regs, (s.reg r).owner = h ∧ (s.reg r).stage ≠ .released))

/-- `unrefPending` is the number of the unref'd handles that still hold their pending. -/
def Balanced : Prop :=
  s.loop.unrefPending = Nat.count (fun h => s.Unreffed h ∧ s.Holds h) s.handles

instance : Decidable s.Balanced :=
  inferInstanceAs (Decidable (_ = Nat.count (fun h => s.Unreffed h ∧ s.Holds h) s.handles))

/-- A `ref` of the handle is on its way, and comes before the next idle check. -/
def Undoing (h : ℕ) : Prop :=
  ((s.handle h).armed = true ∧ (.close h ∈ s.ticks ∨
      .finish h ∈ s.ticks ∧ (s.handle h).endEmitted = true ∧ (s.handle h).closeEmitted = false)) ∨
    s.phase = .tasks ∧ .stdinEnd h ∈ s.loop.posts

instance : DecidablePred s.Undoing := fun h =>
  inferInstanceAs (Decidable (((s.handle h).armed = true ∧ (_ ∨ _ ∧ _ ∧ _)) ∨ _ ∧ _))

/-- The pending of the registration is the last one of its handle. -/
def Last (r : ℕ) : Prop :=
  ∀ r' < s.regs, (s.reg r').owner = (s.reg r).owner → (s.reg r').stage ≠ .released → r' = r

instance : DecidablePred s.Last := fun r =>
  inferInstanceAs (Decidable (∀ r' < s.regs, _ → _ → r' = r))

/-- The handle of the registration may lose it: it is not unref'd, or about to be ref'd again. -/
def Covered (r : ℕ) : Prop :=
  s.Last r → s.Unreffed (s.reg r).owner → s.Undoing (s.reg r).owner

instance : DecidablePred s.Covered := fun r =>
  inferInstanceAs (Decidable (s.Last r → s.Unreffed _ → s.Undoing _))

end State

/-- No handle that is unref'd loses its last pending unless its `ref` is on its way, and none is
unref'd that has none. -/
def Compensated (s : State) : Act → Prop
  | .unref h => (s.handle h).unreffed = false → (s.handle h).canUnref = true → s.Holds h
  | .release r | .fails r => s.Covered r
  | .runPost => ∀ t ∈ s.loop.posts.head?, ∀ r ∈ t.releases, s.Covered r
  -- `net_end` completes a half-open connection; 'close' follows 'finish' if 'end' has been emitted
  | .finish h =>
    let x := s.handle h
    ∀ r ∈ x.id, (s.reg r).stage = .halfOpen → s.Last r → x.unreffed = true →
      x.armed = true ∧ x.endEmitted = true ∧ x.closeEmitted = false
  | .destroy h unhandled =>
    let x := s.handle h
    ∀ r ∈ x.id, (s.reg r).stage = .halfOpen → s.Last r → x.unreffed = true →
      x.armed = true ∧ x.destroyed = false ∧ x.closeEmitted = false ∧ unhandled = false
  | _ => True

instance (s : State) (act : Act) : Decidable (Compensated s act) := by
  cases act <;> dsimp only [Compensated] <;> infer_instance

end GoSpidermonkey.Nodejs.Handles
