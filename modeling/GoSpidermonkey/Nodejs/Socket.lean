import GoSpidermonkey.Nodejs.ConnWriter
import GoSpidermonkey.Lib.Machine

/-!
# A TCP socket of the host

The entries of `netState` for one socket, its connection, and the goroutines that work on it: the
dial that becomes the read pump (`pumpConn`), the write actor, the calls of the guest, `closeNet`,
and the goroutine that has accepted the connection. A step is one locked section, one channel
operation or one call of the connection. What a goroutine does after a locked section is a list of
actions still to be done, so that any other goroutine can come in between.

`AddPending` and the `go` statement after it are one action: nothing that the others see happens in
between.
-/

namespace GoSpidermonkey.Nodejs

/-- An error of `conn.Read`. -/
inductive ReadErr where
  | eof
  | other
  deriving DecidableEq

inductive Post where
  | data (n : ℕ)
  | connect
  /-- The end of the pump: `onError` and `onEnd` if the socket was still registered. -/
  | ended (live : Bool) (e : ReadErr)
  | written (cb : ℕ)
  | release
  deriving DecidableEq

/-- An action outside of the locked sections of `netState`. -/
inductive Action where
  | attach
  | requestClose
  | signal
  | enqueue (c : ConnWrite)
  /-- `go w.run`. -/
  | goRun
  /-- `AddPending` and the start of the dial. -/
  | goDial
  /-- `AddPending` and the start of the pump. -/
  | goPump
  | donePending
  | pokeRead
  /-- The send on the channel found by `pokeRead` or `closeNet`. -/
  | sendResume
  | closeConn
  | post (p : Post)
  deriving DecidableEq

def onlyIf (b : Bool) (m : Action) : List Action := if b then [m] else []

@[simp] lemma mem_onlyIf {b : Bool} {m m' : Action} : m' ∈ onlyIf b m ↔ b ∧ m' = m := by
  cases b <;> simp [onlyIf]

inductive Thread where
  | guest
  | closer
  | acceptor
  | pump
  deriving DecidableEq

inductive ConnState where
  | absent
  | up
  | closed
  | failed
  deriving DecidableEq

inductive Pump where
  | none
  | dialing
  /-- Before the loop of `pumpConn`. -/
  | starting
  | parked
  | reading
  /-- `Read` has returned an error, the tables were not looked at yet. -/
  | failed (e : ReadErr)
  /-- Past the last locked section; it has exited once nothing is left to do. -/
  | ending
  deriving DecidableEq

structure Socket where
  conns : Bool
  writers : Bool
  readResume : Bool := false
  readEnded : Bool := false
  conn : ConnState
  w : ConnWriter := {}
  actor : Actor := .off
  pump : Pump := .none
  resume : Bool := false
  /-- `net_connect` or `net_attach` was called. -/
  opened : Bool
  todo : Thread → List Action
  posted : List Post := []
  /-- The calls of `AddPending` and `DonePending` for the socket. -/
  added : ℕ := 0
  released : ℕ := 0

namespace Socket

variable (s : Socket)

/-- `opNetConnect` has reserved the socket. -/
def connecting : Socket where
  conns := false
  writers := true
  conn := .absent
  opened := true
  todo := fun t => if t = .guest then [.goDial] else []

/-- `registerConn` has stored an accepted connection. -/
def accepted : Socket where
  conns := true
  writers := true
  conn := .up
  opened := false
  todo := fun t => if t = .acceptor then [.attach, .goRun] else []

/-! ### Actions -/

@[simps conns writers readResume readEnded conn w actor pump resume opened posted added released]
def setTodo (t : Thread) (ms : List Action) : Socket :=
  { s with todo := Function.update s.todo t ms }

@[simps! conns writers readResume readEnded conn w actor pump resume opened posted added released]
def push (t : Thread) (ms : List Action) : Socket := s.setTodo t (s.todo t ++ ms)

def close : ConnState → ConnState
  | .up => .closed
  | c => c

def exec : Action → Socket × List Action
  | .attach => ({ s with w := s.w.attach }, [.signal])
  | .requestClose => ({ s with w := s.w.requestClose }, [.signal])
  | .signal => ({ s with w := s.w.signal }, [])
  | .enqueue c =>
    if s.w.closeReq then ({ s with posted := s.posted ++ (acksOf [c]).map .written }, [])
    else ({ s with w := s.w.append c }, [.signal])
  | .goRun => ({ s with actor := .top }, [])
  | .goDial => ({ s with added := s.added + 1, pump := .dialing }, [])
  | .goPump => ({ s with added := s.added + 1, pump := .starting }, [])
  | .donePending => ({ s with released := s.released + 1 }, [])
  | .pokeRead => (s, onlyIf s.readResume .sendResume)
  | .sendResume => ({ s with resume := true }, [])
  | .closeConn => ({ s with conn := close s.conn }, [])
  | .post p => ({ s with posted := s.posted ++ [p] }, [])

/-! ### The pump -/

def armRead : Socket := { s with resume := true, readResume := true, pump := .parked }

def dialed (ok : Bool) : Socket :=
  if ok then
    if s.writers then
      { s with conns := true, conn := .up, pump := .starting }.push .pump
        [.attach, .goRun, .post .connect]
    else
      { s with conn := .up, pump := .ending }.push .pump [.closeConn, .goRun, .post .release]
  else
    { s with writers := false, conn := .failed, pump := .ending }.push .pump
      [.requestClose, .goRun, .post .release]

/-- A return of `Read` with `n` bytes. -/
def readReturns (n : ℕ) (err : Option ReadErr) : Socket :=
  { s with
    posted := s.posted ++ if 0 < n then [.data n] else []
    pump := match err with | none => .parked | some e => .failed e }

/-- After a clean end of the peer's half the write half stays, unless the guest has ended it. -/
def keepWriter (e : ReadErr) : Bool :=
  e = .eof && s.conns && s.writers && !s.w.writeSideEnded

def unregister (e : ReadErr) : Socket :=
  if s.keepWriter e then
    { s with readEnded := true, readResume := false, pump := .ending }.push .pump
      [.post (.ended s.conns e)]
  else
    { s with
      conns := false, writers := false, readResume := false, readEnded := false
      pump := .ending }.push .pump
      (onlyIf s.writers .requestClose ++
        [Action.post (.ended s.conns e), Action.donePending])

/-! ### Guest operations -/

def opNetAttach : Socket :=
  { s with opened := true }.push .guest (onlyIf s.conns .goPump)

def opNetReadResume : Socket := s.push .guest [.pokeRead]

def opNetWrite (c : ConnWrite) : Socket :=
  s.push .guest (if s.writers then [.enqueue c] else (acksOf [c]).map fun cb => .post (.written cb))

def opNetEnd : Socket :=
  if ¬ s.writers then s
  else if s.readEnded then
    { s with conns := false, writers := false, readEnded := false }.push .guest
      [.requestClose, .donePending]
  else { s with w := s.w.requestHalfClose }.push .guest [.signal]

def opNetClose : Socket :=
  { s with conns := false, writers := false, readEnded := false }.push .guest
    (onlyIf s.writers .requestClose ++ onlyIf (!s.writers && s.conns) .closeConn ++
      onlyIf s.readEnded .donePending ++ [Action.pokeRead])

def closeNet : Socket :=
  { s with conns := false, writers := false, readResume := false, readEnded := false }.push .closer
    (onlyIf s.readEnded .donePending ++ onlyIf s.readResume .sendResume ++
      onlyIf s.writers .requestClose ++ onlyIf s.conns .closeConn)

/-! ### Steps -/

def apply (e : Effect) : Socket :=
  { s with
    conn := if e.conn = some .close then close s.conn else s.conn
    posted := s.posted ++ e.acks.map .written }

def runPost (p : Post) (ps : List Post) : Socket :=
  { s with posted := ps, released := if p = .release then s.released + 1 else s.released }

end Socket

inductive Act where
  | thread (t : Thread)
  | pump
  /-- `Read` on a connection that is closed. -/
  | readClosed
  | actor
  /-- `Write` on a connection that is closed. -/
  | writeClosed
  | runPosted
  | dial (ok : Bool)
  | read (n : ℕ) (err : Option ReadErr)
  | write (ok : Bool)
  | netAttach
  | netReadResume
  | netWrite (c : ConnWrite)
  | netEnd
  | netClose
  | closeNet

namespace Socket

def pumpStep (s : Socket) : Option Socket :=
  match s.pump with
  | .starting => if s.todo .pump = [] then some s.armRead else none
  | .parked => if s.resume then some { s with resume := false, pump := .reading } else none
  | .failed e => some (s.unregister e)
  | .none | .dialing | .reading | .ending => none

def step (s : Socket) : Act → Option Socket
  | .thread t =>
    match s.todo t with
    | [] => none
    | m :: ms => some ((s.exec m).1.setTodo t ((s.exec m).2 ++ ms))
  | .pump => s.pumpStep
  | .readClosed =>
    if s.pump = .reading ∧ s.conn ≠ .up then some (s.readReturns 0 (some .other)) else none
  | .actor => (s.w.run s.actor).map fun r => { s with w := r.1, actor := r.2.1 }.apply r.2.2
  | .writeClosed =>
    if s.conn ≠ .up then
      (ConnWriter.wrote false s.actor).map fun r => { s with actor := r.1 }.apply r.2
    else none
  | .runPosted =>
    match s.posted with
    | [] => none
    | p :: ps => if s.todo .guest = [] then some (s.runPost p ps) else none
  | .dial ok => if s.pump = .dialing then some (s.dialed ok) else none
  | .read n err => if s.pump = .reading ∧ s.conn = .up then some (s.readReturns n err) else none
  | .write ok =>
    if s.conn = .up then
      (ConnWriter.wrote ok s.actor).map fun r => { s with actor := r.1 }.apply r.2
    else none
  | .netAttach => if s.todo .guest = [] ∧ ¬ s.opened then some s.opNetAttach else none
  | .netReadResume => if s.todo .guest = [] then some s.opNetReadResume else none
  | .netWrite c => if s.todo .guest = [] then some (s.opNetWrite c) else none
  | .netEnd => if s.todo .guest = [] then some s.opNetEnd else none
  | .netClose => if s.todo .guest = [] then some s.opNetClose else none
  | .closeNet => if s.todo .closer = [] then some s.closeNet else none

def ownSteps : List Act :=
  [.thread .guest, .thread .closer, .thread .acceptor, .thread .pump, .pump, .readClosed, .actor,
    .writeClosed, .runPosted]

/-- Nothing can happen any more without the guest or the peer. -/
def Quiescent (s : Socket) : Prop := ∀ a ∈ ownSteps, s.step a = none

/-- The goroutine of the pump has come to its end, if there was one. -/
def PumpExited (s : Socket) : Prop :=
  s.pump = .none ∨ s.pump = .ending ∧ s.todo .pump = []

end Socket

end GoSpidermonkey.Nodejs
