import GoSpidermonkey.Agents.Fifo
import GoSpidermonkey.Bridge.Value

/-!
# Worker threads: the manager, its pump and the event loop

`workerManager` (`worker.go`) reports what its agents do as events of JavaScript objects. Three
kinds of goroutines take part. The agents post and exit, through the cluster. The pump takes the
posts from the cluster and posts a closure for each to the event loop; when it finds no post it
looks for dead agents (`reapDead`) and posts a closure for each one it has seen dead twice. The
loop's goroutine spawns workers and runs the closures.

A step is one critical section, or what a goroutine does between two of them. The manager's mutex is
held across the loop of `reapDead`, in which the liveness of each worker is asked for in a step of
its own: meanwhile no step that needs the mutex is enabled.

What `Receive` makes of a clone is a parameter `read`; it is absent if the clone cannot be read. A
worker object is named by the id of its agent: `Free` makes its handle zero, and a method call on a
zero handle fails without a call.
-/

namespace GoSpidermonkey.Bridge

def Value.isUndefined : Value → Bool
  | .undefined => true
  | _ => false

def Value.isObject : Value → Bool
  | .object _ => true
  | _ => false

/-- `Bool`. -/
def Value.truth : Value → Bool
  | .bool b => b
  | .object _ | .opaqueValue _ _ => true
  | _ => false

end GoSpidermonkey.Bridge

namespace GoSpidermonkey.Nodejs.Worker

open Bridge Agents

/-! ### Messages -/

/-- A received value, with the properties that `dispatch` reads: each is absent if `Get` fails. -/
structure Message where
  isObject : Bool := true
  console : Option Value := some .undefined
  exit : Option Value := some .undefined
  error : Option Value := some .undefined
  msg : Option Value := some .undefined
deriving DecidableEq

/-- The events of a worker object. A message is the value itself, or the `data` of its wrapper. -/
inductive Event
  | online
  | message (unwrapped : Bool)
  | error
  | exit (code : Value)

/-- What `dispatch` does with a message. -/
inductive Verdict
  | print
  | exit (code : Value)
  | emit (event : Event)

/-- The property is there and is not `undefined`. -/
def given : Option Value → Bool
  | some v => !v.isUndefined
  | none => false

def exitCode (v : Value) : Value := if v.isObject then .number (.finite (str "0")) else v

/-- The branches of `dispatch`, in their order. -/
def Message.verdict (m : Message) : Verdict :=
  if !m.isObject then .emit (.message false)
  else if m.console.any Value.isObject then .print
  else if given m.exit then .exit (exitCode (m.exit.getD .undefined))
  else if given m.error then .emit .error
  else if m.msg.any Value.truth then .emit (.message true)
  else .emit (.message false)

def Message.code? (m : Message) : Option Value :=
  match m.verdict with
  | .exit code => some code
  | _ => none

def crashCode : Value := .number (.finite (str "1"))

/-! ### The state -/

inductive Task
  | online (id : ℕ)
  | dispatch (id : ℕ) (m : Message)
  /-- The closure of `reapDead`. -/
  | crashExit (id : ℕ)

def Task.locks : Task → Bool
  | .online _ => false
  | .dispatch _ m => m.code?.isSome
  | .crashExit _ => true

inductive Pump
  | receiving
  /-- `Receive` has popped a post. -/
  | decoding (id clone : ℕ)
  /-- `Receive` has returned a message. -/
  | looking (id : ℕ) (m : Message)
  | posting (id : ℕ) (m : Message)
  /-- Before the critical section of `reapDead`. -/
  | locking
  | scanning (todo : Finset ℕ) (reap : List ℕ)
  | reaping (reap : List ℕ)
deriving DecidableEq

def Pump.locked : Pump → Bool
  | .scanning _ _ => true
  | _ => false

/-- Where `opWorkerSpawn` is on the loop's goroutine. -/
inductive Main
  | idle
  /-- `AgentSpawn` has returned. -/
  | booking (id : ℕ)
  /-- `Spawn` has returned. -/
  | preparing (id : ℕ)
  | sending (id : ℕ)
  /-- The `workerData` handshake is sent. -/
  | announcing (id : ℕ)
deriving DecidableEq

/-- The manager, with what happened so far. -/
structure State where
  traffic : Traffic
  main : Main
  /-- The agents that have been sent their init message: only then their source runs. -/
  inited : Finset ℕ
  insts : Finset ℕ
  deadSeen : ℕ → ℕ
  reaping : Finset ℕ
  pump : Pump
  tasks : List Task
  freed : Finset ℕ
  events : List (ℕ × Event)
  /-- The workers for which `AddPending` was called. -/
  added : List ℕ
  /-- The workers for which `DonePending` was called. -/
  released : List ℕ
  /-- How often `reapDead` has been through its critical section. -/
  scans : ℕ
  /-- The number of scans at which the worker was both registered and dead, one that was going on
  included. -/
  dueFrom : ℕ → ℕ

def start : State where
  traffic := .start
  main := .idle
  inited := ∅
  insts := ∅
  deadSeen := fun _ => 0
  reaping := ∅
  pump := .receiving
  tasks := []
  freed := ∅
  events := []
  added := []
  released := []
  scans := 0
  dueFrom := fun _ => 0

namespace State

variable (s : State)

/-- `emit`: a call on a freed worker object does nothing. -/
def emit (id : ℕ) (e : Event) : State :=
  if id ∈ s.freed then s else { s with events := s.events ++ [(id, e)] }

def forget (id : ℕ) : State := { s with
  insts := s.insts.erase id
  deadSeen := Function.update s.deadSeen id 0
  reaping := s.reaping.erase id }

/-- The end of a worker, by an exit message or by the reaper: reported if it is still registered. -/
def leave (id : ℕ) (code : Value) : State :=
  if id ∈ s.insts then
    let t := (s.forget id).emit id (.exit code)
    { t with freed := insert id t.freed, released := t.released ++ [id] }
  else s.forget id

def dispatch (id : ℕ) (m : Message) : State :=
  match m.verdict with
  | .print => s
  | .exit code => s.leave id code
  | .emit e => s.emit id e

def run : Task → State
  | .online id => s.emit id .online
  | .dispatch id m => s.dispatch id m
  | .crashExit id => s.leave id crashCode

/-- The body of the loop of `reapDead`. -/
def check (id : ℕ) (todo : Finset ℕ) (reap : List ℕ) : State :=
  if s.traffic.cluster.isAlive id then { s with
    deadSeen := Function.update s.deadSeen id 0
    pump := .scanning (todo.erase id) reap }
  else
    let seen := s.deadSeen id + 1
    if 2 ≤ seen ∧ id ∉ s.reaping then { s with
      deadSeen := Function.update s.deadSeen id seen
      reaping := insert id s.reaping
      pump := .scanning (todo.erase id) (reap ++ [id]) }
    else { s with
      deadSeen := Function.update s.deadSeen id seen
      pump := .scanning (todo.erase id) reap }

def stamp : ℕ := s.scans + s.pump.locked.toNat

end State

/-! ### Steps -/

inductive Act
  | traffic (act : Traffic.Act)
  /-- `opWorkerSpawn`, piece by piece. -/
  | agentSpawn (id : ℕ)
  | book
  /-- `NewObject` fails. -/
  | abandon
  | register
  | sendInit (clone : ℕ)
  | sendFails
  /-- `AddPending`, and the closure for `online` is posted. -/
  | announce
  | runTask
  /-- The pump: `Receive`, and what follows it. -/
  | receive
  | decode
  | look
  | post
  /-- The pump: `reapDead`. -/
  | lock
  | check (id : ℕ)
  | unlock
  | postReap
  | sleep

namespace State

/-- What happens in the cluster besides spawning and receiving: an agent posts only after its init
message. -/
def Outside (s : State) : Traffic.Act → Prop
  | .agentSpawn _ | .spawned _ | .popPost | .close => False
  | .handlePost id _ => id ∈ s.inited
  | _ => True

instance (s : State) (act : Traffic.Act) : Decidable (s.Outside act) := by
  cases act <;> dsimp only [State.Outside] <;> infer_instance

def observe (s : State) (act : Traffic.Act) (t : Traffic) : State := { s with
  traffic := t
  dueFrom := match act with
    | .handleExit id => Function.update s.dueFrom id s.stamp
    | _ => s.dueFrom }

def withTraffic (s : State) (act : Traffic.Act) (f : State → State) : Option State :=
  (s.traffic.step act).map fun t => f { s with traffic := t }

/-- The pump after `Receive` has found or popped the first post. -/
def received : List (ℕ × ℕ) → Pump
  | [] => .locking
  | (id, clone) :: _ => .decoding id clone

end State

open State

variable (read : ℕ → Option Message)

def step (s : State) : Act → Option State
  | .traffic act =>
    if s.Outside act then (s.traffic.step act).map (s.observe act) else none
  | .agentSpawn id =>
    if s.main = .idle then
      s.withTraffic (.agentSpawn id) fun s => { s with main := .booking id }
    else none
  | .book =>
    match s.main with
    | .booking id => s.withTraffic (.spawned id) fun s => { s with main := .preparing id }
    | _ => none
  | .abandon =>
    match s.main with
    | .preparing id => some { s with main := .idle, freed := insert id s.freed }
    | _ => none
  | .register =>
    match s.main with
    | .preparing id =>
      if s.pump.locked then none
      else some { s with
        main := .sending id
        insts := insert id s.insts
        dueFrom := Function.update s.dueFrom id s.scans }
    | _ => none
  | .sendInit clone =>
    match s.main with
    | .sending id => s.withTraffic (.send id clone) fun s =>
        { s with main := .announcing id, inited := insert id s.inited }
    | _ => none
  | .sendFails =>
    match s.main with
    | .sending id =>
      if s.pump.locked then none
      else some { s with
        main := .idle
        insts := s.insts.erase id
        freed := insert id s.freed }
    | _ => none
  | .announce =>
    match s.main with
    | .announcing id => some { s with
        main := .idle
        added := s.added ++ [id]
        tasks := s.tasks ++ [.online id] }
    | _ => none
  | .runTask =>
    match s.tasks with
    | [] => none
    | task :: rest =>
      if s.main = .idle ∧ ¬(task.locks = true ∧ s.pump.locked = true) then
        some ({ s with tasks := rest }.run task)
      else none
  | .receive =>
    if s.pump = .receiving then
      s.withTraffic .popPost fun t => { t with pump := received s.traffic.cluster.posts }
    else none
  | .decode =>
    match s.pump with
    | .decoding id clone => some { s with
        pump := match read clone with
          | some m => .looking id m
          | none => .locking }
    | _ => none
  | .look =>
    match s.pump with
    | .looking id m => some { s with pump := if id ∈ s.insts then .posting id m else .receiving }
    | _ => none
  | .post =>
    match s.pump with
    | .posting id m => some { s with pump := .receiving, tasks := s.tasks ++ [.dispatch id m] }
    | _ => none
  | .lock => if s.pump = .locking then some { s with pump := .scanning s.insts [] } else none
  | .check id =>
    match s.pump with
    | .scanning todo reap => if id ∈ todo then some (s.check id todo reap) else none
    | _ => none
  | .unlock =>
    match s.pump with
    | .scanning todo reap =>
      if todo = ∅ then some { s with pump := .reaping reap, scans := s.scans + 1 } else none
    | _ => none
  | .postReap =>
    match s.pump with
    | .reaping (id :: reap) => some { s with
        pump := .reaping reap
        tasks := s.tasks ++ [.crashExit id] }
    | _ => none
  | .sleep => if s.pump = .reaping [] then some { s with pump := .receiving } else none

/-! ### Runs -/

/-- The messages that an agent has posted, as `Receive` reads them. -/
def State.said (s : State) (id : ℕ) : List Message :=
  (addressed id s.traffic.posted).filterMap read

/-- The codes of the `exit` events of a worker. -/
def State.exits (s : State) (id : ℕ) : List Value :=
  s.events.filterMap fun
    | (i, .exit code) => if i = id then some code else none
    | _ => none

/-- The clones that the agents post can be read. -/
def Readable : Act → Prop
  | .traffic (.handlePost _ clone) => (read clone).isSome = true
  | _ => True

end GoSpidermonkey.Nodejs.Worker
