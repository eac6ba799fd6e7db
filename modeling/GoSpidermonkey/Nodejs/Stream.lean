import GoSpidermonkey.Ecma.Utf16
import GoSpidermonkey.Go.Bytes
import GoSpidermonkey.Lib.Machine

/-!
# Node streams

The base classes `Readable`, `Writable`, `Duplex` and `Transform`, as one machine. The code of a
stream calls guest code wherever it emits an event, runs a callback or asks for `_read`, `_write`,
`_final` or `_destroy`, and that guest code may call the stream again. So the state holds a stack: a
frame is either guest code or the rest of a method of the stream. A step is one action of the guest
code on top, or the stream's own code up to the next call of guest code.

Below the stack is the rest of the `process.nextTick` callback that the event loop runs, if it runs
one. Only an empty stack lets the event loop go on.

The guest calls a function that it gets from `_write`, `_final` or `_destroy` at most once, at once
or later. A guest exception drops the frames up to the guest code below or up to the `try` of
`_callRead`. An `'error'` event without a listener is such an exception of the guest.
-/

namespace GoSpidermonkey.Nodejs.Stream

/-! ### Chunks and string decoders -/

/-- What goes through a stream. A string that is pushed or written stands as its bytes. -/
inductive Chunk (ω : Type)
  | bytes (b : Bytes)
  | text (t : Ecma.JsString)
  | object (o : ω)

variable {ω : Type}

/-- `chunk.length ?? 0`. -/
def Chunk.length : Chunk ω → ℕ
  | .bytes b => b.length
  | .text t => t.length
  | .object _ => 0

def Chunk.data : Chunk ω → Bytes
  | .bytes b => b
  | _ => []

def totalLength (chunks : List (Chunk ω)) : ℕ := (chunks.map Chunk.length).sum

def concat (chunks : List (Chunk ω)) : Bytes := chunks.flatMap Chunk.data

inductive Encoding
  | utf8 | utf16le | base64 | base64url | hex | latin1 | ascii
deriving DecidableEq

def expected (b : UInt8) : ℕ :=
  if b &&& 0xe0 = 0xc0 then 2 else if b &&& 0xf0 = 0xe0 then 3 else if b &&& 0xf8 = 0xf0 then 4
  else 1

/-- The search for a lead byte from the end, with `i` bytes seen. -/
def leadFrom (i : ℕ) : Bytes → ℕ
  | [] => 0
  | b :: rest =>
    if b &&& 0xc0 ≠ 0x80 then if i < expected b then i else 0
    else leadFrom (i + 1) rest

def utf8TailLength (data : Bytes) : ℕ := leadFrom 1 (data.reverse.take 3)

def unitSize : Encoding → ℕ
  | .utf16le => 2
  | .base64 | .base64url => 3
  | _ => 1

/-- A `StringDecoder`; no `_pending` is an empty one. -/
structure StringDecoder where
  encoding : Encoding
  pending : Bytes := []

def StringDecoder.tail (d : StringDecoder) (data : Bytes) : ℕ :=
  match d.encoding with
  | .utf8 => utf8TailLength data
  | e => data.length % unitSize e

section Decode

-- `Buffer.toString` and `TextDecoder`
variable (toText : Encoding → Bytes → Ecma.JsString)

def StringDecoder.write (d : StringDecoder) (buf : Bytes) : StringDecoder × Ecma.JsString :=
  let data := d.pending ++ buf
  let n := data.length - d.tail data
  ({ d with pending := data.drop n }, toText d.encoding (data.take n))

/-- `end()`: what is pending becomes text as it is. -/
def StringDecoder.flush (d : StringDecoder) : StringDecoder × Ecma.JsString :=
  if d.pending = [] then (d, []) else ({ d with pending := [] }, toText d.encoding d.pending)

end Decode

/-! ### The two halves -/

/-- The errors that the code makes itself, and those of the guest. -/
inductive Error
  | pushAfterEOF
  | writeAfterEnd
  | streamDestroyed
  | guest (n : ℕ)

/-- `_rs`. -/
structure ReadableState (ω : Type) where
  buffer : List (Chunk ω) := []
  length : ℤ := 0
  highWaterMark : ℤ
  objectMode : Bool
  flowing : Option Bool := none
  ended : Bool := false
  endEmitted : Bool := false
  destroyed : Bool := false
  decoder : Option StringDecoder := none
  flowScheduled : Bool := false
  consumed : Bool := false

@[simps] def ReadableState.markDestroyed (st : ReadableState ω) : ReadableState ω :=
  { st with destroyed := true }

/-- A write that waits for its turn, and whether it has a callback. -/
structure Write (ω : Type) where
  payload : Chunk ω
  size : ℕ
  callback : Bool

/-- `_ws`. -/
structure WritableState (ω : Type) where
  ending : Bool := false
  finished : Bool := false
  finishEmitted : Bool := false
  pending : ℤ := 0
  destroyed : Bool := false
  buffered : ℤ := 0
  needDrain : Bool := false
  writing : Bool := false
  writeQueue : List (Write ω) := []
  highWaterMark : ℤ
  objectMode : Bool

@[simps] def WritableState.markDestroyed (st : WritableState ω) : WritableState ω :=
  { st with destroyed := true }

inductive Class
  | readable | writable | duplex | transform
deriving DecidableEq

/-- The class and the options of the constructor, and which methods are given. -/
structure Setup where
  cls : Class
  highWaterMark : Option ℤ := none
  objectMode : Bool := false
  readableObjectMode : Bool := false
  writableObjectMode : Bool := false
  encoding : Option Encoding := none
  write : Bool := false
  final : Bool := false
  destroy : Bool := false
  flush : Bool := false
  toText : Encoding → Bytes → Ecma.JsString

namespace Setup

variable (o : Setup)

/-- The `_rs` of `Readable`. -/
def initReadable : ReadableState ω where
  highWaterMark := o.highWaterMark.getD (if o.objectMode then 16 else 16384)
  objectMode := o.objectMode || o.readableObjectMode
  decoder := o.encoding.map fun e => { encoding := e }

def initWritable : WritableState ω where
  highWaterMark := o.highWaterMark.getD (if o.objectMode || o.writableObjectMode then 16 else 16384)
  objectMode := o.objectMode || o.writableObjectMode

/-- `_write` is the one of `Transform`. -/
def transforms : Bool := o.cls = .transform && !o.write

/-- `_final` is the one of `Transform`. -/
def flushes : Bool := o.cls = .transform && !o.final

end Setup

/-! ### Events, frames and the state -/

inductive Event (ω : Type)
  | data (c : Chunk ω)
  | readable
  | end
  | finish
  | drain
  | close
  | error (e : Error)
  | resume
  | pause

/-- What `push`, `write` and `read` return. -/
inductive Value (ω : Type)
  | bool (b : Bool)
  | chunk (c : Option (Chunk ω))

/-- What the guest sees of a stream, and the values that calls from the stream's own code return. -/
inductive Output (ω : Type)
  | event (e : Event ω)
  | returned (v : Value ω)
  | callback (err : Option Error)

/-- A callback in the queue of `process.nextTick`. -/
inductive Tick
  | flow
  /-- The `'readable'` after `push(null)`. -/
  | readable
  | finish
  /-- The error of a write after the end, which has a callback or not. -/
  | writeError (callback : Bool)
deriving DecidableEq

/-- The rest of a callback of `process.nextTick`. -/
inductive Task
  /-- `_flowNow` at the head of its loop. -/
  | flowLoop
  /-- `_flowNow` after `_callRead`. -/
  | flowRead
  /-- `_flowNow` after the `'data'` of what the decoder held back. -/
  | flowEnd
  | emitClose
  | emitError
deriving DecidableEq

inductive Frame (ω : Type)
  | guest
  /-- The `try` of `_callRead`. -/
  | tryRead
  | ret (v : Value ω)
  /-- `read` after `_callRead`. -/
  | readRest (size : Option ℕ)
  | scheduleFlow
  | push (c : Option (Chunk ω))
  /-- `push` after its event. -/
  | pushRest
  /-- `write` after `_processWriteQueue`. -/
  | writeRest
  /-- `end` after its write. -/
  | endRest
  /-- The function that `_write` gets. -/
  | writeCallback (w : Write ω) (err : Option Error)
  | afterWrite
  | writeFailed (err : Error)
  | maybeFinish
  | processWriteQueue
  /-- The loop of `_failWriteQueue`. -/
  | failWrites (err : Error) (items : List (Write ω))
  /-- The function that `_final` gets. -/
  | finalCallback (err : Option Error)
  | destroy (err : Option Error)
  /-- `destroy` after `_failWriteQueue`. -/
  | callDestroy (err : Option Error)
  | emitClose

/-- A stream with the functions it has handed out and the queue of `process.nextTick`. -/
structure State (ω : Type) where
  setup : Setup
  rs : Option (ReadableState ω)
  ws : Option (WritableState ω)
  destroyed : Bool := false
  closeEmitted : Bool := false
  writeCb : Option (Write ω) := none
  finalCb : Bool := false
  destroyCb : Bool := false
  ticks : List Tick := []
  task : Option Task := none
  stack : List (Frame ω) := []
  log : List (Output ω) := []

def start (ω : Type) (o : Setup) : State ω where
  setup := o
  rs := if o.cls = .writable then none else some o.initReadable
  ws := if o.cls = .readable then none else some o.initWritable

namespace State

variable (s : State ω)

@[simps] def frames (fs : List (Frame ω)) : State ω := { s with stack := fs ++ s.stack }

@[simps] def callGuest : State ω := { s with stack := .guest :: s.stack }

@[simps] def record (o : Output ω) : State ω := { s with log := s.log ++ [o] }

/-- `emit`: the listeners are guest code. -/
@[simps] def emit (e : Event ω) : State ω :=
  { s with log := s.log ++ [.event e], stack := .guest :: s.stack }

@[simps] def nextTick (t : Tick) : State ω := { s with ticks := s.ticks ++ [t] }

@[simps] def setReadable (st : ReadableState ω) : State ω := { s with rs := some st }

@[simps] def setWritable (st : WritableState ω) : State ω := { s with ws := some st }

@[simps] def thenTask (t : Task) : State ω := { s with task := some t }

/-! ### Closing -/

/-- `!rs || rs.endEmitted || rs.destroyed`. -/
def readDone : Bool := s.rs.all fun st => st.endEmitted || st.destroyed

/-- `!ws || ws.finishEmitted || ws.destroyed`. -/
def writeDone : Bool := s.ws.all fun st => st.finishEmitted || st.destroyed

def emitClose : State ω :=
  if s.closeEmitted then s
  else if s.readDone && s.writeDone then { s with closeEmitted := true }.emit .close
  else s

def failWriteQueue (err : Error) : State ω :=
  match s.ws with
  | none => s
  | some st => (s.setWritable { st with writeQueue := [] }).frames [.failWrites err st.writeQueue]

/-- `destroy` of the three classes: each marks the halves it has. -/
def destroy (err : Option Error) : State ω :=
  if (s.rs.any fun st => st.destroyed) || s.ws.any fun st => st.destroyed then s
  else
    let s' := { s with
      rs := s.rs.map ReadableState.markDestroyed
      ws := s.ws.map WritableState.markDestroyed
      destroyed := true }
    (s'.frames [.callDestroy err]).failWriteQueue (err.getD .streamDestroyed)

/-- The function `done` of `destroy`. -/
def destroyDone (e : Option Error) : State ω :=
  match e with
  | some e => (s.frames [.emitClose]).emit (.error e)
  | none => s.emitClose

/-- `destroy` calls `_destroy`, if there is one. -/
def callDestroy (err : Option Error) : State ω :=
  if s.setup.destroy then { s with destroyCb := true }.callGuest else s.destroyDone err

/-! ### The readable half -/

def chunkSize (st : ReadableState ω) (chunk : Chunk ω) : ℕ :=
  if st.objectMode then 1 else chunk.length

def scheduleFlow : State ω :=
  match s.rs with
  | none => s
  | some st =>
    if st.flowScheduled then s
    else (s.setReadable { st with flowScheduled := true }).nextTick .flow

def callRead : State ω := s.frames [.guest, .tryRead]

/-- `push(null)`. -/
def pushEnd (st : ReadableState ω) : State ω :=
  let s := s.setReadable { st with ended := true }
  let s := if st.flowing ≠ some true ∧ st.buffer ≠ [] then s.nextTick .readable else s
  s.scheduleFlow.record (.returned (.bool false))

def push (chunk : Option (Chunk ω)) : State ω :=
  match s.rs with
  | none => s
  | some st =>
    if st.destroyed then s.record (.returned (.bool false))
    else match chunk with
    | none => s.pushEnd st
    | some item =>
      if st.ended then (s.frames [.ret (.bool false)]).destroy (some .pushAfterEOF)
      else
        let s := s.setReadable { st with
          buffer := st.buffer ++ [item]
          length := st.length + chunkSize st item }
        if st.flowing = some true then (s.frames [.pushRest]).scheduleFlow
        else (s.frames [.pushRest]).emit .readable

/-- The backpressure signal of `push`. -/
def pushRest : State ω :=
  match s.rs with
  | none => s
  | some st => s.record (.returned (.bool (st.length < st.highWaterMark)))

def unshift (item : Chunk ω) : State ω :=
  match s.rs with
  | none => s
  | some st => s.setReadable { st with
      buffer := item :: st.buffer
      length := st.length + chunkSize st item }

/-- `read` hands out what it took from the buffer, and ends an exhausted stream. -/
def readOut (st : ReadableState ω) (out : Chunk ω) : State ω :=
  let s := s.setReadable st
  let s := if st.ended ∧ st.buffer = [] then s.scheduleFlow else s
  s.record (.returned (.chunk (some out)))

/-- `decoder.write(out)`, if there is a decoder. -/
def decode (st : ReadableState ω) (out : Chunk ω) : ReadableState ω × Chunk ω :=
  match st.decoder with
  | none => (st, out)
  | some d =>
    let r := d.write s.setup.toText out.data
    ({ st with decoder := some r.1 }, .text r.2)

/-- `read` takes the whole buffer. -/
def readAll (st : ReadableState ω) : State ω :=
  let out := match st.buffer with
    | [c] => c
    | cs => .bytes (concat cs)
  let r := s.decode { st with buffer := [], length := 0 } out
  s.readOut r.1 r.2

/-- `read` with a buffer that is not empty. -/
def readBuffered (st : ReadableState ω) (size : Option ℕ) : State ω :=
  if st.objectMode then
    match st.buffer with
    | [] => s
    | out :: rest => s.readOut { st with buffer := rest, length := st.length - 1 } out
  else
    let avail := totalLength st.buffer
    match size with
    | none => s.readAll st
    | some n =>
      if avail < n ∧ st.ended = false then (s.frames [.ret (.chunk none)]).callRead
      else if avail ≤ n then s.readAll st
      else
        let joined := concat st.buffer
        let r := s.decode { st with
          buffer := [.bytes (joined.drop n)]
          length := joined.length - n } (.bytes (joined.take n))
        s.readOut r.1 r.2

/-- `read` after `_callRead`. -/
def readRest (size : Option ℕ) : State ω :=
  match s.rs with
  | none => s
  | some st =>
    if st.buffer = [] then s.record (.returned (.chunk none)) else s.readBuffered st size

def read (size : Option ℕ) : State ω :=
  match s.rs with
  | none => s
  | some st =>
    if st.destroyed then s.record (.returned (.chunk none))
    else
      let st := { st with consumed := true }
      let s := s.setReadable st
      if st.buffer = [] then
        if st.ended then s.scheduleFlow.record (.returned (.chunk none))
        else (s.frames [.readRest size]).callRead
      else s.readBuffered st size

def setEncoding (e : Encoding) : State ω :=
  match s.rs with
  | none => s
  | some st => s.setReadable { st with decoder := some { encoding := e } }

def resume : State ω :=
  match s.rs with
  | none => s
  | some st =>
    if st.flowing = some true then s
    else ((s.setReadable { st with flowing := some true }).frames [.scheduleFlow]).emit .resume

def pause : State ω :=
  match s.rs with
  | none => s
  | some st =>
    if st.flowing = some false then s
    else (s.setReadable { st with flowing := some false }).emit .pause

/-- `on("data", …)`, also that of `pipe`. -/
def onData : State ω :=
  match s.rs with
  | none => s
  | some st => if st.flowing = none then s.resume else s

/-- The `'end'` of `_flowNow`. -/
def flowEnd : State ω := (s.thenTask .emitClose).emit .end

/-- `_flowNow` after `_callRead`. -/
def flowRead : State ω :=
  match s.rs with
  | none => s
  | some st =>
    if st.ended ∧ st.buffer = [] ∧ st.endEmitted = false ∧
        (st.flowing = some true ∨ st.consumed) then
      let st := { st with endEmitted := true }
      match st.decoder with
      | none => (s.setReadable st).flowEnd
      | some d =>
        let rest := d.flush s.setup.toText
        let s := s.setReadable { st with decoder := some rest.1 }
        if rest.2 = [] then s.flowEnd else (s.thenTask .flowEnd).emit (.data (.text rest.2))
    else s

/-- `_flowNow` from the head of its loop. -/
def flowLoop : State ω :=
  match s.rs with
  | none => s
  | some st =>
    if st.destroyed then s
    else if st.flowing = some true then
      match st.buffer with
      | chunk :: rest =>
        let st := { st with buffer := rest, length := st.length - chunkSize st chunk }
        let r := if st.objectMode then (st, chunk) else s.decode st chunk
        ((s.setReadable r.1).thenTask .flowLoop).emit (.data r.2)
      | [] => if st.ended then s.flowRead else (s.thenTask .flowRead).callRead
    else s.flowRead

/-! ### The writable half -/

def processWriteQueue : State ω :=
  match s.ws with
  | none => s
  | some st =>
    if st.writing || st.destroyed then s
    else match st.writeQueue with
    | [] => s
    | w :: rest =>
      { s.setWritable { st with writing := true, writeQueue := rest } with
        writeCb := some w }.callGuest

def write (chunk : Chunk ω) (callback : Bool) : State ω :=
  match s.ws with
  | none => s
  | some st =>
    if st.ending || st.destroyed then
      (s.nextTick (.writeError callback)).record (.returned (.bool false))
    else
      let size := if st.objectMode then 1 else chunk.length
      let s := s.setWritable { st with
        pending := st.pending + 1
        buffered := st.buffered + size
        writeQueue := st.writeQueue ++ [{ payload := chunk, size := size, callback := callback }] }
      (s.frames [.writeRest]).processWriteQueue

/-- The backpressure signal of `write`. -/
def writeRest : State ω :=
  match s.ws with
  | none => s
  | some st =>
    if st.highWaterMark ≤ st.buffered then
      (s.setWritable { st with needDrain := true }).record (.returned (.bool false))
    else s.record (.returned (.bool true))

def callCallback (w : Write ω) (err : Option Error) : State ω :=
  if w.callback then (s.record (.callback err)).callGuest else s

/-- The function that `_write` gets. -/
def writeCallback (w : Write ω) (err : Option Error) : State ω :=
  match s.ws with
  | none => s
  | some st =>
    let s := s.setWritable { st with
      writing := false
      pending := st.pending - 1
      buffered := st.buffered - w.size }
    match err with
    | some e => (s.frames [.writeFailed e]).callCallback w err
    | none => (s.frames [.afterWrite]).callCallback w none

def afterWrite : State ω :=
  match s.ws with
  | none => s
  | some st =>
    let s := s.frames [.maybeFinish, .processWriteQueue]
    if st.needDrain ∧ st.buffered < st.highWaterMark ∧ st.ending = false then
      (s.setWritable { st with needDrain := false }).emit .drain
    else s

def writeFailed (err : Error) : State ω := (s.frames [.destroy (some err)]).failWriteQueue err

/-- The loop of `_failWriteQueue`. -/
def failWrites (err : Error) (items : List (Write ω)) : State ω :=
  match s.ws, items with
  | some st, w :: rest =>
    let s := s.setWritable { st with
      pending := st.pending - 1
      buffered := st.buffered - w.size }
    (s.frames [.failWrites err rest]).callCallback w (some err)
  | _, _ => s

def maybeFinish : State ω :=
  match s.ws with
  | none => s
  | some st =>
    if st.ending = false ∨ st.finished ∨ 0 < st.pending ∨ st.destroyed then s
    else
      let s := s.setWritable { st with finished := true }
      if s.setup.final || (s.setup.flushes && s.setup.flush) then
        { s with finalCb := true }.callGuest
      else if s.setup.flushes then s.frames [.push none, .finalCallback none]
      else s.nextTick .finish

/-- The function that `_final` gets. -/
def finalCallback (err : Option Error) : State ω :=
  match err with
  | some e => s.destroy (some e)
  | none => s.nextTick .finish

/-- `end` after its write. -/
def endRest : State ω :=
  match s.ws with
  | none => s
  | some st => (s.setWritable { st with ending := true }).maybeFinish

def end_ (chunk : Option (Chunk ω)) : State ω :=
  match chunk with
  | none => s.endRest
  | some c => (s.frames [.endRest]).write c false

/-! ### The functions handed to the guest -/

/-- The guest has done a `_write`; the function that `_transform` gets also takes an output. -/
def completeWrite (w : Write ω) (err : Option Error) (out : Option (Chunk ω)) : State ω :=
  if s.setup.transforms && err.isNone then
    s.frames ((out.toList.map fun c => .push (some c)) ++ [.writeCallback w none])
  else s.frames [.writeCallback w err]

/-- The guest has done a `_final`; the function that `_flush` gets also takes an output. -/
def completeFinal (err : Option Error) (out : Option (Chunk ω)) : State ω :=
  if s.setup.flushes then
    s.frames ((out.toList.map fun c => .push (some c)) ++ [.push none, .finalCallback err])
  else s.frames [.finalCallback err]

/-! ### Steps -/

def exec : Frame ω → State ω
  | .guest | .tryRead => s
  | .ret v => s.record (.returned v)
  | .readRest size => s.readRest size
  | .scheduleFlow => s.scheduleFlow
  | .push c => s.push c
  | .pushRest => s.pushRest
  | .writeRest => s.writeRest
  | .endRest => s.endRest
  | .writeCallback w err => s.writeCallback w err
  | .afterWrite => s.afterWrite
  | .writeFailed err => s.writeFailed err
  | .maybeFinish => s.maybeFinish
  | .processWriteQueue => s.processWriteQueue
  | .failWrites err items => s.failWrites err items
  | .finalCallback err => s.finalCallback err
  | .destroy err => s.destroy err
  | .callDestroy err => s.callDestroy err
  | .emitClose => s.emitClose

/-- The rest of a callback of `process.nextTick`. -/
def execTask : Task → State ω
  | .flowLoop => s.flowLoop
  | .flowRead => s.flowRead
  | .flowEnd => s.flowEnd
  | .emitClose => s.emitClose
  | .emitError => s.emit (.error .writeAfterEnd)

/-- The event loop starts a callback of `process.nextTick`. -/
def runTick : Tick → State ω
  | .flow =>
    match s.rs with
    | none => s
    | some st => (s.setReadable { st with flowScheduled := false }).flowLoop
  | .readable =>
    match s.rs with
    | none => s
    | some st => if st.endEmitted || st.destroyed then s else s.emit .readable
  | .finish =>
    match s.ws with
    | none => s
    | some st =>
      ((s.setWritable { st with finishEmitted := true }).thenTask .emitClose).emit .finish
  | .writeError callback =>
    if callback then
      ((s.thenTask .emitError).record (.callback (some .writeAfterEnd))).callGuest
    else s.emit (.error .writeAfterEnd)

def catcher (stack : List (Frame ω)) : List (Frame ω) :=
  stack.dropWhile fun f => match f with
    | .guest | .tryRead => false
    | _ => true

def throw (e : Error) : State ω :=
  match catcher s.stack.tail with
  | [] => { s with stack := [], task := none }
  | .tryRead :: rest => { s with stack := rest }.destroy (some e)
  | rest => { s with stack := rest }

end State

inductive Call (ω : Type)
  | push (c : Option (Chunk ω))
  | unshift (c : Chunk ω)
  | read (size : Option ℕ)
  | setEncoding (e : Encoding)
  | onData
  | resume
  | pause
  | write (c : Chunk ω) (callback : Bool)
  | end (c : Option (Chunk ω))
  | destroy (err : Option Error)
  /-- The function handed to `_write` or `_transform` is called. -/
  | writeCallback (err : Option Error) (out : Option (Chunk ω))
  /-- The function handed to `_final` or `_flush` is called. -/
  | finalCallback (err : Option Error) (out : Option (Chunk ω))
  /-- The function handed to `_destroy` is called. -/
  | destroyCallback (err : Option Error)
  | ret
  | throw (e : Error)

inductive Act (ω : Type)
  | guest (c : Call ω)
  | code
  /-- The event loop runs the next callback of `process.nextTick`. -/
  | tick
  | macrotask

namespace State

variable (s : State ω)

def call : Call ω → Option (State ω)
  | .push c => s.rs.map fun _ => s.push c
  | .unshift c => s.rs.map fun _ => s.unshift c
  | .read size => s.rs.map fun _ => s.read size
  | .setEncoding e => s.rs.map fun _ => s.setEncoding e
  | .onData => s.rs.map fun _ => s.onData
  | .resume => s.rs.map fun _ => s.resume
  | .pause => s.rs.map fun _ => s.pause
  | .write c callback => s.ws.map fun _ => s.write c callback
  | .end c => s.ws.map fun _ => s.end_ c
  | .destroy err => some (s.destroy err)
  | .writeCallback err out =>
    s.writeCb.map fun w => { s with writeCb := none }.completeWrite w err out
  | .finalCallback err out =>
    if s.finalCb then some ({ s with finalCb := false }.completeFinal err out) else none
  | .destroyCallback err =>
    if s.destroyCb then some ({ s with destroyCb := false }.destroyDone err) else none
  | .ret => some { s with stack := s.stack.tail }
  | .throw e => some (s.throw e)

/-- The event loop has control. -/
def Idle : Prop := s.stack = [] ∧ s.task = none

instance : Decidable s.Idle := inferInstanceAs (Decidable (_ ∧ _))

end State

open State in
def step (s : State ω) : Act ω → Option (State ω)
  | .guest c =>
    match s.stack with
    | .guest :: _ => s.call c
    | _ => none
  | .code =>
    match s.stack, s.task with
    | .guest :: _, _ => none
    | f :: rest, _ => some ({ s with stack := rest }.exec f)
    | [], some t => some ({ s with task := none }.execTask t)
    | [], none => none
  | .tick =>
    match s.ticks with
    | t :: rest => if s.Idle then some ({ s with ticks := rest }.runTick t) else none
    | [] => none
  | .macrotask => if s.Idle then some s.callGuest else none

end GoSpidermonkey.Nodejs.Stream
