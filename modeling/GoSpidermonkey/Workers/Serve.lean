import GoSpidermonkey.Lib.Machine
import GoSpidermonkey.Workers.Glue

/-!
# Serving requests on a pooled Workers instance

The host half (`worker.serve`, `runNonFetch`, `serveStreamingBody` and `drainWaitUntil` in
`compat/cfworkers/cfworkers.go`) as a machine. One instance serves requests one after another.
Between the phases of the event loop the guest runs promise jobs, so a step of the machine is
either a move of the host or one guest job: a handler promise settling, a `waitUntil` promise being
registered or settling, a stream pump writing a chunk. Handlers of abandoned requests stay alive
in the realm, so any of these may belong to an earlier request.
-/

namespace GoSpidermonkey.Workers

inductive Reply
  | response (status : Int) (headers : List (Bytes × Bytes)) (body : Bytes)
  | head (status : Int) (headers : List (Bytes × Bytes))
  | chunk (data : Bytes)
  | aborted
  | error (text : Bytes)
  | done
deriving DecidableEq

/-- One thing reported for request `req`, with the slot it was computed from, if any. -/
structure Report where
  req : ℕ
  reply : Reply
  source : Option Slot
deriving DecidableEq

inductive Phase
  | pooled
  | running (k : ℕ) (kind : Kind)
  | streaming (k : ℕ)
  | draining (k : ℕ)
  | resetting (k : ℕ)
deriving DecidableEq

/-- `streamSink`: the target of the shared streaming callbacks. -/
structure StreamSink where
  pumpDone : Bool
  failed : Bool

/-- A pump started by `__cfw_stream_body`, reading the response of the slot it found. -/
structure Pump where
  gen : ℕ
  source : Slot

/-- A warmed instance together with what has been reported so far. -/
structure Instance where
  exports : Exports
  glue : Glue
  phase : Phase
  next : ℕ
  live : List (ℕ × Kind)
  /-- The `waitUntil` promises that have not settled yet, by request. -/
  tracked : List ℕ
  sink : Option StreamSink
  streamGen : ℕ
  pumps : List Pump
  settled : List (ℕ × Settlement)
  reports : List Report

/-- The instance `newWorker` puts into the pool. -/
def boot (e : Exports) : Instance where
  exports := e
  glue := ⟨none, 0⟩
  phase := .pooled
  next := 0
  live := []
  tracked := []
  sink := none
  streamGen := 0
  pumps := []
  settled := []
  reports := []

/-! ### Reading the slot -/

/-- A status outside `100..999` would panic `WriteHeader`. -/
def clampStatus (status : Int) : Int := if status < 100 ∨ 999 < status then 500 else status

/-- `http.Header.Get`: the first value of a header, empty when there is none. -/
def headerGet (h : List (Bytes × Bytes)) (name : Bytes) : Bytes :=
  ((h.find? fun p => eqFold p.1 name).map Prod.snd).getD []

/-- With `waitUntil` work pending the body is flushed at once, under an explicit length. -/
def withLength (waiting : Int) (h : List (Bytes × Bytes)) (body : Bytes) : List (Bytes × Bytes) :=
  if 0 < waiting ∧ headerGet h (str "Content-Length") = []
      ∧ headerGet h (str "Transfer-Encoding") = [] then
    h.filter (fun p => !eqFold p.1 (str "Content-Length"))
      ++ [(str "Content-Length", str (toString body.length))]
  else h

/-- The outcome of reading the slot: a reply, or a body to stream. -/
inductive Outcome
  | reply (r : Reply)
  | stream (m : Meta)

/-- The tail of `worker.serve`, once the handler promise is seen to have settled. -/
def readFetch (waiting : Int) : Settlement → Outcome
  | .error msg => .reply (.error (str "worker error: " ++ msg))
  | .ok resp =>
    match responseMeta resp with
    | .error e => .reply (.error (str "reading response: " ++ e))
    | .ok m =>
      if needsStream resp then .stream m
      else
        let body := responseBody resp
        .reply (.response (clampStatus m.status) (withLength waiting m.headers body) body)

/-- The tail of `runNonFetch`, once the handler promise is seen to have settled. -/
def readNonFetch : Settlement → Reply
  | .error msg => .error (str "worker error: " ++ msg)
  | .ok _ => .done

/-- After a full response the `waitUntil` work is drained; an error goes straight to the reset. -/
def afterReply (k : ℕ) : Reply → Phase
  | .error _ => .resetting k
  | _ => .draining k

/-- The text of an error that `RunUntil` itself returned. -/
def runError (kind : Kind) (err : Bytes) : Bytes :=
  match kind with
  | .fetch => str "handler failed: " ++ err
  | _ => err

/-! ### Steps -/

inductive Act
  | serve (kind : Kind)
  /-- A call checks the instance out and fails before its handler starts. -/
  | refuse (text : Bytes)
  /-- The handler promise of request `i` settles and its closure runs. -/
  | settle (i : ℕ) (v : Settlement)
  /-- `ctx.waitUntil` is called with the context of request `i`. -/
  | waitUntil (i : ℕ)
  /-- A promise registered by request `i` settles. -/
  | waitSettled (i : ℕ)
  /-- `RunUntil` returns nil: the slot is set, or the loop went idle. -/
  | returned
  /-- `RunUntil` returns an error, for instance because ctx ended. -/
  | failed (err : Bytes)
  /-- A pump calls `write(gen, chunk)`. -/
  | write (gen : ℕ) (chunk : Bytes)
  /-- A pump calls `done(gen)`. -/
  | pumpDone (gen : ℕ)
  /-- A pump calls `fail(gen, msg)`. -/
  | pumpFail (gen : ℕ)
  /-- The `RunUntil` of `serveStreamingBody` returns. -/
  | streamOver
  /-- The `RunUntil` of `drainWaitUntil` returns. -/
  | drained
  /-- `ResetPerRequest` and `Loop.Reset` are through and the instance is back in the pool. -/
  | reset

def stored : Kind → Settlement → Settlement
  | .fetch, v => v
  | _, .ok _ => .ok .other
  | _, .error msg => .error msg

/-- Record a reply for request `k`. -/
def Instance.report (s : Instance) (k : ℕ) (r : Reply) (source : Option Slot) : Instance :=
  { s with reports := ⟨k, r, source⟩ :: s.reports }

/-- `__cfw_run` and its siblings, called by the host for a fresh request. -/
def Instance.start (s : Instance) (kind : Kind) : Instance :=
  let k := s.next
  { s with
    glue := s.glue.run s.exports kind k
    phase := .running k kind
    next := k + 1
    live := if s.exports.has kind then (k, kind) :: s.live else s.live
    settled := if s.exports.has kind then s.settled
      else (k, .error (noHandler kind)) :: s.settled }

/-- `serveStreamingBody`: the head goes out and the pump is started under a fresh generation. -/
def Instance.openStream (s : Instance) (k : ℕ) (m : Meta) (slot : Slot) : Instance :=
  { s.report k (.head (clampStatus m.status) m.headers) (some slot) with
    phase := .streaming k
    sink := some ⟨false, false⟩
    streamGen := s.streamGen + 1
    pumps := ⟨s.streamGen + 1, slot⟩ :: s.pumps }

def Instance.respond (s : Instance) (k : ℕ) (r : Reply) (slot : Slot) : Instance :=
  { s.report k r (some slot) with phase := afterReply k r }

/-- What the host does when `RunUntil` returned nil for request `k`. -/
def Instance.finish (s : Instance) (k : ℕ) (kind : Kind) : Instance :=
  match s.glue.result with
  | none =>
    { s.report k (.error (str "handler never settled")) none with phase := .resetting k }
  | some slot =>
    match kind with
    | .fetch =>
      match readFetch s.glue.waiting slot.value with
      | .stream m => s.openStream k m slot
      | .reply r => s.respond k r slot
    | _ => s.respond k (readNonFetch slot.value) slot

/-- `__cfw_host_done` and `__cfw_host_fail`: only the current generation reaches the sink. -/
def Instance.closePump (s : Instance) (gen : ℕ) (failed : Bool) : Instance :=
  { s with
    pumps := s.pumps.filter fun p => p.gen != gen
    sink := if gen = s.streamGen then s.sink.map fun k => ⟨true, k.failed || failed⟩ else s.sink }

/-- `__cfw_host_write`: a chunk of a stale pump is refused, which makes the guest cancel it. -/
def Instance.hostWrite (s : Instance) (k : ℕ) (p : Pump) (chunk : Bytes) : Instance :=
  if s.sink.isSome ∧ p.gen = s.streamGen then s.report k (.chunk chunk) (some p.source)
  else { s with pumps := s.pumps.filter fun q => q.gen != p.gen }

def Phase.req? : Phase → Option ℕ
  | .pooled => none
  | .running k _ | .streaming k | .draining k | .resetting k => some k

def step (s : Instance) : Act → Option Instance
  | .serve kind => if s.phase = .pooled then some (s.start kind) else none
  | .refuse text =>
    if s.phase = .pooled then
      some { s.report s.next (.error text) none with
        phase := .resetting s.next, next := s.next + 1 }
    else none
  | .settle i v =>
    match s.phase.req?, s.live.find? fun p => p.1 == i with
    | some _, some (_, kind) => some
        { s with
          glue := s.glue.settle i (stored kind v)
          live := s.live.filter fun p => p.1 != i
          settled := (i, stored kind v) :: s.settled }
    | _, _ => none
  | .waitUntil i =>
    if s.phase.req?.isSome ∧ i < s.next then
      some { s with glue := s.glue.track, tracked := i :: s.tracked }
    else none
  | .waitSettled i =>
    if s.phase.req?.isSome ∧ i ∈ s.tracked then
      some { s with glue := s.glue.untrack, tracked := s.tracked.erase i }
    else none
  | .returned =>
    match s.phase with
    | .running k kind => some (s.finish k kind)
    | _ => none
  | .failed err =>
    match s.phase with
    | .running k kind =>
      some { s.report k (.error (runError kind err)) none with phase := .resetting k }
    | _ => none
  | .write gen chunk =>
    match s.phase.req?, s.pumps.find? fun p => p.gen == gen with
    | some k, some p => some (s.hostWrite k p chunk)
    | _, _ => none
  | .pumpDone gen => if s.phase.req?.isSome then some (s.closePump gen false) else none
  | .pumpFail gen => if s.phase.req?.isSome then some (s.closePump gen true) else none
  | .streamOver =>
    match s.phase, s.sink with
    | .streaming k, some ⟨true, false⟩ => some { s with phase := .draining k, sink := none }
    | .streaming k, some _ =>
      some { s.report k .aborted none with phase := .resetting k, sink := none }
    | _, _ => none
  | .drained =>
    match s.phase with
    | .draining k => some { s with phase := .resetting k }
    | _ => none
  | .reset =>
    match s.phase with
    | .resetting _ => some { s with phase := .pooled }
    | _ => none

end GoSpidermonkey.Workers
