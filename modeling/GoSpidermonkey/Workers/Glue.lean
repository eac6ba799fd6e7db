import GoSpidermonkey.Go.Bytes

/-!
# The Workers glue

The guest half of the request/response plumbing (`compat/cfworkers/js/glue.js`). A handler runs as
a promise; the closures that `__cfw_run`, `__cfw_run_scheduled` and `__cfw_run_queue` attach to it
write the one slot `state.result`, which the host polls through `__cfw_status` and reads through
`__cfw_error`, `__cfw_response_meta`, `__cfw_response_needs_stream` and `__cfw_response_body`.

Requests are numbered in the order in which the instance takes them. A slot remembers which
request's closure wrote it; the guest keeps no such mark.
-/

namespace GoSpidermonkey.Workers

/-- The body of a guest `Response`: none, bytes in `_body`, or a `ReadableStream`. -/
inductive Body
  | empty
  | bytes (data : Bytes)
  | stream
deriving DecidableEq

/-- What the glue reads off a guest `Response`. -/
structure Response where
  status : Int
  /-- `headers.entries()` -/
  headers : List (Bytes × Bytes)
  /-- `headers.getSetCookie()` -/
  setCookies : List Bytes
  body : Body
deriving DecidableEq

inductive Resp
  | response (r : Response)
  /-- Anything `__cfw_response_meta` refuses; the `null` of a scheduled or queue handler. -/
  | other
deriving DecidableEq

/-- The settlement of a handler promise, as the glue stores it. -/
inductive Settlement
  | ok (resp : Resp)
  | error (msg : Bytes)
deriving DecidableEq

/-- `state.result`, with the request whose closure wrote it. -/
structure Slot where
  owner : ℕ
  value : Settlement
deriving DecidableEq

inductive Kind
  | fetch
  | scheduled
  | queue
deriving DecidableEq

/-- The handlers the worker module's default export has; `fetch` is required at boot. -/
structure Exports where
  scheduled : Bool
  queue : Bool

/-- `typeof __cfw_handler[name] === "function"`. -/
def Exports.has (e : Exports) : Kind → Bool
  | .fetch => true
  | .scheduled => e.scheduled
  | .queue => e.queue

def noHandler : Kind → Bytes
  | .fetch => []
  | .scheduled => str "worker has no scheduled() handler"
  | .queue => str "worker has no queue() handler"

/-- The `state` object of the glue. -/
structure Glue where
  result : Option Slot
  waiting : Int

/-- `__cfw_run`, `__cfw_run_scheduled` and `__cfw_run_queue`. -/
def Glue.run (_g : Glue) (e : Exports) (kind : Kind) (k : ℕ) : Glue where
  result := if e.has kind then none else some ⟨k, .error (noHandler kind)⟩
  waiting := 0

/-- The closures on the handler promise of request `i`: they write the shared slot. -/
def Glue.settle (g : Glue) (i : ℕ) (v : Settlement) : Glue :=
  { g with result := some ⟨i, v⟩ }

/-- `trackWaitUntil`: count one more promise. -/
def Glue.track (g : Glue) : Glue := { g with waiting := g.waiting + 1 }

/-- The `finally` of `trackWaitUntil`. -/
def Glue.untrack (g : Glue) : Glue := { g with waiting := g.waiting - 1 }

/-- What the host decodes from `__cfw_response_meta`. -/
structure Meta where
  status : Int
  headers : List (Bytes × Bytes)

/-- `__cfw_response_meta`: every `Set-Cookie` is its own pair, after the other headers. -/
def responseMeta : Resp → Except Bytes Meta
  | .other => .error (str "handler did not return a Response")
  | .response r => .ok
      { status := r.status
        headers := r.headers.filter (fun p => p.1 != str "set-cookie")
          ++ r.setCookies.map fun c => (str "set-cookie", c) }

/-- `__cfw_response_needs_stream`. -/
def needsStream : Resp → Bool
  | .response r => r.body == .stream
  | .other => false

/-- `__cfw_response_body`: the buffered bytes, empty when there are none. -/
def responseBody : Resp → Bytes
  | .response r => match r.body with
    | .bytes data => data
    | _ => []
  | .other => []

end GoSpidermonkey.Workers
