import GoSpidermonkey.Go.Bytes

/-!
# The write actor of a connection

`connWriter`: a queue of writes that is drained by a goroutine of its own. The methods set a flag or
append to the queue under the lock and then put a token into the wake channel, which holds at most
one. `run` is cut at the points where it takes the lock, calls the connection or waits; the
acknowledgements that follow a call belong to it.
-/

namespace GoSpidermonkey.Nodejs

/-- A queued write; `onDone` names the callback that acknowledges it. -/
structure ConnWrite where
  data : Bytes
  onDone : Option ℕ
  deriving DecidableEq

structure ConnWriter where
  conn : Bool := false
  queue : List ConnWrite := []
  closeReq : Bool := false
  halfCloseReq : Bool := false
  halfCloseDone : Bool := false
  wake : Bool := false

/-- Where `run` stands. -/
inductive Actor where
  | off
  | top
  /-- In the loop over the batch, with the connection and the close request seen at the top. -/
  | batch (conn : Bool) (q : List ConnWrite) (closeReq : Bool)
  /-- The connection is closed, the writes that came in since are not acknowledged yet. -/
  | leaving
  /-- About to call `CloseWrite`. -/
  | halfClosing
  | waiting
  | returned

/-- What a step of `run` does to the connection. -/
inductive ConnOp where
  | write (data : Bytes)
  | closeWrite
  | close
  deriving DecidableEq

/-- What a step of `run` does outside of the writer. -/
structure Effect where
  acks : List ℕ := []
  conn : Option ConnOp := none

def acksOf (q : List ConnWrite) : List ℕ := q.filterMap ConnWrite.onDone

namespace ConnWriter

variable (w : ConnWriter)

def signal : ConnWriter := { w with wake := true }

/-- `attach`, up to its signal. -/
def attach : ConnWriter := { w with conn := true }

/-- `requestClose`, up to its signal. -/
def requestClose : ConnWriter := { w with closeReq := true }

/-- `requestHalfClose`, up to its signal. -/
def requestHalfClose : ConnWriter := { w with halfCloseReq := true }

def writeSideEnded : Bool := w.halfCloseReq || w.closeReq

/-- The queue part of `enqueue`, for a writer that is not closing. -/
def append (c : ConnWrite) : ConnWriter := { w with queue := w.queue ++ [c] }

def doHalf (conn : Bool) : Bool := w.halfCloseReq && !w.halfCloseDone && w.queue.isEmpty && conn

/-- The steps of `run` other than a call of `Write`; `none` where it waits. -/
def run : Actor → Option (ConnWriter × Actor × Effect)
  | .top =>
    -- writes are held until the connection attaches
    if w.conn then some ({ w with queue := [] }, .batch true w.queue w.closeReq, {})
    else some (w, .batch false [] w.closeReq, {})
  | .batch conn [] true => some (w, .leaving, { conn := if conn then some .close else none })
  | .batch conn [] false =>
    if w.doHalf conn then some ({ w with halfCloseDone := true }, .halfClosing, {})
    else some (w, .waiting, {})
  | .leaving => some ({ w with queue := [] }, .returned, { acks := acksOf w.queue })
  | .halfClosing => some (w, .waiting, { conn := some .closeWrite })
  | .waiting => if w.wake then some ({ w with wake := false }, .top, {}) else none
  | .off | .batch _ (_ :: _) _ | .returned => none

/-- A call of `Write` that returns, with the acknowledgements after it. -/
def wrote (ok : Bool) : Actor → Option (Actor × Effect)
  | .batch conn (c :: q) closeReq =>
    if ok then some (.batch conn q closeReq, { acks := acksOf [c], conn := some (.write c.data) })
    else some (.batch conn [] closeReq, { acks := acksOf (c :: q), conn := some (.write c.data) })
  | _ => none

end ConnWriter

def Actor.closing : Actor → Bool
  | .batch _ _ closeReq => closeReq
  | .leaving | .returned => true
  | _ => false

/-- The actor has seen a close request only if there is one, and only such an actor closes the
connection. -/
lemma ConnWriter.run_closing {w w' : ConnWriter} {a a' : Actor} {e : Effect}
    (h : w.run a = some (w', a', e)) :
    w'.closeReq = w.closeReq ∧ (a'.closing → a.closing ∨ w.closeReq) ∧
      (e.conn = some .close → a.closing) := by
  cases a with
  | off => cases h
  | returned => cases h
  | top =>
    simp only [run] at h
    split_ifs at h
    all_goals
      cases h
      simp [Actor.closing]
  | batch conn q closeReq =>
    cases q with
    | cons c q => cases h
    | nil =>
      cases closeReq with
      | true =>
        cases h
        simp [Actor.closing]
      | false =>
        simp only [run] at h
        split_ifs at h
        all_goals
          cases h
          simp [Actor.closing]
  | leaving | halfClosing =>
    cases h
    simp [Actor.closing]
  | waiting =>
    simp only [run] at h
    split_ifs at h
    cases h
    simp [Actor.closing]

lemma ConnWriter.wrote_closing {ok : Bool} {a a' : Actor} {e : Effect}
    (h : ConnWriter.wrote ok a = some (a', e)) :
    a'.closing = a.closing ∧ e.conn ≠ some .close := by
  unfold ConnWriter.wrote at h
  split at h
  · split_ifs at h
    all_goals
      cases h
      simp [Actor.closing]
  · cases h

end GoSpidermonkey.Nodejs
