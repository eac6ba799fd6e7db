import Mathlib

/-!
# The event loop's state

The fields of `eventloop.Loop` and its methods, each as the function of the state it computes inside
its critical section. Timers and immediates are objects that several lists share: `timer id` and
`immediate id` are the objects, and the lists hold their ids, which `nextID` makes unique. `fn` says
that the callback handle is still held, so `freeFn` sets it to false once and for all. A post is a
value of a type `τ` that the user of the loop chooses.

`l.timers` is a Go map; its keys are a list here, and `takeDue` sorts what it takes by due time and
id, so its result does not depend on the order of the list (`dueTimers_perm`).
-/

namespace GoSpidermonkey.EventLoop

/-- A one-shot timer has interval 0. -/
structure Timer where
  due : ℤ
  interval : ℤ
  fn : Bool
  running : Bool
  cleared : Bool
  unref : Bool

/-- A timer taken by `takeDue`: a repeating one is due again an interval later. -/
def Timer.take (now : ℤ) (t : Timer) : Timer :=
  { t with running := true, due := if 0 < t.interval then now + t.interval else t.due }

/-- `timer.freeFn`. -/
def Timer.free (t : Timer) : Timer := { t with fn := false }

structure Immediate where
  fn : Bool
  cleared : Bool

/-- `immediate.freeFn`. -/
def Immediate.free (im : Immediate) : Immediate := { im with fn := false }

structure Loop (τ : Type) where
  nextID : ℕ
  timer : ℕ → Timer
  timers : List ℕ
  dueBatch : List ℕ
  immediate : ℕ → Immediate
  immediates : List ℕ
  batch : List ℕ
  posts : List τ
  pending : ℤ
  unrefPending : ℕ
  wake : Bool

namespace Loop

variable {τ : Type}

def new : Loop τ where
  nextID := 0
  timer := fun _ => ⟨0, 0, false, false, false, false⟩
  timers := []
  dueBatch := []
  immediate := fun _ => ⟨false, false⟩
  immediates := []
  batch := []
  posts := []
  pending := 0
  unrefPending := 0
  wake := false

variable (l : Loop τ)

/-! ### Objects -/

def setTimerObj (id : ℕ) (t : Timer) : Loop τ := { l with timer := Function.update l.timer id t }

def setImmediateObj (id : ℕ) (im : Immediate) : Loop τ :=
  { l with immediate := Function.update l.immediate id im }

def freeTimer (id : ℕ) : Loop τ := l.setTimerObj id (l.timer id).free

def freeImmediate (id : ℕ) : Loop τ := l.setImmediateObj id (l.immediate id).free

def freeTimers (ids : List ℕ) : Loop τ := ids.foldl freeTimer l

def freeImmediates (ids : List ℕ) : Loop τ := ids.foldl freeImmediate l

/-! ### Timers -/

/-- `wakeup`: the channel holds at most one token. -/
def wakeup : Loop τ := { l with wake := true }

def millisecond : ℤ := 1000000

/-- The delay `SetTimer` uses. -/
def clampDelay (delay : ℤ) (rep : Bool) : ℤ :=
  let delay := if delay < 0 then 0 else delay
  let delay := if 2147483647 * millisecond < delay then millisecond else delay
  if rep ∧ delay < millisecond then millisecond else delay

/-- `SetTimer`; the id is the new `nextID`. -/
def setTimer (now delay : ℤ) (rep : Bool) : Loop τ :=
  let delay := clampDelay delay rep
  let id := l.nextID + 1
  wakeup { l with
    nextID := id
    timer := Function.update l.timer id
      { due := now + delay, interval := if rep then delay else 0, fn := true, running := false
        cleared := false, unref := false }
    timers := l.timers ++ [id] }

/-- What `ClearTimer` does to a timer it finds. -/
def cancelTimer (id : ℕ) : Loop τ :=
  let t := l.timer id
  l.setTimerObj id { t with cleared := true, fn := t.fn && t.running }

def clearTimer (id : ℕ) : Loop τ :=
  if id ∈ l.timers then { l.cancelTimer id with timers := l.timers.filter (· ≠ id) }
  else if id ∈ l.dueBatch then l.cancelTimer id
  else l

def setTimerRef (id : ℕ) (ref : Bool) : Loop τ :=
  if id ∈ l.timers ∨ id ∈ l.dueBatch then l.setTimerObj id { l.timer id with unref := !ref } else l

/-- `ClearTimer` changes the timers only. -/
lemma clearTimer_frame (id : ℕ) :
    ∃ timer timers, l.clearTimer id = { l with timer, timers } := by
  unfold clearTimer
  split_ifs
  · exact ⟨_, _, rfl⟩
  · exact ⟨_, _, rfl⟩
  · exact ⟨_, _, rfl⟩

/-- `SetTimerRef` changes the timer's object only. -/
lemma setTimerRef_frame (id : ℕ) (ref : Bool) :
    ∃ timer, l.setTimerRef id ref = { l with timer } := by
  unfold setTimerRef
  split_ifs
  · exact ⟨_, rfl⟩
  · exact ⟨_, rfl⟩

/-- `less` of `takeDue`, with equality. -/
def dueLe (a b : ℕ) : Prop :=
  (l.timer a).due < (l.timer b).due ∨ (l.timer a).due = (l.timer b).due ∧ a ≤ b

instance : DecidableRel l.dueLe := fun a b =>
  inferInstanceAs
    (Decidable ((l.timer a).due < (l.timer b).due ∨ (l.timer a).due = (l.timer b).due ∧ a ≤ b))

/-- The timers due at `now`, earliest first. -/
def dueTimers (now : ℤ) : List ℕ :=
  (l.timers.filter fun id => (l.timer id).due ≤ now).insertionSort l.dueLe

lemma dueTimers_perm {timers : List ℕ} (h : timers.Perm l.timers) (now : ℤ) :
    { l with timers := timers }.dueTimers now = l.dueTimers now := by
  have htrans : IsTrans ℕ l.dueLe := ⟨fun a b c hab hbc => by unfold dueLe at *; omega⟩
  have htotal : Std.Total l.dueLe := ⟨fun a b => by unfold dueLe; omega⟩
  refine List.Perm.eq_of_pairwise ?_ (List.pairwise_insertionSort l.dueLe _)
    (List.pairwise_insertionSort l.dueLe _) ?_
  · intro a b _ _ hab hba
    unfold dueLe at hab hba
    omega
  · exact ((List.perm_insertionSort _ _).trans (h.filter _)).trans
      (List.perm_insertionSort _ _).symm

theorem dueTimers_perm_two : { (new : Loop ℕ) with timers := [2, 1] }.dueTimers 0 = [1, 2] :=
  (dueTimers_perm { new with timers := [1, 2] } (.swap 1 2 []) 0).trans (by decide)

/-- `takeDue`: one-shots leave the map, repeating timers are armed again in place. -/
def takeDue (now : ℤ) : Loop τ :=
  let due := l.dueTimers now
  { l with
    timer := fun id => if id ∈ due then (l.timer id).take now else l.timer id
    timers := l.timers.filter fun id => id ∉ due ∨ 0 < (l.timer id).interval
    dueBatch := due }

/-! ### Immediates -/

/-- `PostImmediate`; the id is the new `nextID`. -/
def postImmediate : Loop τ :=
  let id := l.nextID + 1
  wakeup { l with
    nextID := id
    immediate := Function.update l.immediate id ⟨true, false⟩
    immediates := l.immediates ++ [id] }

/-- `ClearImmediate` only marks the entry. -/
def clearImmediate (id : ℕ) : Loop τ :=
  if id ∈ l.immediates ∨ id ∈ l.batch then
    l.setImmediateObj id { l.immediate id with cleared := true }
  else l

/-- `ClearImmediate` changes the immediate's object only. -/
lemma clearImmediate_frame (id : ℕ) :
    ∃ immediate, l.clearImmediate id = { l with immediate } := by
  unfold clearImmediate
  split_ifs
  · exact ⟨_, rfl⟩
  · exact ⟨_, rfl⟩

def takeImmediates : Loop τ := { l with immediates := [], batch := l.immediates }

/-! ### Dropping work -/

def clearTimers : Loop τ :=
  let gone := { l with timers := [], immediates := [], batch := [], dueBatch := [] }
  ((((gone.freeTimers l.timers).freeTimers l.dueBatch).freeImmediates l.immediates).freeImmediates
    l.batch)

/-- `Reset` after its drain. -/
def reset : Loop τ := { l.clearTimers with posts := [], pending := 0, unrefPending := 0 }

lemma freeTimers_eq (ids : List ℕ) :
    l.freeTimers ids = { l with timer := fun id =>
      if id ∈ ids then (l.timer id).free else l.timer id } := by
  induction ids generalizing l with
  | nil => simp [freeTimers]
  | cons i ids ih =>
    have hcons : l.freeTimers (i :: ids) = (l.freeTimer i).freeTimers ids := rfl
    rw [hcons, ih]
    simp only [freeTimer, setTimerObj, mk.injEq, and_true, true_and]
    funext id
    by_cases h : id = i
    · subst h
      by_cases hm : id ∈ ids <;> simp [hm, Timer.free]
    · simp [h]

lemma freeImmediates_eq (ids : List ℕ) :
    l.freeImmediates ids = { l with immediate := fun id =>
      if id ∈ ids then (l.immediate id).free else l.immediate id } := by
  induction ids generalizing l with
  | nil => simp [freeImmediates]
  | cons i ids ih =>
    have hcons : l.freeImmediates (i :: ids) = (l.freeImmediate i).freeImmediates ids := rfl
    rw [hcons, ih]
    simp only [freeImmediate, setImmediateObj, mk.injEq, and_true, true_and]
    funext id
    by_cases h : id = i
    · subst h
      by_cases hm : id ∈ ids <;> simp [hm, Immediate.free]
    · simp [h]

/-- `ClearTimers` empties the lists and frees what was in them. -/
lemma clearTimers_eq :
    l.clearTimers = { l with
      timers := [], dueBatch := [], immediates := [], batch := []
      timer := fun id =>
        if id ∈ l.timers ∨ id ∈ l.dueBatch then (l.timer id).free else l.timer id
      immediate := fun id =>
        if id ∈ l.immediates ∨ id ∈ l.batch then (l.immediate id).free
        else l.immediate id } := by
  simp only [clearTimers, freeTimers_eq, freeImmediates_eq, mk.injEq, true_and, and_true]
  constructor
  · funext id
    by_cases h₁ : id ∈ l.timers <;> by_cases h₂ : id ∈ l.dueBatch <;> simp [h₁, h₂, Timer.free]
  · funext id
    by_cases h₁ : id ∈ l.immediates <;> by_cases h₂ : id ∈ l.batch <;> simp [h₁, h₂, Immediate.free]

/-! ### Posts and pending operations

`Post`, `DonePending` and `Unref` call `wakeup` after these critical sections. -/

def post (f : τ) : Loop τ := { l with posts := l.posts ++ [f] }

def addPending : Loop τ := { l with pending := l.pending + 1 }

def donePending : Loop τ := { l with pending := l.pending - 1 }

def unref : Loop τ := { l with unrefPending := l.unrefPending + 1 }

/-- `Ref`: never below zero. -/
def ref : Loop τ := { l with unrefPending := l.unrefPending - 1 }

/-! ### The idle condition -/

def hasRefTimer : Bool := l.timers.any fun id => !(l.timer id).unref

/-- Nothing keeps the loop alive. -/
def Idle : Prop :=
  l.hasRefTimer = false ∧ l.pending - l.unrefPending ≤ 0 ∧ l.posts = [] ∧ l.immediates = []

instance [DecidableEq τ] : Decidable l.Idle :=
  inferInstanceAs (Decidable
    (l.hasRefTimer = false ∧ l.pending - l.unrefPending ≤ 0 ∧ l.posts = [] ∧ l.immediates = []))

end Loop

end GoSpidermonkey.EventLoop
