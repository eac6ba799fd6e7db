import GoSpidermonkey.EventLoop.Loop
import GoSpidermonkey.Lib.Machine

/-!
# Pending operations of a pooled instance

An instance serves requests one after another. Guest code may start asynchronous fetch operations at
any time: each takes a pending on the loop and runs a goroutine that posts a completion when it is
done. A request ends with `ResetPerRequest`, which cancels every operation in flight and drains the
completions for a bounded time, and with `Loop.Reset`, which runs the leftover jobs, drops the
queued posts and sets the pending counter to zero. A completion that finds its operation cancelled
leaves the counter alone.

Guest code also runs in the drain and in `Reset`'s own jobs, after `cancelInflight`. An operation
started there is not cancelled; if it is still running when the counter is cleared, its completion
lands in a later request and takes the counter below zero.
-/

namespace GoSpidermonkey.Web

open EventLoop List

/-- Where an operation's goroutine and completion are. -/
inductive Stage where
  | running
  | posted
  | settled
  | abandoned
  /-- The completion was dropped by `Reset`. -/
  | dropped
  deriving DecidableEq

/-- An `asyncCall`; `epoch` counts the resets before its start. -/
structure Op where
  epoch : ℕ
  cancelled : Bool
  stage : Stage

/-- What `Reset` does to an operation: a queued completion is lost. -/
def Op.drop (op : Op) : Op := if op.stage = .posted then { op with stage := .dropped } else op

inductive Completion where
  | settle (i : ℕ)
  | freePromise (i : ℕ)

inductive Phase where
  | serving
  /-- `ResetPerRequest` drains the loop. -/
  | draining
  /-- `Reset` runs the leftover jobs. -/
  | resetting
  deriving DecidableEq

structure Pooled where
  loop : Loop Completion
  ops : List Op
  /-- The keys of `fetchAPI.calls`. -/
  calls : List ℕ
  phase : Phase
  epoch : ℕ

def Pooled.init : Pooled := ⟨.new, [], [], .serving, 0⟩

inductive PoolStep where
  /-- Guest code calls `asyncPromiseCtx`. -/
  | start
  | finish (i : ℕ)
  | runPost
  /-- `ResetPerRequest` up to its drain. -/
  | endRequest
  /-- The drain ends: nothing in flight, the loop idle, an error or the timeout. -/
  | endDrain
  /-- `Reset` after its jobs. -/
  | clear
  deriving DecidableEq

namespace Pooled

variable (s : Pooled)

/-- `asyncPromiseCtx`: register the call, take a pending, start the goroutine. -/
def start : Pooled :=
  { s with
    ops := s.ops ++ [⟨s.epoch, false, .running⟩]
    calls := s.calls ++ [s.ops.length]
    loop := s.loop.addPending }

def settle (i : ℕ) (op : Op) : Pooled :=
  if op.cancelled then
    { s with
      calls := s.calls.filter (· ≠ i)
      ops := s.ops.set i { op with stage := .abandoned }
      loop := (s.loop.post (.freePromise i)).wakeup }
  else
    { s with
      calls := s.calls.filter (· ≠ i)
      ops := s.ops.set i { op with stage := .settled }
      loop := (s.loop.donePending.wakeup.post (.freePromise i)).wakeup }

def cancelInflight : Pooled :=
  { s with ops := s.ops.mapIdx fun i op => if i ∈ s.calls then { op with cancelled := true }
    else op }

def step : Pooled → PoolStep → Option Pooled
  | s, .start => some s.start
  | s, .finish i =>
    match s.ops[i]? with
    | some op =>
      if op.stage = .running then
        some { s with
          ops := s.ops.set i { op with stage := .posted }
          loop := (s.loop.post (.settle i)).wakeup }
      else none
    | none => none
  | s, .runPost =>
    if s.phase = .resetting then none
    else
      match s.loop.posts with
      | [] => none
      | .freePromise _ :: rest => some { s with loop := { s.loop with posts := rest } }
      | .settle i :: rest =>
        (s.ops[i]?).map fun op => { s with loop := { s.loop with posts := rest } }.settle i op
  | s, .endRequest =>
    if s.phase = .serving then
      let s := { s with loop := s.loop.clearTimers }.cancelInflight
      some { s with phase := if s.calls = [] then .resetting else .draining }
    else none
  | s, .endDrain => if s.phase = .draining then some { s with phase := .resetting } else none
  | s, .clear =>
    if s.phase = .resetting then
      some { s with
        loop := s.loop.reset
        ops := s.ops.map Op.drop
        phase := .serving
        epoch := s.epoch + 1 }
    else none

/-! ### The property -/

def unsettled (epoch : ℕ) (op : Op) : Bool := op.epoch = epoch ∧ op.stage ≠ .settled

/-- The counter equals the number of unsettled operations since the last `Reset`. -/
def PendingExact : Prop := s.loop.pending = (s.ops.countP (unsettled s.epoch) : ℕ)

/-- A completion of an operation from before the last `Reset` does not change the counter. -/
def StaleHarmless : Prop :=
  ∀ i rest op s', s.loop.posts = .settle i :: rest → s.ops[i]? = some op → op.epoch < s.epoch →
    step s .runPost = some s' → s'.loop.pending = s.loop.pending

/-- `Reset` clears the counter only when every running operation is cancelled. -/
def CancelledAtReset (s : Pooled) (a : PoolStep) : Prop :=
  a = .clear → ∀ op ∈ s.ops, op.stage = .running → op.cancelled

instance (s : Pooled) (a : PoolStep) : Decidable (CancelledAtReset s a) :=
  inferInstanceAs (Decidable (a = .clear → ∀ op ∈ s.ops, op.stage = .running → op.cancelled))

/-! ### The invariant -/

def queued (posts : List Completion) : List ℕ :=
  posts.filterMap fun c => match c with
    | .settle i => some i
    | .freePromise _ => none

@[simp] lemma queued_append (a b : List Completion) : queued (a ++ b) = queued a ++ queued b := by
  simp [queued]

@[simp] lemma queued_settle (i : ℕ) (rest : List Completion) :
    queued (.settle i :: rest) = i :: queued rest := by
  simp [queued]

@[simp] lemma queued_freePromise (i : ℕ) (rest : List Completion) :
    queued (.freePromise i :: rest) = queued rest := by
  simp [queued]

@[simp] lemma queued_nil : queued [] = [] := rfl

structure Good (s : Pooled) : Prop where
  posted : ∀ i ∈ queued s.loop.posts, ∃ op, s.ops[i]? = some op ∧ op.stage = .posted
  once : (queued s.loop.posts).Nodup
  epoch_le : ∀ op ∈ s.ops, op.epoch ≤ s.epoch
  current : ∀ op ∈ s.ops, ¬ op.cancelled → op.stage = .running ∨ op.stage = .posted →
    op.epoch = s.epoch
  exact : s.PendingExact

lemma good_init : Good init where
  posted := by simp [init, Loop.new]
  once := by simp [init, Loop.new]
  epoch_le := by simp [init]
  current := by simp [init]
  exact := by simp [PendingExact, init, Loop.new]

variable {s}

lemma Good.start (h : Good s) : Good s.start where
  posted := by
    intro i hi
    obtain ⟨op, hop, hst⟩ := h.posted i hi
    have hlt := (List.getElem?_eq_some_iff.mp hop).1
    exact ⟨op, by simp [Pooled.start, getElem?_append_left hlt, hop], hst⟩
  once := h.once
  epoch_le := by
    simp only [Pooled.start, mem_append, mem_singleton]
    rintro op (hop | rfl)
    · exact h.epoch_le op hop
    · exact le_rfl
  current := by
    simp only [Pooled.start, mem_append, mem_singleton]
    rintro op (hop | rfl)
    · exact h.current op hop
    · simp
  exact := by
    have := h.exact
    simp only [PendingExact, Pooled.start, Loop.addPending, countP_append] at this ⊢
    simp [this, unsettled]

variable {ops : List Op} {i : ℕ} {op : Op}

lemma forall_mem_set {P : Op → Prop} (h : ∀ op ∈ ops, P op)
    (hop : P op) : ∀ op' ∈ ops.set i op, P op' := by
  intro op' hmem
  rcases mem_or_eq_of_mem_set hmem with hmem | rfl
  · exact h op' hmem
  · exact hop

lemma countP_set_eq {p : Op → Bool} {op' : Op}
    (hop : ops[i]? = some op) (hp : p op' = p op) : (ops.set i op').countP p = ops.countP p := by
  obtain ⟨hlt, rfl⟩ := List.getElem?_eq_some_iff.mp hop
  have hle : (if p ops[i] then 1 else 0) ≤ ops.countP p := by
    split
    · exact countP_pos_iff.mpr ⟨_, getElem_mem hlt, ‹_›⟩
    · omega
  rw [countP_set hlt, hp]
  omega

lemma countP_set_sub (p : Op → Bool) (op' : Op)
    (hop : ops[i]? = some op) (hp : p op) (hp' : ¬ p op') :
    (ops.set i op').countP p + 1 = ops.countP p := by
  obtain ⟨hlt, rfl⟩ := List.getElem?_eq_some_iff.mp hop
  have hpos : 0 < ops.countP p := countP_pos_iff.mpr ⟨_, getElem_mem hlt, hp⟩
  rw [countP_set hlt, if_pos hp, if_neg hp']
  omega

lemma Good.finish (h : Good s) (hop : s.ops[i]? = some op)
    (hst : op.stage = .running) :
    Good { s with
      ops := s.ops.set i { op with stage := .posted }
      loop := (s.loop.post (.settle i)).wakeup } where
  posted := by
    simp only [Loop.post, Loop.wakeup, queued_append, queued_settle, queued_nil, mem_append,
      mem_singleton]
    rintro j (hj | rfl)
    · obtain ⟨op', hop', hst'⟩ := h.posted j hj
      have hne : i ≠ j := by
        rintro rfl
        simp_all
      exact ⟨op', by simp [getElem?_set_ne hne, hop'], hst'⟩
    · exact ⟨_, getElem?_set_self (List.getElem?_eq_some_iff.mp hop).1, rfl⟩
  once := by
    simp only [Loop.post, Loop.wakeup, queued_append, queued_settle, queued_nil]
    -- a queued operation is not running any more
    have hnot : i ∉ queued s.loop.posts := by
      intro hi
      obtain ⟨op', hop', hst'⟩ := h.posted i hi
      simp_all
    exact List.Nodup.append h.once (by simp) (by simpa using hnot)
  epoch_le := forall_mem_set h.epoch_le (h.epoch_le op (mem_of_getElem? hop))
  current := forall_mem_set h.current fun hc _ =>
    h.current op (mem_of_getElem? hop) hc (.inl hst)
  exact := by
    have := h.exact
    simp only [PendingExact, Loop.post, Loop.wakeup] at this ⊢
    rw [countP_set_eq hop (by simp [unsettled, hst])]
    exact this

lemma Good.pop (h : Good s) {c : Completion} {rest : List Completion}
    (hp : s.loop.posts = c :: rest) : Good { s with loop := { s.loop with posts := rest } } where
  posted := by
    intro i hi
    refine h.posted i ?_
    rw [hp]
    cases c <;> simp [show i ∈ queued rest from hi]
  once := by
    have := h.once
    rw [hp] at this
    cases c with
    | settle j => exact (nodup_cons.mp (by simpa using this)).2
    | freePromise j => simpa using this
  epoch_le := h.epoch_le
  current := h.current
  exact := h.exact

lemma Good.settle (h : Good s) (hop : s.ops[i]? = some op)
    (hst : op.stage = .posted) (hq : i ∉ queued s.loop.posts) : Good (s.settle i op) := by
  have hmem := mem_of_getElem? hop
  have hposted : ∀ st, ∀ j ∈ queued s.loop.posts,
      ∃ op', (s.ops.set i { op with stage := st })[j]? = some op' ∧ op'.stage = .posted := by
    intro st j hj
    obtain ⟨op', hop', hst'⟩ := h.posted j hj
    have hne : i ≠ j := fun hij => hq (hij ▸ hj)
    exact ⟨op', by simp [getElem?_set_ne hne, hop'], hst'⟩
  have hexact := h.exact
  unfold PendingExact at hexact
  unfold Pooled.settle
  by_cases hc : op.cancelled
  · rw [if_pos hc]
    refine ⟨by simpa [Loop.post, Loop.wakeup] using hposted .abandoned,
      by simpa [Loop.post, Loop.wakeup] using h.once,
      forall_mem_set h.epoch_le (h.epoch_le op hmem),
      forall_mem_set h.current (by simp), ?_⟩
    simp only [PendingExact, Loop.post, Loop.wakeup]
    rw [countP_set_eq hop (by simp [unsettled, hst]), hexact]
  · rw [if_neg hc]
    refine ⟨by simpa [Loop.post, Loop.wakeup, Loop.donePending] using hposted .settled,
      by simpa [Loop.post, Loop.wakeup, Loop.donePending] using h.once,
      forall_mem_set h.epoch_le (h.epoch_le op hmem),
      forall_mem_set h.current (by simp), ?_⟩
    -- an operation that is not cancelled belongs to this epoch
    have hepoch := h.current op hmem hc (.inr hst)
    have hcount := countP_set_sub (unsettled s.epoch) { op with stage := .settled } hop
      (by simp [unsettled, hepoch, hst]) (by simp [unsettled])
    simp only [PendingExact, Loop.post, Loop.wakeup, Loop.donePending]
    omega

lemma Good.cancelInflight (h : Good s) : Good s.cancelInflight where
  posted := by
    intro i hi
    obtain ⟨op, hop, hst⟩ := h.posted i hi
    refine ⟨if i ∈ s.calls then { op with cancelled := true } else op, ?_, ?_⟩
    · simp [Pooled.cancelInflight, getElem?_mapIdx, hop]
    · split <;> exact hst
  once := h.once
  epoch_le := by
    intro op hop
    obtain ⟨i, hi, rfl⟩ := mem_mapIdx.mp hop
    have := h.epoch_le _ (getElem_mem hi)
    split <;> exact this
  current := by
    intro op hop
    obtain ⟨i, hi, rfl⟩ := mem_mapIdx.mp hop
    have := h.current _ (getElem_mem hi)
    split
    · simp
    · exact this
  exact := by
    have hcount : ∀ (ops : List Op) (f : ℕ → Op → Op),
        (∀ i op, unsettled s.epoch (f i op) = unsettled s.epoch op) →
        (ops.mapIdx f).countP (unsettled s.epoch) = ops.countP (unsettled s.epoch) := by
      intro ops
      induction ops with
      | nil => simp
      | cons op ops ih =>
        intro f hf
        rw [mapIdx_cons, countP_cons, countP_cons, hf, ih _ fun i op => hf (i + 1) op]
    have := h.exact
    simp only [PendingExact, Pooled.cancelInflight] at this ⊢
    rw [hcount _ _ fun i op => by split <;> rfl, this]

lemma Good.of_eq {s' : Pooled} (h : Good s) (hposts : s'.loop.posts = s.loop.posts)
    (hpending : s'.loop.pending = s.loop.pending) (hops : s'.ops = s.ops)
    (hepoch : s'.epoch = s.epoch) : Good s' where
  posted := by rw [hposts, hops]; exact h.posted
  once := by rw [hposts]; exact h.once
  epoch_le := by rw [hops, hepoch]; exact h.epoch_le
  current := by rw [hops, hepoch]; exact h.current
  exact := by
    have := h.exact
    unfold PendingExact at this ⊢
    rw [hpending, hops, hepoch, this]

lemma Good.clear (h : Good s) (hcan : ∀ op ∈ s.ops, op.stage = .running → op.cancelled) :
    Good { s with
      loop := s.loop.reset
      ops := s.ops.map Op.drop
      phase := .serving
      epoch := s.epoch + 1 } where
  posted := by simp [Loop.reset]
  once := by simp [Loop.reset]
  epoch_le := by
    simp only [mem_map]
    rintro _ ⟨op, hop, rfl⟩
    have := h.epoch_le op hop
    unfold Op.drop
    split <;> exact Nat.le_succ_of_le this
  current := by
    simp only [mem_map]
    rintro _ ⟨op, hop, rfl⟩ hc hst
    unfold Op.drop at hc hst
    split at hst
    · simp at hst
    · rename_i hne
      rw [if_neg hne] at hc
      exact absurd (hcan op hop (by tauto)) hc
  exact := by
    have hzero : (s.ops.map Op.drop).countP (unsettled (s.epoch + 1)) = 0 := by
      rw [countP_eq_zero]
      simp only [mem_map]
      rintro _ ⟨op, hop, rfl⟩
      have := h.epoch_le op hop
      have hepoch : op.drop.epoch = op.epoch := by unfold Op.drop; split <;> rfl
      simp only [unsettled, hepoch, decide_eq_true_eq]
      omega
    simp [PendingExact, Loop.reset, hzero]

/-! ### Steps and runs -/

lemma Good.step {s' : Pooled} {a : PoolStep} (h : Good s) (hG : CancelledAtReset s a)
    (hs : Pooled.step s a = some s') : Good s' := by
  cases a with
  | start =>
    obtain rfl : s.start = s' := by simpa [Pooled.step] using hs
    exact h.start
  | finish i =>
    simp only [Pooled.step] at hs
    cases hop : s.ops[i]? with
    | none => simp [hop] at hs
    | some op =>
      by_cases hst : op.stage = .running
      · obtain rfl := by simpa [hop, hst] using hs
        exact h.finish hop hst
      · simp [hop, hst] at hs
  | runPost =>
    simp only [Pooled.step] at hs
    by_cases hph : s.phase = .resetting
    · simp [hph] at hs
    rw [if_neg hph] at hs
    cases hp : s.loop.posts with
    | nil => simp [hp] at hs
    | cons c rest =>
      cases c with
      | freePromise i =>
        obtain rfl := by simpa [hp] using hs
        exact h.pop hp
      | settle i =>
        obtain ⟨op, hop, hst⟩ := h.posted i (by simp [hp])
        obtain rfl := by simpa [hp, hop] using hs
        have hq : i ∉ queued rest := by
          have := h.once
          rw [hp, queued_settle] at this
          exact (nodup_cons.mp this).1
        exact (h.pop hp).settle hop hst hq
  | endRequest =>
    simp only [Pooled.step] at hs
    by_cases hph : s.phase = .serving
    · obtain rfl := by simpa [hph] using hs
      have hclear : Good { s with loop := s.loop.clearTimers } :=
        h.of_eq (by simp [Loop.clearTimers_eq]) (by simp [Loop.clearTimers_eq]) rfl rfl
      exact hclear.cancelInflight.of_eq rfl rfl rfl rfl
    · simp [hph] at hs
  | endDrain =>
    simp only [Pooled.step] at hs
    by_cases hph : s.phase = .draining
    · obtain rfl := by simpa [hph] using hs
      exact h.of_eq rfl rfl rfl rfl
    · simp [hph] at hs
  | clear =>
    simp only [Pooled.step] at hs
    by_cases hph : s.phase = .resetting
    · obtain rfl := by simpa [hph] using hs
      exact h.clear (hG rfl)
    · simp [hph] at hs

/-- An operation from before the last `Reset` is cancelled when its completion runs. -/
lemma Good.staleHarmless (h : Good s) : s.StaleHarmless := by
  intro i rest op s' hp hop hepoch hs
  obtain ⟨op', hop', hst⟩ := h.posted i (by simp [hp])
  obtain rfl : op = op' := by simpa [hop] using hop'
  have hc : op.cancelled := by
    by_contra hc
    have := h.current op (mem_of_getElem? hop) hc (.inr hst)
    omega
  simp only [Pooled.step, hp, hop, Option.map_some] at hs
  split at hs
  · simp at hs
  · obtain rfl := by simpa using hs
    simp [Pooled.settle, hc, Loop.post, Loop.wakeup]

/-- The counter always equals the number of unsettled operations since the last `Reset`, as long as
each `Reset` finds every running operation cancelled. -/
theorem pending_isolated {acts : List PoolStep} {s : Pooled}
    (hG : Machine.Obeys step CancelledAtReset init acts)
    (hrun : Machine.run step init acts = some s) : s.PendingExact ∧ s.StaleHarmless := by
  have h : Good s :=
    Machine.run_invariant (I := Good) (fun _ _ _ h hG hs => h.step hG hs) good_init hG hrun
  exact ⟨h.exact, h.staleHarmless⟩

/-- Two requests: the operation of the first is cancelled at its end and completes in the second. -/
def lateCancelled : List PoolStep :=
  [.start, .endRequest, .endDrain, .clear, .start, .finish 0, .runPost, .finish 1]

theorem pending_isolated_lateCancelled :
    ∃ s, Machine.run step init lateCancelled = some s ∧ s.loop.pending = 1 ∧ s.PendingExact ∧
      s.StaleHarmless := by
  have hG : Machine.Obeys step CancelledAtReset init lateCancelled := by decide
  obtain ⟨s, hs⟩ : ∃ s, Machine.run step init lateCancelled = some s :=
    Option.isSome_iff_exists.mp (by decide)
  have hp : (Machine.run step init lateCancelled).map (·.loop.pending) = some 1 := by decide
  exact ⟨s, hs, by simpa [hs] using hp, pending_isolated hG hs⟩

/-- A job of the drain starts an operation that outlives the drain; its completion runs in the next
request. -/
def startedInDrain : List PoolStep :=
  [.start, .endRequest, .start, .finish 0, .runPost, .endDrain, .clear, .finish 1, .runPost]

theorem startedInDrain_negative :
    (Machine.run step init startedInDrain).map (fun s => (s.epoch, s.loop.pending))
      = some (1, -1) := by
  decide

end Pooled

end GoSpidermonkey.Web
