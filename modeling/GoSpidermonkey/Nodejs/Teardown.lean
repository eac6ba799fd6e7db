import GoSpidermonkey.Nodejs.Socket

/-!
# Tearing a socket down

The pending of a socket is released at most once: at every moment exactly one party owes the release
(`Books.balance`). Once the connection is closed and nothing can move any more, the pump has exited
and the pending is released, provided that no read has left the pump waiting for a token that nobody
will send: a read that returns data after the socket has left the tables uses up the one token that
the close has put into the channel.
-/

namespace GoSpidermonkey.Nodejs

open Multiset

/-! ### What a step can do -/

namespace Socket

/-- The steps, as far as the teardown is concerned with them. -/
inductive Moves (s : Socket) : Act → Socket → Prop
  | thread {t : Thread} {m : Action} {ms : List Action} (h : s.todo t = m :: ms) :
    Moves s (.thread t) ((s.exec m).1.setTodo t ((s.exec m).2 ++ ms))
  | arm (h : s.pump = .starting) : Moves s .pump s.armRead
  | take (h : s.pump = .parked) : Moves s .pump { s with resume := false, pump := .reading }
  | unregister {e : ReadErr} (h : s.pump = .failed e) : Moves s .pump (s.unregister e)
  | readClosed (h : s.pump = .reading) : Moves s .readClosed (s.readReturns 0 (some .other))
  | read {n : ℕ} {err : Option ReadErr} (h : s.pump = .reading) :
    Moves s (.read n err) (s.readReturns n err)
  /-- The write actor, which closes the connection only at a close request. -/
  | actor {a : Act} {w : ConnWriter} {b : Actor} {e : Effect} (hw : w.closeReq = s.w.closeReq)
    (hb : b.closing → s.actor.closing ∨ s.w.closeReq)
    (he : e.conn = some .close → s.actor.closing) :
    Moves s a ({ s with w := w, actor := b }.apply e)
  | runPosted {p : Post} {ps : List Post} (h : s.posted = p :: ps) :
    Moves s .runPosted (s.runPost p ps)
  | dial {ok : Bool} (h : s.pump = .dialing) : Moves s (.dial ok) (s.dialed ok)
  | netAttach (h : ¬ s.opened) : Moves s .netAttach s.opNetAttach
  | netReadResume : Moves s .netReadResume s.opNetReadResume
  | netWrite {c : ConnWrite} : Moves s (.netWrite c) (s.opNetWrite c)
  | netEnd : Moves s .netEnd s.opNetEnd
  | netClose : Moves s .netClose s.opNetClose
  | closeNet : Moves s .closeNet s.closeNet

lemma Moves.of_wrote {s : Socket} {a : Act} {ok : Bool} {r : Actor × Effect}
    (h : ConnWriter.wrote ok s.actor = some r) :
    Moves s a ({ s with actor := r.1 }.apply r.2) := by
  obtain ⟨hb, he⟩ := ConnWriter.wrote_closing h
  exact .actor (w := s.w) rfl (fun hc => .inl (hb ▸ hc)) fun hc => absurd hc he

/-- Every step is one of them. -/
lemma Moves.of_step {s s' : Socket} {a : Act} (hs : s.step a = some s') : Moves s a s' := by
  cases a with
  | thread t =>
    simp only [step] at hs
    split at hs
    · cases hs
    next hm =>
      cases hs
      exact .thread hm
  | pump =>
    simp only [step, pumpStep] at hs
    split at hs
    next hp =>
      split_ifs at hs
      cases hs
      exact .arm hp
    next hp =>
      split_ifs at hs
      cases hs
      exact .take hp
    next hp =>
      cases hs
      exact .unregister hp
    all_goals cases hs
  | actor =>
    obtain ⟨r, hr, rfl⟩ := Option.map_eq_some_iff.mp hs
    obtain ⟨hw, hb, he⟩ := ConnWriter.run_closing hr
    exact .actor hw hb he
  | runPosted =>
    simp only [step] at hs
    split at hs
    · cases hs
    next hp =>
      split_ifs at hs
      cases hs
      exact .runPosted hp
  | writeClosed | write ok =>
    simp only [step] at hs
    split_ifs at hs
    obtain ⟨r, hr, rfl⟩ := Option.map_eq_some_iff.mp hs
    exact .of_wrote hr
  | readClosed =>
    obtain ⟨hc, rfl⟩ := Machine.of_guard hs
    exact .readClosed hc.1
  | read n err =>
    obtain ⟨hc, rfl⟩ := Machine.of_guard hs
    exact .read hc.1
  | dial ok =>
    obtain ⟨hc, rfl⟩ := Machine.of_guard hs
    exact .dial hc
  | netAttach =>
    obtain ⟨hc, rfl⟩ := Machine.of_guard hs
    exact .netAttach hc.2
  | netReadResume | netWrite c | netEnd | netClose | closeNet =>
    simp only [step] at hs
    split_ifs at hs
    cases hs
    constructor

end Socket

/-! ### What is still to be done -/

namespace Action

/-- The releases that an action makes, or posts. -/
def owes : Action → ℕ
  | .donePending | .post .release => 1
  | _ => 0

/-- The actions that take the pending. -/
def starts : Action → ℕ
  | .goDial | .goPump => 1
  | _ => 0

end Action

/-- A pump that runs holds the pending. -/
def Pump.holds : Pump → ℕ
  | .none | .ending => 0
  | _ => 1

/-- The pump has registered its channel. -/
def Pump.armed : Pump → Bool
  | .parked | .reading | .failed _ => true
  | _ => false

namespace Socket

/-- The actions of all goroutines that are still to come. -/
def work (todo : Thread → List Action) : Multiset Action :=
  todo .guest + todo .closer + todo .acceptor + todo .pump

variable {m m' : Action} {t : Thread} {ms : List Action}

lemma mem_work {todo : Thread → List Action} :
    m ∈ work todo ↔ ∃ t, m ∈ todo t := by
  constructor
  · intro h
    simp only [work, mem_add, mem_coe] at h
    rcases h with ((h | h) | h) | h
    exacts [⟨_, h⟩, ⟨_, h⟩, ⟨_, h⟩, ⟨_, h⟩]
  · rintro ⟨t, h⟩
    cases t <;> simp [work, h]

lemma work_update (todo : Thread → List Action) (t : Thread) (ms : List Action) :
    work (Function.update todo t ms) + todo t = work todo + ms := by
  cases t <;> simp only [work, Function.update, reduceCtorEq, dite_true, dite_false] <;> abel

variable {s : Socket}

@[simp] lemma work_push (t : Thread) (ms : List Action) :
    work (s.push t ms).todo = work s.todo + ms := by
  have h := work_update s.todo t (s.todo t ++ ms)
  rw [← coe_add, ← add_assoc, add_right_comm] at h
  exact add_right_cancel h

lemma exec_todo (m : Action) : (s.exec m).1.todo = s.todo := by
  cases m with
  | enqueue c =>
    simp only [exec]
    split_ifs <;> rfl
  | _ => rfl

/-- An action is done, and leaves others behind. -/
lemma work_thread (h : s.todo t = m :: ms) :
    m ::ₘ work ((s.exec m).1.setTodo t ((s.exec m).2 ++ ms)).todo = work s.todo + (s.exec m).2 := by
  have hw := work_update s.todo t ((s.exec m).2 ++ ms)
  rw [h, ← coe_add, ← cons_coe, ← add_assoc, add_cons,
    ← cons_add] at hw
  simpa only [setTodo, exec_todo] using add_right_cancel hw

/-- What is left behind is a signal, or the send of a poke that has found the channel. -/
lemma exec_left (h : m' ∈ (s.exec m).2) :
    m' = .signal ∨ m' = .sendResume ∧ m = .pokeRead := by
  cases m with
  | enqueue c =>
    simp only [exec] at h
    split_ifs at h <;> simp_all
  | pokeRead =>
    simp only [exec, mem_onlyIf] at h
    simp [h]
  | _ => simp_all [exec]

lemma sum_left (f : Action → ℕ) (h₁ : f .signal = 0) (h₂ : f .sendResume = 0) (m : Action) :
    (((s.exec m).2 : Multiset Action).map f).sum = 0 := by
  refine sum_eq_zero fun n hn => ?_
  obtain ⟨m', hm', rfl⟩ := mem_map.mp hn
  rcases exec_left (mem_coe.mp hm') with rfl | ⟨rfl, -⟩
  · exact h₁
  · exact h₂

/-- No action outside of the locked sections touches the tables. -/
lemma exec_tables (m : Action) :
    (s.exec m).1.conns = s.conns ∧ (s.exec m).1.writers = s.writers ∧
      (s.exec m).1.readResume = s.readResume ∧ (s.exec m).1.readEnded = s.readEnded ∧
      (s.exec m).1.opened = s.opened := by
  cases m with
  | enqueue c =>
    simp only [exec]
    split_ifs <;> simp
  | _ => simp [exec]

/-- The pump is started by an action that takes the pending, and changed by no other one. -/
lemma exec_pump (m : Action) :
    (s.exec m).1.pump = s.pump ∧ m.starts = 0 ∨
      ((s.exec m).1.pump = .dialing ∧ m = .goDial ∨
        (s.exec m).1.pump = .starting ∧ m = .goPump) := by
  cases m with
  | enqueue c =>
    simp only [exec]
    split_ifs <;> simp [Action.starts]
  | _ => simp [exec, Action.starts]

lemma exec_added (m : Action) : (s.exec m).1.added = s.added + m.starts := by
  cases m with
  | enqueue c =>
    simp only [exec]
    split_ifs <;> simp [Action.starts]
  | _ => simp [exec, Action.starts]

@[simp] lemma count_written (l : List ℕ) : (l.map Post.written).count .release = 0 := by
  simp [List.count_eq_zero]

/-- An action releases, or posts, what it owes. -/
lemma exec_released (m : Action) :
    (s.exec m).1.released + (s.exec m).1.posted.count .release =
      s.released + s.posted.count .release + m.owes := by
  cases m with
  | enqueue c =>
    simp only [exec]
    split_ifs <;> simp [Action.owes]
  | donePending =>
    simp only [exec, Action.owes]
    omega
  | post p =>
    by_cases hp : p = .release
    · simp [exec, hp, Action.owes, add_assoc]
    · have howes : (Action.post p).owes = 0 := by
        cases p <;> simp_all [Action.owes]
      simp [exec, howes, hp]
  | _ => simp [exec, Action.owes]

/-! ### Who owes the release -/

/-- What is taken and not released yet: the pump holds it, a goroutine owes it, it is posted, or the
half-open end keeps it. -/
def debt (s : Socket) : ℕ :=
  ((work s.todo).map Action.owes).sum + s.pump.holds + s.posted.count .release + s.readEnded.toNat

/-- What holds of the pending at every moment. -/
structure Books (s : Socket) : Prop where
  balance : s.added = s.released + s.debt
  once : s.added + ((work s.todo).map Action.starts).sum ≤ s.opened.toNat
  started : s.pump ≠ .none → 1 ≤ s.added
  half : s.readEnded → s.pump = .ending

@[simp] lemma sum_onlyIf (f : Action → ℕ) (b : Bool) (m : Action) :
    ((onlyIf b m).map f).sum = b.toNat * f m := by
  cases b <;> simp [onlyIf]

@[simp] lemma debt_push (t : Thread) (ms : List Action) :
    (s.push t ms).debt = s.debt + (ms.map Action.owes).sum := by
  rw [debt, work_push, map_add, sum_add, map_coe, sum_coe]
  simp only [debt, push_pump, push_posted, push_readEnded]
  omega

lemma starts_push (t : Thread) (ms : List Action) :
    ((work (s.push t ms).todo).map Action.starts).sum =
      ((work s.todo).map Action.starts).sum + (ms.map Action.starts).sum := by
  simp

namespace Books

/-- While a start is to come there was none before. -/
lemma none_of_starts (h : Books s) {m : Action} (hm : m ∈ work s.todo) (hs : m.starts = 1) :
    s.pump = .none ∧ s.added = 0 := by
  have hle : 1 ≤ ((work s.todo).map Action.starts).sum :=
    hs ▸ single_le_sum (by simp) _ (mem_map_of_mem _ hm)
  have hone := h.once
  have hbool := Bool.toNat_le s.opened
  have hadded : s.added = 0 := by omega
  refine ⟨?_, hadded⟩
  by_contra hne
  have := h.started hne
  omega

lemma thread (h : Books s) {t : Thread} {m : Action} {ms : List Action} (hm : s.todo t = m :: ms) :
    Books ((s.exec m).1.setTodo t ((s.exec m).2 ++ ms)) := by
  have hmem : m ∈ work s.todo := mem_work.mpr ⟨t, hm ▸ List.mem_cons_self⟩
  have howes := congrArg (fun l => (l.map Action.owes).sum) (work_thread hm)
  have hstarts := congrArg (fun l => (l.map Action.starts).sum) (work_thread hm)
  simp only [map_cons, sum_cons, map_add, sum_add,
    sum_left Action.owes rfl rfl, sum_left Action.starts rfl rfl, add_zero] at howes hstarts
  obtain ⟨-, -, -, hended, hopened⟩ := s.exec_tables m
  have hadded := s.exec_added m
  have hreleased := s.exec_released m
  have hbal := h.balance
  have hpump : (s.exec m).1.pump.holds = s.pump.holds + m.starts ∧
      ((s.exec m).1.pump ≠ .none → 1 ≤ s.added + m.starts) ∧
      (s.readEnded → (s.exec m).1.pump = .ending) := by
    rcases s.exec_pump m with ⟨hp, hs⟩ | hp
    · rw [hp, hs]
      exact ⟨rfl, h.started, h.half⟩
    · have hs : m.starts = 1 := by rcases hp with ⟨-, rfl⟩ | ⟨-, rfl⟩ <;> rfl
      have hnone := (h.none_of_starts hmem hs).1
      refine ⟨?_, by omega, fun hr => ?_⟩
      · rw [hnone, hs]
        rcases hp with ⟨hp, -⟩ | ⟨hp, -⟩ <;> rw [hp] <;> rfl
      · have := h.half hr
        simp [hnone] at this
  refine ⟨?_, ?_, ?_, ?_⟩
  · simp only [debt, setTodo_added, setTodo_released, setTodo_pump, setTodo_posted,
      setTodo_readEnded, hended, hpump.1] at hbal ⊢
    omega
  · rw [setTodo_added, setTodo_opened, hopened]
    have := h.once
    omega
  · rw [setTodo_added, hadded]
    exact hpump.2.1
  · rw [setTodo_readEnded, hended]
    exact hpump.2.2

/-- Actions are added to those of a goroutine. -/
lemma push {s₁ : Socket} (t : Thread) {ms : List Action}
    (hbal : s₁.added = s₁.released + (s₁.debt + (ms.map Action.owes).sum))
    (honce : s₁.added + (((work s₁.todo).map Action.starts).sum + (ms.map Action.starts).sum) ≤
      s₁.opened.toNat)
    (hstarted : s₁.pump ≠ .none → 1 ≤ s₁.added) (hhalf : s₁.readEnded → s₁.pump = .ending) :
    Books (s₁.push t ms) where
  balance := by simpa using hbal
  once := by
    rw [starts_push]
    exact honce
  started := hstarted
  half := hhalf

section

variable (h : Books s)
include h

lemma readEnded_of_holds (hp : s.pump.holds = 1) : s.pump ≠ .none ∧ s.readEnded = false := by
  constructor
  · rintro hn
    simp [hn, Pump.holds] at hp
  · by_contra hr
    simp [h.half (by simpa using hr), Pump.holds] at hp

lemma dialed (hp : s.pump = .dialing) (ok : Bool) : Books (s.dialed ok) := by
  obtain ⟨hne, hended⟩ := h.readEnded_of_holds (by rw [hp]; rfl)
  have hbal := h.balance
  have honce := h.once
  simp only [debt, hp, Pump.holds, hended, Bool.toNat_false] at hbal
  unfold Socket.dialed
  split_ifs
  all_goals
    refine Books.push _ ?_ ?_ (fun _ => h.started hne) (by simp [hended])
    · simp [debt, hended, Pump.holds, Action.owes]
      omega
    · simpa [Action.starts] using honce

lemma unregister {e : ReadErr} (hp : s.pump = .failed e) : Books (s.unregister e) := by
  obtain ⟨hne, hended⟩ := h.readEnded_of_holds (by rw [hp]; rfl)
  have hbal := h.balance
  have honce := h.once
  simp only [debt, hp, Pump.holds, hended, Bool.toNat_false] at hbal
  unfold Socket.unregister
  split_ifs
  all_goals
    refine Books.push _ ?_ ?_ (fun _ => h.started hne) (by simp)
    · simp [debt, Pump.holds, Action.owes]
      omega
    · simpa [Action.starts] using honce

/-- A step within the loop of the pump. -/
lemma loop {p : Pump} (hp : s.pump.holds = 1) (hp' : p.holds = 1) {r rr : Bool}
    {ps : List Post} (hps : ps.count .release = s.posted.count .release) :
    Books { s with pump := p, resume := r, readResume := rr, posted := ps } := by
  obtain ⟨hne, hended⟩ := h.readEnded_of_holds hp
  refine ⟨?_, h.once, fun _ => h.started hne, fun hr => ?_⟩
  · have hbal := h.balance
    simp only [debt, hps, hp, hp'] at hbal ⊢
    exact hbal
  · simp [hended] at hr

lemma acts (w : ConnWriter) (a : Actor) (e : Effect) :
    Books ({ s with w := w, actor := a }.apply e) := by
  refine ⟨?_, h.once, h.started, h.half⟩
  have hbal := h.balance
  simpa [debt, Socket.apply] using hbal

lemma runPost {p : Post} {ps : List Post} (hp : s.posted = p :: ps) : Books (s.runPost p ps) := by
  refine ⟨?_, h.once, h.started, h.half⟩
  have hbal := h.balance
  simp only [debt, hp, List.count_cons, Socket.runPost, beq_iff_eq] at hbal ⊢
  split_ifs at hbal ⊢ <;> omega

lemma opNetAttach (hopen : ¬ s.opened) : Books s.opNetAttach := by
  have honce := h.once
  rw [Bool.eq_false_iff.mpr hopen, Bool.toNat_false] at honce
  refine Books.push _ ?_ ?_ h.started h.half
  · have hbal := h.balance
    simpa [debt, Action.owes] using hbal
  · have := Bool.toNat_le s.conns
    simp [Action.starts]
    omega

/-- A socket leaves the tables: a goroutine releases the pending that its half-open end has kept. -/
lemma leave (t : Thread) {ms : List Action} {rr : Bool}
    (howes : (ms.map Action.owes).sum = s.readEnded.toNat)
    (hstarts : (ms.map Action.starts).sum = 0) :
    Books ({ s with
      conns := false, writers := false, readResume := rr, readEnded := false }.push t ms) := by
  refine Books.push _ ?_ ?_ h.started (by simp)
  · have hbal := h.balance
    simp only [debt] at hbal
    simp [debt, howes, hbal, add_assoc]
  · simpa [hstarts] using h.once

lemma opNetEnd : Books s.opNetEnd := by
  unfold Socket.opNetEnd
  split_ifs with hw hr
  · exact h.leave _ (by simp [Action.owes, hr]) rfl
  · refine Books.push _ ?_ ?_ h.started h.half
    · simpa [debt, Action.owes] using h.balance
    · simpa [Action.starts] using h.once
  · exact h

lemma opNetClose : Books s.opNetClose := h.leave _ (by simp [Action.owes]) (by simp [Action.starts])

lemma closeNet : Books s.closeNet := h.leave _ (by simp [Action.owes]) (by simp [Action.starts])

lemma readReturns (hp : s.pump = .reading) (n : ℕ) (err : Option ReadErr) :
    Books (s.readReturns n err) := by
  refine h.loop (by rw [hp]; rfl) ?_ ?_
  · cases err <;> rfl
  · split_ifs <;> simp

lemma opNetWrite (c : ConnWrite) : Books (s.opNetWrite c) := by
  refine Books.push _ ?_ ?_ h.started h.half
  · split_ifs
    · simpa [Action.owes] using h.balance
    · simpa [Action.owes, Function.comp_def] using h.balance
  · split_ifs
    · simpa [Action.starts] using h.once
    · simpa [Action.starts, Function.comp_def] using h.once

end

theorem step (s : Socket) (a : Act) (s' : Socket) (h : Books s) (hs : s.step a = some s') :
    Books s' := by
  cases Moves.of_step hs with
  | thread hm => exact h.thread hm
  | arm hp | take hp => exact h.loop (by rw [hp]; rfl) rfl rfl
  | unregister hp => exact h.unregister hp
  | readClosed hp | read hp => exact h.readReturns hp _ _
  | actor hw hb he => exact h.acts _ _ _
  | runPosted hp => exact h.runPost hp
  | dial hp => exact h.dialed hp _
  | netAttach hopen => exact h.opNetAttach hopen
  | netReadResume =>
    refine Books.push _ ?_ ?_ h.started h.half
    · simpa [Action.owes] using h.balance
    · simpa [Action.starts] using h.once
  | netWrite => exact h.opNetWrite _
  | netEnd => exact h.opNetEnd
  | netClose => exact h.opNetClose
  | closeNet => exact h.closeNet

end Books

/-! ### What the tables say -/

/-- The connection is closed, or will be by a goroutine on its way. -/
def Closing (s : Socket) : Prop :=
  s.w.closeReq ∨ s.actor.closing ∨ s.conn = .closed ∨ s.conn = .failed ∨
    .requestClose ∈ work s.todo ∨ .closeConn ∈ work s.todo

/-- What the tables and the pump know of each other. -/
structure Tables (s : Socket) : Prop where
  gone : s.Closing → s.conns = false ∧ s.writers = false
  half : s.readEnded → s.conns
  armed : s.pump.armed → s.conns → s.readResume
  dialing : s.pump = .dialing ∨ .goDial ∈ work s.todo → s.conn = .absent ∧ s.conns = false

lemma mem_work_thread (h : s.todo t = m :: ms)
    (hm : m' ∈ work ((s.exec m).1.setTodo t ((s.exec m).2 ++ ms)).todo) :
    m' ∈ work s.todo ∨ m' ∈ (s.exec m).2 := by
  have hmem : m' ∈ work s.todo + (s.exec m).2 := work_thread h ▸ mem_cons_of_mem hm
  simpa using hmem

lemma mem_work_thread_of_ne
    (h : s.todo t = m :: ms) (hne : m' ≠ m) (hm : m' ∈ work s.todo ∨ m' ∈ (s.exec m).2) :
    m' ∈ work ((s.exec m).1.setTodo t ((s.exec m).2 ++ ms)).todo := by
  have hmem : m' ∈ m ::ₘ work ((s.exec m).1.setTodo t ((s.exec m).2 ++ ms)).todo := by
    rw [work_thread h]
    exact mem_add.mpr hm
  exact (mem_cons.mp hmem).resolve_left hne

/-- Only an action that closes the connection closes it, and none makes it. -/
lemma exec_conn (m : Action) :
    ((s.exec m).1.conn = .closed → s.conn = .closed ∨ m = .closeConn) ∧
      ((s.exec m).1.conn = .failed → s.conn = .failed) ∧
      (s.conn = .absent → (s.exec m).1.conn = .absent) := by
  cases m with
  | enqueue c =>
    simp only [exec]
    split_ifs <;> simp
  | closeConn =>
    cases hc : s.conn <;> simp [exec, close, hc]
  | _ => simp [exec]

lemma exec_closing (m : Action) :
    ((s.exec m).1.w.closeReq → s.w.closeReq ∨ m = .requestClose) ∧
      ((s.exec m).1.actor.closing → s.actor.closing) := by
  cases m with
  | enqueue c =>
    simp only [exec]
    split_ifs <;> simp [ConnWriter.append]
  | goRun => simp [exec, Actor.closing]
  | _ => simp [exec, ConnWriter.attach, ConnWriter.requestClose, ConnWriter.signal]

/-- An action that closes the connection was on its way. -/
lemma Closing.of_thread (h : s.todo t = m :: ms)
    (hc : ((s.exec m).1.setTodo t ((s.exec m).2 ++ ms)).Closing) : s.Closing := by
  have hm : m ∈ work s.todo := mem_work.mpr ⟨t, h ▸ List.mem_cons_self⟩
  rcases hc with hc | hc | hc | hc | hc | hc
  · rcases (s.exec_closing m).1 hc with hc | rfl
    · exact .inl hc
    · exact .inr (.inr (.inr (.inr (.inl hm))))
  · exact .inr (.inl ((s.exec_closing m).2 hc))
  · rcases (s.exec_conn m).1 hc with hc | rfl
    · exact .inr (.inr (.inl hc))
    · exact .inr (.inr (.inr (.inr (.inr hm))))
  · exact .inr (.inr (.inr (.inl ((s.exec_conn m).2.1 hc))))
  · rcases mem_work_thread h hc with hc | hc
    · exact .inr (.inr (.inr (.inr (.inl hc))))
    · rcases exec_left hc with hc | ⟨hc, -⟩ <;> cases hc
  · rcases mem_work_thread h hc with hc | hc
    · exact .inr (.inr (.inr (.inr (.inr hc))))
    · rcases exec_left hc with hc | ⟨hc, -⟩ <;> cases hc

lemma Closing.of_push {s₁ : Socket}
    (hms : ∀ m ∈ ms, m ≠ .requestClose ∧ m ≠ .closeConn) (hc : (s₁.push t ms).Closing) :
    s₁.Closing := by
  have hwork : ∀ m, m ∈ work (s₁.push t ms).todo → m ∈ work s₁.todo ∨ m ∈ ms := by simp
  rcases hc with hc | hc | hc | hc | hc | hc
  · exact .inl hc
  · exact .inr (.inl hc)
  · exact .inr (.inr (.inl hc))
  · exact .inr (.inr (.inr (.inl hc)))
  · rcases hwork _ hc with hc | hc
    · exact .inr (.inr (.inr (.inr (.inl hc))))
    · exact absurd rfl (hms _ hc).1
  · rcases hwork _ hc with hc | hc
    · exact .inr (.inr (.inr (.inr (.inr hc))))
    · exact absurd rfl (hms _ hc).2

namespace Tables

variable {ms : List Action} (h : Tables s)
include h

lemma thread {t : Thread} {m : Action} (hm : s.todo t = m :: ms) :
    Tables ((s.exec m).1.setTodo t ((s.exec m).2 ++ ms)) := by
  have hmem : m ∈ work s.todo := mem_work.mpr ⟨t, hm ▸ List.mem_cons_self⟩
  obtain ⟨hconns, hwriters, hresume, hended, -⟩ := s.exec_tables m
  refine ⟨fun hc => ?_, ?_, fun ha => ?_, fun hd => ?_⟩
  · rw [setTodo_conns, setTodo_writers, hconns, hwriters]
    exact h.gone (.of_thread hm hc)
  · rw [setTodo_readEnded, setTodo_conns, hended, hconns]
    exact h.half
  · rw [setTodo_pump] at ha
    rw [setTodo_conns, setTodo_readResume, hconns, hresume]
    rcases s.exec_pump m with ⟨hp, -⟩ | ⟨hp, -⟩ | ⟨hp, -⟩
    · exact h.armed (hp ▸ ha)
    · simp [hp, Pump.armed] at ha
    · simp [hp, Pump.armed] at ha
  · have hbefore : s.pump = .dialing ∨ .goDial ∈ work s.todo := by
      rcases hd with hd | hd
      · rw [setTodo_pump] at hd
        rcases s.exec_pump m with ⟨hp, -⟩ | ⟨-, rfl⟩ | ⟨hp, -⟩
        · exact .inl (hp ▸ hd)
        · exact .inr hmem
        · rw [hp] at hd
          cases hd
      · rcases mem_work_thread hm hd with hd | hd
        · exact .inr hd
        · rcases exec_left hd with hd | ⟨hd, -⟩ <;> cases hd
    rw [setTodo_conn, setTodo_conns, hconns]
    exact ⟨(s.exec_conn m).2.2 (h.dialing hbefore).1, (h.dialing hbefore).2⟩

lemma push (t : Thread)
    (hms : ∀ m ∈ ms, (m ≠ .requestClose ∧ m ≠ .closeConn) ∧ m ≠ .goDial) :
    Tables (s.push t ms) where
  gone hc := h.gone (hc.of_push fun m hm => (hms m hm).1)
  half := h.half
  armed := h.armed
  dialing hd := by
    rw [work_push, mem_add, mem_coe] at hd
    rcases hd with hd | hd | hd
    · exact h.dialing (.inl hd)
    · exact h.dialing (.inr hd)
    · exact absurd rfl (hms _ hd).2

/-- The socket leaves the tables. -/
lemma leave {p : Pump} {rr : Bool} (t : Thread)
    (hp : p = s.pump ∨ p = .ending) (hms : .goDial ∉ ms) :
    Tables ({ s with
      conns := false, writers := false, readResume := rr, readEnded := false
      pump := p }.push t ms) where
  gone _ := ⟨rfl, rfl⟩
  half hr := by simp at hr
  armed _ hc := by simp at hc
  dialing hd := by
    rw [work_push, mem_add, mem_coe] at hd
    refine ⟨?_, rfl⟩
    rcases hd with hd | hd | hd
    · rcases hp with rfl | rfl
      · exact (h.dialing (.inl hd)).1
      · cases hd
    · exact (h.dialing (.inr hd)).1
    · exact absurd hd hms

lemma loop {p : Pump} {r rr : Bool} {ps : List Post} (hp : p ≠ .dialing)
    (harmed : p.armed → s.conns → rr) :
    Tables { s with pump := p, resume := r, readResume := rr, posted := ps } where
  gone := h.gone
  half := h.half
  armed := harmed
  dialing hd := h.dialing (.inr (hd.resolve_left hp))

/-- The write actor closes the connection only after a close request. -/
lemma acts {w : ConnWriter} {b : Actor} {e : Effect}
    (hw : w.closeReq = s.w.closeReq) (hb : b.closing → s.actor.closing ∨ s.w.closeReq)
    (he : e.conn = some .close → s.actor.closing) :
    Tables ({ s with w := w, actor := b }.apply e) where
  gone hc := by
    refine h.gone ?_
    rcases hc with hc | hc | hc | hc | hc
    · exact .inl (hw ▸ hc)
    · exact (hb hc).elim (fun hc => .inr (.inl hc)) .inl
    · by_cases hclose : e.conn = some .close
      · exact .inr (.inl (he hclose))
      · exact .inr (.inr (.inl (by simpa [apply, hclose] using hc)))
    · by_cases hclose : e.conn = some .close
      · exact .inr (.inl (he hclose))
      · exact .inr (.inr (.inr (.inl (by simpa [apply, hclose] using hc))))
    · exact .inr (.inr (.inr (.inr hc)))
  half := h.half
  armed := h.armed
  dialing hd := by
    obtain ⟨hconn, hconns⟩ := h.dialing hd
    refine ⟨?_, hconns⟩
    simp [apply, hconn, close]

/-- The dial ends: a connection is kept only for a socket that is still in the tables. -/
lemma dialed (hbooks : Books s) (hp : s.pump = .dialing) (ok : Bool) :
    Tables (s.dialed ok) := by
  obtain ⟨hconn, hconns⟩ := h.dialing (.inl hp)
  have hnodial : .goDial ∉ work s.todo := fun hm => by
    have := (hbooks.none_of_starts hm rfl).1
    simp [hp] at this
  unfold Socket.dialed
  split_ifs with hok hw
  · -- a socket in the tables is not closing
    have hnot : ¬ s.Closing := fun hc => by simp [(h.gone hc).2] at hw
    refine ⟨fun hc => absurd ?_ hnot, fun _ => rfl, fun ha => ?_, fun hd => ?_⟩
    · rcases hc.of_push (by simp) with hc | hc | hc | hc | hc
      · exact .inl hc
      · exact .inr (.inl hc)
      · cases hc
      · cases hc
      · exact .inr (.inr (.inr (.inr hc)))
    · simp [Pump.armed] at ha
    · simp [hnodial] at hd
  · refine ⟨fun _ => ⟨hconns, by simpa using hw⟩, h.half, fun ha => ?_, fun hd => ?_⟩
    · simp [Pump.armed] at ha
    · simp [hnodial] at hd
  · refine ⟨fun _ => ⟨hconns, rfl⟩, h.half, fun ha => ?_, fun hd => ?_⟩
    · simp [Pump.armed] at ha
    · simp [hnodial] at hd

lemma unregister {e : ReadErr} : Tables (s.unregister e) := by
  unfold Socket.unregister
  split_ifs with hkeep
  · have hconns : s.conns := by
      simp only [keepWriter, Bool.and_eq_true] at hkeep
      exact hkeep.1.1.2
    refine Tables.push (s := { s with readEnded := true, readResume := false, pump := .ending })
      ⟨h.gone, fun _ => hconns, fun ha => ?_, fun hd => ?_⟩ _ (by simp)
    · simp [Pump.armed] at ha
    · exact h.dialing (.inr (hd.resolve_left (by simp)))
  · exact h.leave _ (.inr rfl) (by simp)

lemma opNetEnd : Tables s.opNetEnd := by
  unfold Socket.opNetEnd
  split_ifs
  · exact h.leave _ (.inl rfl) (by simp)
  · exact Tables.push (s := { s with w := s.w.requestHalfClose })
      ⟨h.gone, h.half, h.armed, h.dialing⟩ _ (by simp)
  · exact h

theorem step (hbooks : Books s) {a : Act} {s' : Socket}
    (hs : s.step a = some s') : Tables s' := by
  cases Moves.of_step hs with
  | thread hm => exact h.thread hm
  | arm hp => exact h.loop (by simp) fun _ _ => rfl
  | take hp | readClosed hp => exact h.loop (by simp) fun _ => h.armed (by simp [hp, Pump.armed])
  | unregister hp => exact h.unregister
  | @read n err hp =>
    refine h.loop ?_ fun _ => h.armed (by simp [hp, Pump.armed])
    cases err <;> simp
  | actor hw hb he => exact h.acts hw hb he
  | runPosted hp => exact ⟨h.gone, h.half, h.armed, h.dialing⟩
  | dial hp => exact h.dialed hbooks hp _
  | netAttach hopen =>
    exact Tables.push (s := { s with opened := true }) ⟨h.gone, h.half, h.armed, h.dialing⟩ _
      (by simp +contextual)
  | netReadResume => exact h.push _ (by simp)
  | netWrite =>
    refine h.push _ ?_
    split_ifs <;> simp
  | netEnd => exact h.opNetEnd
  | netClose | closeNet =>
    exact h.leave _ (.inl rfl) (by simp)

end Tables

/-! ### Waking the pump -/

/-- Some goroutine is about to put a token into the channel of the pump. -/
def PokeAhead (s : Socket) : Prop :=
  .sendResume ∈ work s.todo ∨ s.readResume ∧ .pokeRead ∈ work s.todo

instance : Decidable s.PokeAhead := inferInstanceAs (Decidable (_ ∨ _))

/-- A read that returns data once the socket has left the tables finds the token of the close. -/
def TokenLeft (s : Socket) : Act → Prop
  | .read _ none => s.conns ∨ s.resume ∨ s.PokeAhead
  | _ => True

instance (a : Act) : Decidable (s.TokenLeft a) := by
  unfold TokenLeft
  split <;> infer_instance

/-- A waiting pump will be woken, or its socket is still in the tables. -/
def Woken (s : Socket) : Prop := s.pump = .parked → s.conns ∨ s.resume ∨ s.PokeAhead

lemma exec_resume (h : s.resume) : (s.exec m).1.resume := by
  cases m with
  | enqueue c =>
    simp only [exec]
    split_ifs <;> exact h
  | sendResume => rfl
  | _ => exact h

namespace Woken

/-- A token on its way arrives, or is still on its way. -/
lemma thread (h : Woken s) {t : Thread} {m : Action} {ms : List Action}
    (hm : s.todo t = m :: ms) : Woken ((s.exec m).1.setTodo t ((s.exec m).2 ++ ms)) := by
  intro hp
  obtain ⟨hconns, -, hresume, -, -⟩ := s.exec_tables m
  have hparked : s.pump = .parked := by
    rw [setTodo_pump] at hp
    rcases s.exec_pump m with ⟨hp', -⟩ | ⟨hp', -⟩ | ⟨hp', -⟩
    · exact hp' ▸ hp
    · rw [hp'] at hp
      cases hp
    · rw [hp'] at hp
      cases hp
  rw [setTodo_conns, setTodo_resume, hconns]
  rcases h hparked with hc | hr | hsend | ⟨hreg, hpoke⟩
  · exact .inl hc
  · exact .inr (.inl (s.exec_resume hr))
  · by_cases heq : m = .sendResume
    · subst heq
      exact .inr (.inl rfl)
    · exact .inr (.inr (.inl (mem_work_thread_of_ne hm (Ne.symm heq) (.inl hsend))))
  · by_cases heq : m = .pokeRead
    · subst heq
      have hleft : Action.sendResume ∈ (s.exec .pokeRead).2 := by simp [exec, hreg]
      exact .inr (.inr (.inl (mem_work_thread_of_ne hm (by simp) (.inr hleft))))
    · refine .inr (.inr (.inr ⟨?_, mem_work_thread_of_ne hm (Ne.symm heq) (.inl hpoke)⟩))
      rw [setTodo_readResume, hresume]
      exact hreg

lemma push (h : Woken s) (t : Thread) (ms : List Action) : Woken (s.push t ms) := by
  intro hp
  rcases h hp with hc | hr | hsend | ⟨hreg, hpoke⟩
  · exact .inl hc
  · exact .inr (.inl hr)
  · exact .inr (.inr (.inl (by simp [hsend])))
  · exact .inr (.inr (.inr ⟨hreg, by simp [hpoke]⟩))

lemma of_not_parked (h : s.pump ≠ .parked) : Woken s := fun hp => absurd hp h

lemma opNetEnd (h : Woken s) (hbooks : Books s) : Woken s.opNetEnd := by
  unfold Socket.opNetEnd
  split_ifs with hw hr
  · refine of_not_parked ?_
    simp [hbooks.half hr]
  · exact Woken.push (s := { s with w := s.w.requestHalfClose }) h _ _
  · exact h

/-- A close that takes the socket out of the tables leaves a token for the pump behind. -/
lemma leave (h : Woken s) (htables : Tables s) {s' : Socket} (hpump : s'.pump = s.pump)
    (hresume : s'.resume = s.resume) (hpoke : s.readResume → s'.PokeAhead)
    (hsend : .sendResume ∈ work s.todo → s'.PokeAhead) : Woken s' := by
  intro hp
  rw [hpump] at hp
  rcases h hp with hc | hr | hahead | ⟨hreg, -⟩
  · exact .inr (.inr (hpoke (htables.armed (by simp [hp, Pump.armed]) hc)))
  · exact .inr (.inl (hresume ▸ hr))
  · exact .inr (.inr (hsend hahead))
  · exact .inr (.inr (hpoke hreg))

theorem step (h : Woken s) (hbooks : Books s) (htables : Tables s) {a : Act} {s' : Socket}
    (htoken : s.TokenLeft a) (hs : s.step a = some s') : Woken s' := by
  cases Moves.of_step hs with
  | thread hm => exact h.thread hm
  | arm hp => exact fun _ => .inr (.inl rfl)
  | take hp => exact of_not_parked (by simp)
  | unregister hp =>
    refine of_not_parked ?_
    unfold Socket.unregister
    split_ifs <;> simp
  | readClosed hp => exact of_not_parked (by simp [readReturns])
  | @read n err hp =>
    cases err with
    | none => exact fun _ => htoken
    | some e => exact of_not_parked (by simp [readReturns])
  | actor hw hb he => exact h
  | runPosted hp => exact h
  | dial hp =>
    refine of_not_parked ?_
    unfold Socket.dialed
    split_ifs <;> simp
  | netAttach hopen => exact Woken.push (s := { s with opened := true }) h _ _
  | netReadResume | netWrite => exact h.push _ _
  | netEnd => exact h.opNetEnd hbooks
  | netClose =>
    refine h.leave htables rfl rfl (fun hreg => .inr ⟨hreg, ?_⟩) fun hsend => .inl ?_
    · simp [Socket.opNetClose]
    · simp [Socket.opNetClose, hsend]
  | closeNet =>
    refine h.leave htables rfl rfl (fun hreg => .inl ?_) fun hsend => .inl ?_
    · simp [Socket.closeNet, hreg]
    · simp [Socket.closeNet, hsend]

end Woken

/-! ### Runs -/

/-- Both ways a socket comes to be. -/
def Starts (s : Socket) : Prop := s = connecting ∨ s = accepted

/-- What every run keeps. -/
structure Sound (s : Socket) : Prop where
  books : Books s
  tables : Tables s

lemma sound_of_starts (h : Starts s) : Sound s := by
  rcases h with rfl | rfl
  · refine ⟨⟨?_, ?_, ?_, ?_⟩, ⟨?_, ?_, ?_, ?_⟩⟩
    all_goals simp [connecting, debt, work, Pump.holds, Pump.armed, Action.owes, Action.starts,
      Closing, Actor.closing]
  · refine ⟨⟨?_, ?_, ?_, ?_⟩, ⟨?_, ?_, ?_, ?_⟩⟩
    all_goals simp [accepted, debt, work, Pump.holds, Pump.armed, Action.owes, Action.starts,
      Closing, Actor.closing]

lemma woken_of_starts (h : Starts s) : Woken s := by
  refine .of_not_parked ?_
  rcases h with rfl | rfl <;> simp [connecting, accepted]

lemma Sound.step (s : Socket) (a : Act) (s' : Socket) (h : Sound s) (hs : s.step a = some s') :
    Sound s' :=
  ⟨Books.step s a s' h.books hs, h.tables.step h.books hs⟩

namespace Quiescent

variable (hq : Quiescent s)
include hq

lemma todo_nil (t : Thread) : s.todo t = [] := by
  have hstep : s.step (.thread t) = none := hq _ (by cases t <;> simp [ownSteps])
  simp only [Socket.step] at hstep
  split at hstep
  · assumption
  · cases hstep

lemma work_zero : work s.todo = 0 := by
  simp [work, hq.todo_nil]

lemma posted_nil : s.posted = [] := by
  have hstep : s.step .runPosted = none := hq _ (by simp [ownSteps])
  simp only [Socket.step] at hstep
  split at hstep
  · assumption
  · simp [hq.todo_nil] at hstep

/-- The pump of a socket that cannot move has exited, or waits for the dial, a token or data. -/
lemma pump_cases : s.PumpExited ∨ s.pump = .dialing ∨ s.pump = .parked ∧ s.resume = false ∨
    s.pump = .reading ∧ s.conn = .up := by
  have hpump : s.pumpStep = none := hq .pump (by simp [ownSteps])
  have hclosed : s.step .readClosed = none := hq _ (by simp [ownSteps])
  cases hp : s.pump with
  | none => exact .inl (.inl hp)
  | dialing => exact .inr (.inl rfl)
  | starting => simp [pumpStep, hp, hq.todo_nil] at hpump
  | parked => exact .inr (.inr (.inl ⟨rfl, by simpa [pumpStep, hp] using hpump⟩))
  | reading => exact .inr (.inr (.inr ⟨rfl, by simpa [Socket.step, hp] using hclosed⟩))
  | failed e => simp [pumpStep, hp] at hpump
  | ending => exact .inl (.inr ⟨hp, hq.todo_nil _⟩)

end Quiescent

/-- Once the connection is closed and nothing can move, the pump has exited and the pending is
released. -/
lemma released_of_quiescent (h : Sound s) (hw : Woken s) (hq : Quiescent s)
    (hconn : s.conn = .closed ∨ s.conn = .failed) : s.PumpExited ∧ s.released = s.added := by
  have hgone := h.tables.gone (hconn.elim (fun hc => .inr (.inr (.inl hc)))
    fun hc => .inr (.inr (.inr (.inl hc))))
  have hexited : s.PumpExited := by
    rcases hq.pump_cases with hp | hp | ⟨hp, hr⟩ | ⟨-, hup⟩
    · exact hp
    · have := (h.tables.dialing (.inl hp)).1
      simp [this] at hconn
    · -- nobody is left to send a token, and the socket is not in the tables
      have hwake := hw hp
      simp [hgone.1, hr, PokeAhead, hq.work_zero] at hwake
    · simp [hup] at hconn
  refine ⟨hexited, ?_⟩
  have hended : s.readEnded = false := by
    by_contra hr
    have := h.tables.half (by simpa using hr)
    simp [hgone.1] at this
  have hholds : s.pump.holds = 0 := by
    rcases hexited with hp | ⟨hp, -⟩ <;> simp [hp, Pump.holds]
  have hbal := h.books.balance
  simp [debt, hq.work_zero, hq.posted_nil, hholds, hended] at hbal
  exact hbal.symm

/-- The pending of a socket is taken and released at most once. Where every late read finds a token,
the pump has exited and the pending is released once the connection is closed and nothing moves. -/
theorem teardown (start s : Socket) (acts : List Act) (hstart : Starts start)
    (hrun : Machine.run step start acts = some s) :
    (s.released ≤ s.added ∧ s.added ≤ 1) ∧
      (Machine.Obeys step TokenLeft start acts → Quiescent s →
        s.conn = .closed ∨ s.conn = .failed → s.PumpExited ∧ s.released = s.added) := by
  have hsound : Sound s := Machine.run_invariant_all Sound.step (sound_of_starts hstart) hrun
  refine ⟨⟨?_, ?_⟩, fun hobeys => ?_⟩
  · have := hsound.books.balance
    omega
  · have := hsound.books.once
    have := Bool.toNat_le s.opened
    omega
  · have hboth : Sound s ∧ Woken s :=
      Machine.run_invariant (I := fun s => Sound s ∧ Woken s)
        (fun s a s' h ht hs => ⟨Sound.step s a s' h.1 hs, h.2.step h.1.books h.1.tables ht hs⟩)
        ⟨sound_of_starts hstart, woken_of_starts hstart⟩ hobeys hrun
    exact released_of_quiescent hboth.1 hboth.2

instance : Decidable s.Quiescent := inferInstanceAs (Decidable (∀ a ∈ ownSteps, s.step a = none))

instance : Decidable s.PumpExited := inferInstanceAs (Decidable (_ ∨ _))

/-- The guest is sent a chunk, does not ask for more and closes the socket. -/
def closedByGuest : List Act :=
  [.thread .guest, .dial true, .thread .pump, .thread .pump, .thread .pump, .thread .pump,
    .pump, .pump, .read 5 none,
    .netClose, .thread .guest, .thread .guest, .thread .guest, .thread .guest, .pump]

def closedInTime : List Act :=
  closedByGuest ++ [.actor, .actor, .actor, .readClosed, .pump, .thread .pump, .thread .pump,
    .runPosted, .runPosted, .runPosted]

theorem closedInTime_released : ∃ s, Machine.run step connecting closedInTime = some s ∧
    s.PumpExited ∧ s.released = s.added := by
  obtain ⟨s, hs, hquiet⟩ := (Option.any_eq_true
    (fun s : Socket => decide (s.Quiescent ∧ (s.conn = .closed ∨ s.conn = .failed)))
    (Machine.run step connecting closedInTime)).mp (by decide +kernel)
  have hquiet := of_decide_eq_true hquiet
  have hall := teardown connecting s closedInTime (.inl rfl) hs
  exact ⟨s, hs, hall.2 (by decide +kernel) hquiet.1 hquiet.2⟩

def closedTooLate : List Act :=
  closedByGuest ++ [.read 5 none, .actor, .actor, .actor, .runPosted, .runPosted, .runPosted]

/-- The second chunk has used up the token: the pump waits for ever, with the pending. -/
theorem closedTooLate_stuck : ∃ s, Machine.run step connecting closedTooLate = some s ∧
    s.Quiescent ∧ s.conn = .closed ∧ ¬ s.PumpExited ∧ s.added = 1 ∧ s.released = 0 := by
  obtain ⟨s, hs, hstuck⟩ := (Option.any_eq_true
    (fun s : Socket => decide (s.Quiescent ∧ s.conn = .closed ∧ ¬ s.PumpExited ∧ s.added = 1 ∧
      s.released = 0))
    (Machine.run step connecting closedTooLate)).mp (by decide +kernel)
  exact ⟨s, hs, of_decide_eq_true hstuck⟩

end Socket

end GoSpidermonkey.Nodejs
