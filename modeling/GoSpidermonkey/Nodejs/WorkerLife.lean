import GoSpidermonkey.Nodejs.Worker

/-!
# The life of one worker

What the agents, the pump and the loop do is, for one worker, a life of its own: its agent posts and
ends, the pump holds its messages, checks it and lists it for reaping, and the loop runs its
closures. The rest of the system shows only in where the pump is.

The invariants of such a life come in three groups. `Counted` says how often it is reported that the
worker has ended, `Delivered` where its messages are and which code is reported, and `Scanned` how
far the reaper has come.
-/

namespace GoSpidermonkey.Nodejs.Worker

open Bridge List

/-- How far `opWorkerSpawn` is. -/
inductive Stage
  | unborn
  | made
  | sending
  | announcing
  | settled
deriving DecidableEq

/-- The worker is in the table and `opWorkerSpawn` has not returned. -/
def Stage.opening : Stage → Bool
  | .sending | .announcing => true
  | _ => false

/-- The worker is not in the table yet. -/
def Stage.early : Stage → Bool
  | .unborn | .made => true
  | _ => false

/-- Where the pump is: in `reapDead`, whether it still has to check the worker, or has listed it. -/
inductive Phase
  | away
  | locking
  | due
  | checked (listed : Bool)
  | reaping (listed : Bool)

/-- The pump holds the lock of the table. -/
def Phase.locked : Phase → Bool
  | .due | .checked _ => true
  | _ => false

def Phase.listed : Phase → Bool
  | .checked listed | .reaping listed => listed
  | _ => false

def Phase.isChecked : Phase → Bool
  | .checked _ => true
  | _ => false

/-- A closure queued for the loop on behalf of the worker. -/
inductive Errand
  | online
  | message (m : Message)
  | crash
deriving DecidableEq

/-- The closures that end the worker take the lock of the table. -/
def Errand.locks : Errand → Bool
  | .online => false
  | .message m => m.code?.isSome
  | .crash => true

def messages (errands : List Errand) : List Message :=
  errands.filterMap fun
    | .message m => some m
    | _ => none

/-- The messages whose closures are queued behind that of a crash. -/
def afterCrash : List Errand → List Message
  | [] => []
  | .crash :: rest => messages rest
  | .online :: rest | .message _ :: rest => afterCrash rest

/-- The codes of the `exit` events. -/
def codes (events : List Event) : List Value :=
  events.filterMap fun
    | .exit code => some code
    | _ => none

/-- The code of the first message that says the worker exits. -/
def firstExit (said : List Message) : Option Value := said.findSome? Message.code?

@[simp] lemma messages_append (l l' : List Errand) :
    messages (l ++ l') = messages l ++ messages l' := filterMap_append

lemma afterCrash_append_of_notMem {errands : List Errand} (h : .crash ∉ errands)
    (more : List Errand) : afterCrash (errands ++ more) = afterCrash more := by
  induction errands with
  | nil => rfl
  | cons e rest ih =>
    obtain ⟨hne, hrest⟩ := not_or.mp (mem_cons.not.mp h)
    cases e with
    | crash => exact absurd rfl hne
    | online | message => exact ih hrest

lemma afterCrash_append {errands : List Errand} (h : .crash ∈ errands) (more : List Errand) :
    afterCrash (errands ++ more) = afterCrash errands ++ messages more := by
  induction errands with
  | nil => cases h
  | cons e rest ih =>
    cases e with
    | crash => exact messages_append rest more
    | online | message => exact ih (by simpa using h)

lemma afterCrash_cons {e : Errand} (h : e ≠ .crash) (rest : List Errand) :
    afterCrash (e :: rest) = afterCrash rest := by
  cases e with
  | crash => exact absurd rfl h
  | online | message => rfl

@[simp] lemma codes_append (l l' : List Event) : codes (l ++ l') = codes l ++ codes l' :=
  filterMap_append

lemma mem_codes {events : List Event} {code : Value} :
    code ∈ codes events ↔ .exit code ∈ events := by
  constructor
  · intro h
    obtain ⟨e, he, hcode⟩ := mem_filterMap.mp h
    cases e with
    | exit c =>
      cases hcode
      exact he
    | online | message | error => cases hcode
  · exact fun h => mem_filterMap.mpr ⟨.exit code, h, rfl⟩

lemma firstExit_append {said said' : List Message} (h : ∀ m ∈ said, m.code? = none) :
    firstExit (said ++ said') = firstExit said' := by
  rw [firstExit, findSome?_append, findSome?_eq_none_iff.mpr h]
  rfl

lemma firstExit_stable {said said' : List Message} {code : Value} (h : firstExit said = some code) :
    firstExit (said ++ said') = some code := by
  rw [firstExit, findSome?_append]
  change (firstExit said).or _ = _
  rw [h]
  rfl

/-- What there is of one worker. -/
structure Life where
  stage : Stage
  ended : Bool
  inited : Bool
  inst : Bool
  freed : Bool
  reaping : Bool
  deadSeen : ℕ
  said : List Message
  waiting : List Message
  held : List Message
  errands : List Errand
  phase : Phase
  events : List Event
  added : ℕ
  released : ℕ
  scans : ℕ
  dueFrom : ℕ

namespace Life

variable (l : Life)

/-- `emit` calls the instance, which does nothing once it is freed. -/
def emit (e : Event) : Life := if l.freed then l else { l with events := l.events ++ [e] }

/-- The worker leaves the table: only the one that finds it there reports and releases it. -/
def leave (code : Value) : Life :=
  let t : Life := { l with inst := false, deadSeen := 0, reaping := false }
  if l.inst then { t.emit (.exit code) with freed := true, released := l.released + 1 } else t

/-- What the loop does when it comes to a closure. -/
def run : Errand → Life
  | .online => l.emit .online
  | .message m =>
    match m.verdict with
    | .print => l
    | .exit code => l.leave code
    | .emit e => l.emit e
  | .crash => l.leave crashCode

/-- One worker in the scan of `reapDead`. -/
def check : Life :=
  if l.ended then
    if 2 ≤ l.deadSeen + 1 ∧ l.reaping = false then
      { l with deadSeen := l.deadSeen + 1, reaping := true, phase := .checked true }
    else { l with deadSeen := l.deadSeen + 1, phase := .checked false }
  else { l with deadSeen := 0, phase := .checked false }

/-- One step of the system, seen from one worker. -/
inductive Moves (l : Life) : Life → Prop
  | stay : Moves l l
  | made (h : l.stage = .unborn) : Moves l { l with stage := .made }
  | ends (h : l.ended = false) :
      Moves l { l with ended := true, dueFrom := l.scans + l.phase.locked.toNat }
  | abandon (h : l.stage = .made) : Moves l { l with stage := .settled, freed := true }
  | register (h : l.stage = .made) (hunlocked : l.phase.locked = false) :
      Moves l { l with stage := .sending, inst := true, dueFrom := l.scans }
  | sendFails (h : l.stage = .sending) (hunlocked : l.phase.locked = false) :
      Moves l { l with stage := .settled, inst := false, freed := true }
  | sendInit (h : l.stage = .sending) : Moves l { l with stage := .announcing, inited := true }
  | announce (h : l.stage = .announcing) : Moves l { l with
      stage := .settled
      added := l.added + 1
      errands := l.errands ++ [.online] }
  | post (m : Message) (hlive : l.ended = false) (hinited : l.inited = true) :
      Moves l { l with said := l.said ++ [m], waiting := l.waiting ++ [m] }
  | receive {m : Message} {rest : List Message} (haway : l.phase = .away) (hheld : l.held = [])
      (hwaiting : l.waiting = m :: rest) : Moves l { l with waiting := rest, held := [m] }
  | drop (hgone : l.inst = false) : Moves l { l with held := [] }
  | enqueue {m : Message} (hheld : l.held = [m]) :
      Moves l { l with held := [], errands := l.errands ++ [.message m] }
  | empty (haway : l.phase = .away) (hheld : l.held = []) (hwaiting : l.waiting = []) :
      Moves l { l with phase := .locking }
  | lock (h : l.phase = .locking) :
      Moves l { l with phase := if l.inst then .due else .checked false }
  | check (h : l.phase = .due) : Moves l l.check
  | unlock {listed : Bool} (h : l.phase = .checked listed) :
      Moves l { l with phase := .reaping listed, scans := l.scans + 1 }
  | postReap (h : l.phase = .reaping true) (again : Bool) :
      Moves l { l with phase := .reaping again, errands := l.errands ++ [.crash] }
  | sleep (h : l.phase = .reaping false) : Moves l { l with phase := .away }
  | run {e : Errand} {rest : List Errand} (herrands : l.errands = e :: rest)
      (hidle : l.stage.opening = false) (hunlocked : e.locks = true → l.phase.locked = false) :
      Moves l (({ l with errands := rest } : Life).run e)

/-! ### Closures -/

variable {l : Life}

lemma emit_of_freed (h : l.freed = true) (e : Event) : l.emit e = l := if_pos h

lemma emit_of_not_freed (h : l.freed = false) (e : Event) :
    l.emit e = { l with events := l.events ++ [e] } := if_neg (by simp [h])

lemma leave_of_inst (h : l.inst = true) (hfreed : l.freed = false) (code : Value) :
    l.leave code = { l with
      inst := false
      deadSeen := 0
      reaping := false
      events := l.events ++ [.exit code]
      freed := true
      released := l.released + 1 } := by
  simp [leave, h, emit, hfreed]

lemma leave_of_not_inst (h : l.inst = false) (code : Value) :
    l.leave code = { l with deadSeen := 0, reaping := false } := by
  simp [leave, h]

/-- What the closures do: nothing, an event, or the end of the worker. -/
inductive Runs (l : Life) : Errand → Life → Prop
  | quiet {m : Message} (hcode : m.code? = none) : Runs l (.message m) l
  | emitted {e : Errand} {event : Event} (hevent : ∀ code, event ≠ .exit code)
      (hcode : ∀ m, e = .message m → m.code? = none) (hcrash : e ≠ .crash) : Runs l e (l.emit event)
  | left {e : Errand} {code : Value}
      (hcode : e = .crash ∧ code = crashCode ∨ ∃ m, e = .message m ∧ m.code? = some code) :
      Runs l e (l.leave code)

/-- `dispatch` itself emits no `exit`. -/
lemma verdict_ne_exit {m : Message} {event : Event} (h : m.verdict = .emit event) (code : Value) :
    event ≠ .exit code := by
  rintro rfl
  unfold Message.verdict at h
  split_ifs at h <;> simp at h

lemma run_runs (e : Errand) : Runs l e (l.run e) := by
  cases e with
  | online => exact .emitted (by simp) (by simp) (by simp)
  | crash => exact .left (.inl ⟨rfl, rfl⟩)
  | message m =>
    simp only [run]
    split
    · rename_i hverdict
      exact .quiet (by simp [Message.code?, hverdict])
    · rename_i code hverdict
      exact .left (.inr ⟨m, rfl, by simp [Message.code?, hverdict]⟩)
    · rename_i event hverdict
      refine .emitted (verdict_ne_exit hverdict) ?_ (by simp)
      rintro m' ⟨⟩
      simp [Message.code?, hverdict]

variable {l' : Life}

/-- What does not change once the agent has ended and its spawning is over. -/
structure Past (l l' : Life) : Prop where
  stage : l'.stage = l.stage
  ended : l'.ended = l.ended
  added : l'.added = l.added
  dueFrom : l'.dueFrom = l.dueFrom
  inst : l.inst = false → l'.inst = false

lemma Past.refl (l : Life) : Past l l := ⟨rfl, rfl, rfl, rfl, id⟩

lemma Past.trans {l'' : Life} (h : Past l l') (h' : Past l' l'') : Past l l'' where
  stage := h'.stage.trans h.stage
  ended := h'.ended.trans h.ended
  added := h'.added.trans h.added
  dueFrom := h'.dueFrom.trans h.dueFrom
  inst hinst := h'.inst (h.inst hinst)

lemma emit_past (l : Life) (event : Event) : Past l (l.emit event) := by
  unfold emit
  split <;> exact ⟨rfl, rfl, rfl, rfl, id⟩

lemma leave_past (l : Life) (code : Value) : Past l (l.leave code) := by
  have hemit := emit_past { l with inst := false, deadSeen := 0, reaping := false } (.exit code)
  unfold leave
  split
  · exact ⟨hemit.stage, hemit.ended, hemit.added, hemit.dueFrom, fun _ => hemit.inst rfl⟩
  · exact ⟨rfl, rfl, rfl, rfl, fun _ => rfl⟩

@[simp] lemma leave_inst (l : Life) (code : Value) : (l.leave code).inst = false := by
  unfold leave
  split
  · exact (emit_past _ _).inst rfl
  · rfl

lemma Runs.past {e : Errand} (h : Runs l e l') : Past l l' := by
  cases h with
  | quiet => exact .refl l
  | emitted => exact emit_past l _
  | left => exact leave_past l _

/-! ### Before the worker is registered -/

/-- Nothing has happened to the worker, but that its agent may have ended. -/
structure Unused (l : Life) : Prop where
  inited : l.inited = false
  inst : l.inst = false
  freed : l.freed = false
  reaping : l.reaping = false
  deadSeen : l.deadSeen = 0
  said : l.said = []
  waiting : l.waiting = []
  held : l.held = []
  errands : l.errands = []
  listed : l.phase.listed = false
  due : l.phase ≠ .due
  added : l.added = 0

/-- The worker is unused until it is registered. -/
def Fresh (l : Life) : Prop := l.stage.early = true → Unused l

lemma Unused.moves (h : Unused l) (hm : Moves l l') (hearly : l'.stage.early = true) :
    Unused l' := by
  cases hm with
  | stay => exact h
  | made hstage | ends hended => exact { h with }
  | abandon | register | sendFails | sendInit | announce => cases hearly
  | post m hlive hinited => exact absurd (h.inited.symm.trans hinited) (by simp)
  | receive haway hheld hwaiting => exact absurd (h.waiting.symm.trans hwaiting) (by simp)
  | drop hgone => exact { h with held := rfl }
  | enqueue hheld => exact absurd (h.held.symm.trans hheld) (by simp)
  | empty haway hheld hwaiting | sleep hphase => exact { h with listed := rfl, due := by simp }
  | lock hphase =>
    have hphase' : (if l.inst then Phase.due else .checked false) = .checked false := by
      simp [h.inst]
    exact { h with listed := by rw [hphase']; rfl, due := by rw [hphase']; simp }
  | check hphase => exact absurd hphase h.due
  | unlock hphase =>
    have hlisted := h.listed
    rw [hphase] at hlisted
    exact { h with listed := hlisted, due := by simp }
  | postReap hphase again =>
    have hlisted := h.listed
    rw [hphase] at hlisted
    cases hlisted
  | run herrands => exact absurd (h.errands.symm.trans herrands) (by simp)

/-- No step leads back to before the registration. -/
lemma Moves.early (hm : Moves l l') (hearly : l'.stage.early = true) : l.stage.early = true := by
  cases hm with
  | made hstage => rw [hstage]; rfl
  | check =>
    unfold Life.check at hearly
    split_ifs at hearly <;> exact hearly
  | @run e rest =>
    rw [(run_runs (l := { l with errands := rest }) e).past.stage] at hearly
    exact hearly
  | abandon | register | sendFails | sendInit | announce => cases hearly
  | stay | ends | post | receive | drop | enqueue | empty | lock | unlock | postReap | sleep =>
    exact hearly

lemma Fresh.moves (h : Fresh l) (hm : Moves l l') : Fresh l' := fun hearly =>
  (h (hm.early hearly)).moves hm hearly

/-! ### How often the end is reported -/

/-- Every worker that got its pending is registered or was reported once, by its last event. -/
structure Counted (l : Life) : Prop where
  opening : l.stage.opening = true → l.inst = true
  balance : (codes l.events).length + l.inst.toNat = l.added + l.stage.opening.toNat
  once : l.added + l.stage.opening.toNat ≤ 1
  released : l.released = (codes l.events).length
  kept : l.inst = true → l.freed = false
  freed : codes l.events ≠ [] → l.freed = true
  last : ∀ before code after, l.events = before ++ .exit code :: after → after = []

namespace Counted

lemma frame (h : Counted l) (hstage : l'.stage = l.stage) (hinst : l'.inst = l.inst)
    (hfreed : l'.freed = l.freed) (hadded : l'.added = l.added)
    (hreleased : l'.released = l.released)
    (hevents : l'.events = l.events) : Counted l' where
  opening := by rw [hstage, hinst]; exact h.opening
  balance := by rw [hevents, hinst, hadded, hstage]; exact h.balance
  once := by rw [hadded, hstage]; exact h.once
  released := by rw [hreleased, hevents]; exact h.released
  kept := by rw [hinst, hfreed]; exact h.kept
  freed := by rw [hevents, hfreed]; exact h.freed
  last := by rw [hevents]; exact h.last

lemma codes_nil (h : Counted l) (hfreed : l.freed = false) : codes l.events = [] := by
  by_contra hcodes
  exact Bool.noConfusion (hfreed.symm.trans (h.freed hcodes))

lemma emit (h : Counted l) {event : Event}
    (hevent : ∀ code, event ≠ .exit code) : Counted (l.emit event) := by
  cases hfreed : l.freed with
  | true => rwa [emit_of_freed hfreed]
  | false =>
    have hnone := h.codes_nil hfreed
    have hcodes : codes (l.events ++ [event]) = codes l.events := by
      cases event with
      | exit code => exact absurd rfl (hevent code)
      | online | message | error => simp [codes]
    rw [emit_of_not_freed hfreed]
    exact
      { opening := h.opening
        balance := by rw [hcodes]; exact h.balance
        once := h.once
        released := by rw [hcodes]; exact h.released
        kept := h.kept
        freed := by rw [hcodes]; exact h.freed
        last := fun before code after hsplit => by
          have hsplit' : l.events ++ [event] = before ++ .exit code :: after := hsplit
          have hmem : code ∈ codes (l.events ++ [event]) :=
            mem_codes.mpr (by rw [hsplit']; simp)
          rw [hcodes, hnone] at hmem
          cases hmem }

/-- The end is reported once: the worker was registered, so no code has been emitted. -/
lemma leave (h : Counted l) (hidle : l.stage.opening = false)
    (code : Value) : Counted (l.leave code) := by
  cases hinst : l.inst with
  | false =>
    rw [leave_of_not_inst hinst]
    exact h.frame rfl rfl rfl rfl rfl rfl
  | true =>
    rw [leave_of_inst hinst (h.kept hinst)]
    -- the worker is registered, so nothing has been reported
    have hnone := h.codes_nil (h.kept hinst)
    have hbalance := h.balance
    rw [hnone, hinst] at hbalance
    have hcodes : codes (l.events ++ [.exit code]) = [code] := by
      rw [codes_append, hnone]
      rfl
    exact
      { opening := fun hopening => by simp [hidle] at hopening
        balance := by rw [hcodes]; simpa using hbalance
        once := h.once
        released := by rw [hcodes, h.released, hnone]; rfl
        kept := nofun
        freed := fun _ => rfl
        last := fun before code' after hsplit => by
          rcases eq_nil_or_concat after with rfl | ⟨after', e, rfl⟩
          · rfl
          · rw [concat_eq_append, ← cons_append, ← append_assoc] at hsplit
            have hmem : code' ∈ codes l.events :=
              mem_codes.mpr (by rw [(append_inj' hsplit rfl).1]; simp)
            rw [hnone] at hmem
            cases hmem }

lemma moves (h : Counted l) (hfresh : Fresh l) (hm : Moves l l') : Counted l' := by
  cases hm with
  | stay => exact h
  | made hstage | announce hstage =>
    have hbalance := h.balance
    have honce := h.once
    rw [hstage] at hbalance honce
    exact { h with opening := nofun, balance := hbalance, once := honce }
  | ends hended | post m hlive hinited | receive haway hheld hwaiting | drop hgone
  | enqueue hheld | empty haway hheld hwaiting | lock hphase | unlock hphase
  | postReap hphase again | sleep hphase => exact h.frame rfl rfl rfl rfl rfl rfl
  | abandon hstage =>
    have hunused := hfresh (by rw [hstage]; rfl)
    have hbalance := h.balance
    have honce := h.once
    rw [hstage] at hbalance honce
    exact
      { h with
        opening := nofun
        balance := hbalance
        once := honce
        kept := fun hkept => by rw [hunused.inst] at hkept; cases hkept
        freed := fun _ => rfl }
  | register hstage hunlocked =>
    have hunused := hfresh (by rw [hstage]; rfl)
    have hbalance := h.balance
    rw [hstage, hunused.inst, hunused.added] at hbalance
    exact
      { h with
        opening := fun _ => rfl
        balance := by rw [hunused.added]; simpa [Stage.opening] using hbalance
        once := by rw [hunused.added]; simp [Stage.opening]
        kept := fun _ => hunused.freed }
  | sendFails hstage hunlocked =>
    have hbalance := h.balance
    have honce := h.once
    rw [hstage, h.opening (by rw [hstage]; rfl)] at hbalance
    rw [hstage] at honce
    simp only [Stage.opening, Bool.toNat_true] at hbalance honce
    exact
      { h with
        opening := nofun
        balance := by simp only [Stage.opening, Bool.toNat_false]; omega
        once := by simp only [Stage.opening, Bool.toNat_false]; omega
        kept := nofun
        freed := fun _ => rfl }
  | sendInit hstage =>
    have hopening := h.opening (by rw [hstage]; rfl)
    have hbalance := h.balance
    have honce := h.once
    rw [hstage] at hbalance honce
    exact
      { h with
        opening := fun _ => hopening
        balance := hbalance
        once := honce }
  | check hphase =>
    unfold Life.check
    split_ifs <;> exact h.frame rfl rfl rfl rfl rfl rfl
  | @run e rest herrands hidle hunlocked =>
    have hrest : Counted { l with errands := rest } := h.frame rfl rfl rfl rfl rfl rfl
    have hruns := run_runs (l := { l with errands := rest }) e
    generalize Life.run { l with errands := rest } e = l' at hruns
    cases hruns with
    | quiet hcode => exact hrest
    | emitted hevent hcode hcrash => exact hrest.emit hevent
    | left hcode => exact hrest.leave hidle _

end Counted

/-! ### Where the messages are -/

/-- Every message of a registered worker was handled, or is on its way in the order of the posts;
when the reaper lists it they are all in closures before its own. -/
structure Delivered (l : Life) : Prop where
  mail : l.inst = true → ∃ handled, (∀ m ∈ handled, m.code? = none) ∧
    l.said = handled ++ messages l.errands ++ l.held ++ l.waiting
  away : l.held ≠ [] → l.phase = .away
  due : l.phase = .due → l.inst = true
  seen : l.inst = true → 0 < l.deadSeen → l.ended = true
  empty : l.inst = true → 0 < l.deadSeen → l.phase = .locking ∨ l.phase = .due → l.waiting = []
  listed : l.inst = true → l.phase.listed = true → l.ended = true ∧ l.waiting = []
  crash : l.inst = true → .crash ∈ l.errands →
    l.ended = true ∧ l.waiting = [] ∧ l.held = [] ∧ afterCrash l.errands = []
  code : ∀ code, .exit code ∈ l.events → firstExit l.said = some code ∨
    (firstExit l.said = none ∧ code = crashCode ∧ l.ended = true)

namespace Delivered

variable (h : Delivered l)
include h

/-- Of a worker that is gone only the reported code matters. -/
lemma gone (hinst : l'.inst = false) (haway : l'.held ≠ [] → l'.phase = .away)
    (hdue : l'.phase ≠ .due) (hsaid : l'.said = l.said) (hended : l'.ended = l.ended)
    (hevents : l'.events = l.events) : Delivered l' := by
  have hno {p : Prop} (hreg : l'.inst = true) : p := by rw [hinst] at hreg; cases hreg
  refine ⟨hno, haway, fun hphase => absurd hphase hdue, hno, hno, hno, hno, ?_⟩
  rw [hevents, hsaid, hended]
  exact h.code

lemma held_nil (hphase : l.phase ≠ .away) : l.held = [] := by
  by_contra hheld
  exact hphase (h.away hheld)

omit h in
lemma due_unlocked (hunlocked : l.phase.locked = false) : l.phase ≠ .due := by
  intro hphase
  rw [hphase] at hunlocked
  cases hunlocked

lemma post (m : Message) (hlive : l.ended = false) :
    Delivered { l with said := l.said ++ [m], waiting := l.waiting ++ [m] } := by
  have hdead {p : Prop} (hended : l.ended = true) : p := by rw [hlive] at hended; cases hended
  exact
    { h with
      mail := fun hinst => by
        obtain ⟨handled, hnone, hsaid⟩ := h.mail hinst
        exact ⟨handled, hnone, by simp only [hsaid, append_assoc]⟩
      empty := fun hinst hseen _ => hdead (h.seen hinst hseen)
      listed := fun hinst hlisted => hdead (h.listed hinst hlisted).1
      crash := fun hinst hcrash => hdead (h.crash hinst hcrash).1
      code := fun code hcode => by
        rcases h.code code hcode with hfirst | ⟨-, -, hended⟩
        · exact .inl (firstExit_stable hfirst)
        · exact hdead hended }

lemma receive {m : Message} {rest : List Message} (haway : l.phase = .away)
    (hheld : l.held = []) (hwaiting : l.waiting = m :: rest) :
    Delivered { l with waiting := rest, held := [m] } where
  mail hinst := by
    obtain ⟨handled, hnone, hsaid⟩ := h.mail hinst
    refine ⟨handled, hnone, ?_⟩
    change l.said = _
    rw [hsaid, hheld, hwaiting]
    simp
  away _ := haway
  due := h.due
  seen := h.seen
  empty _ _ hphase := by simp [haway] at hphase
  listed _ hlisted := by simp [haway, Phase.listed] at hlisted
  crash hinst hcrash := by
    obtain ⟨-, hnone, -, -⟩ := h.crash hinst hcrash
    rw [hwaiting] at hnone
    cases hnone
  code := h.code

lemma enqueue {m : Message} (hheld : l.held = [m]) :
    Delivered { l with held := [], errands := l.errands ++ [.message m] } :=
  { h with
    mail := fun hinst => by
      obtain ⟨handled, hnone, hsaid⟩ := h.mail hinst
      refine ⟨handled, hnone, ?_⟩
      change l.said = _
      rw [hsaid, hheld, messages_append]
      simp [messages]
    away := fun hne => absurd rfl hne
    crash := fun hinst hcrash => by
      obtain ⟨-, -, hnone, -⟩ := h.crash hinst (by simpa using hcrash)
      rw [hheld] at hnone
      cases hnone }

variable {e : Errand} {rest : List Errand}

lemma errand (hmessages : messages [e] = [])
    (hcrash : l.inst = true → e = .crash → l.ended = true ∧ l.waiting = [] ∧ l.held = []) :
    Delivered { l with errands := l.errands ++ [e] } :=
  { h with
    mail := fun hinst => by
      obtain ⟨handled, hnone, hsaid⟩ := h.mail hinst
      exact ⟨handled, hnone, by simp only [messages_append, hmessages, append_nil, hsaid]⟩
    crash := fun hinst hmem => by
      by_cases hold : .crash ∈ l.errands
      · obtain ⟨hended, hwaiting, hheld, hafter⟩ := h.crash hinst hold
        exact ⟨hended, hwaiting, hheld, by
          simp only [afterCrash_append hold, hafter, hmessages, append_nil]⟩
      · obtain rfl : .crash = e := by simpa [hold] using hmem
        obtain ⟨hended, hwaiting, hheld⟩ := hcrash hinst rfl
        exact ⟨hended, hwaiting, hheld, afterCrash_append_of_notMem hold _⟩ }

lemma check (hphase : l.phase = .due) : Delivered l.check := by
  have hinst := h.due hphase
  have haway := h.held_nil (by simp [hphase])
  have hcheck (listed : Bool) (deadSeen : ℕ) (reaping : Bool)
      (hseen : 0 < deadSeen → l.ended = true) (hlisted : listed = true → 0 < l.deadSeen) :
      Delivered { l with deadSeen := deadSeen, reaping := reaping, phase := .checked listed } :=
    { h with
      away := fun hheld => absurd haway hheld
      due := nofun
      seen := fun _ => hseen
      empty := by simp
      listed := fun _ hl => ⟨h.seen hinst (hlisted hl), h.empty hinst (hlisted hl) (.inr hphase)⟩ }
  unfold Life.check
  split_ifs with hended htwice
  · exact hcheck true _ _ (fun _ => hended) fun _ => by omega
  · exact hcheck false _ _ (fun _ => hended) nofun
  · exact hcheck false _ _ (fun hpos => absurd hpos (by simp)) nofun

/-- A closure that does not end the worker handles its message. -/
lemma ran (herrands : l.errands = e :: rest)
    (hcode : ∀ m, e = .message m → m.code? = none) (hcrash : e ≠ .crash) :
    Delivered { l with errands := rest } :=
  { h with
    mail := fun hinst => by
      obtain ⟨handled, hnone, hsaid⟩ := h.mail hinst
      rw [herrands] at hsaid
      cases e with
      | crash => exact absurd rfl hcrash
      | online => exact ⟨handled, hnone, hsaid⟩
      | message m =>
        refine ⟨handled ++ [m], ?_, by simpa [messages] using hsaid⟩
        intro m' hm'
        rcases mem_append.mp hm' with hm' | hm'
        · exact hnone m' hm'
        · obtain rfl := mem_singleton.mp hm'
          exact hcode m' rfl
    crash := fun hinst hmem => by
      have hold := h.crash hinst (herrands ▸ mem_cons_of_mem e hmem)
      rwa [herrands, afterCrash_cons hcrash] at hold }

lemma emit {event : Event} (hevent : ∀ code, event ≠ .exit code) : Delivered (l.emit event) := by
  unfold Life.emit
  split
  · exact h
  · refine { h with code := fun code hcode => h.code code ?_ }
    rcases mem_append.mp hcode with hold | hnew
    · exact hold
    · exact absurd (mem_singleton.mp hnew).symm (hevent code)

/-- The closure that ends the worker has the code it exits with: what was handled before has none,
and no messages are queued behind a crash. -/
lemma left_code (hinst : l.inst = true) {code : Value} (herrands : l.errands = e :: rest)
    (hcode : e = .crash ∧ code = crashCode ∨ ∃ m, e = .message m ∧ m.code? = some code) :
    firstExit l.said = some code ∨
      (firstExit l.said = none ∧ code = crashCode ∧ l.ended = true) := by
  obtain ⟨handled, hnone, hsaid⟩ := h.mail hinst
  rcases hcode with ⟨rfl, rfl⟩ | ⟨m, rfl, hm⟩
  · -- all the messages were handled before
    obtain ⟨hended, hwaiting, hheld, hafter⟩ := h.crash hinst (herrands ▸ mem_cons_self)
    rw [herrands] at hafter hsaid
    have hmessages : messages (.crash :: rest) = [] := hafter
    rw [hmessages, hwaiting, hheld] at hsaid
    refine .inr ⟨?_, rfl, hended⟩
    rw [hsaid, append_assoc, append_assoc, firstExit_append hnone]
    rfl
  · left
    have hmessages : messages (.message m :: rest) = m :: messages rest := rfl
    rw [hsaid, append_assoc, append_assoc, firstExit_append hnone, herrands, hmessages]
    simp [firstExit, hm]

lemma leave (hkept : l.inst = true → l.freed = false) {code : Value}
    (herrands : l.errands = e :: rest)
    (hcode : e = .crash ∧ code = crashCode ∨ ∃ m, e = .message m ∧ m.code? = some code)
    (hunlocked : l.phase.locked = false) :
    Delivered (({ l with errands := rest } : Life).leave code) := by
  by_cases hinst : l.inst = true
  · rw [leave_of_inst (l := { l with errands := rest }) hinst (hkept hinst)]
    have hgone : Delivered { l with inst := false, errands := rest, deadSeen := 0 } :=
      h.gone rfl h.away (due_unlocked hunlocked) rfl rfl rfl
    refine { hgone with code := fun code' hmem => ?_ }
    rcases mem_append.mp hmem with hold | hnew
    · exact h.code code' hold
    · obtain rfl : code' = code := by simpa using hnew
      exact h.left_code hinst herrands hcode
  · have hgone := Bool.eq_false_iff.mpr hinst
    rw [leave_of_not_inst (l := { l with errands := rest }) hgone]
    exact h.gone hgone h.away (due_unlocked hunlocked) rfl rfl rfl

lemma moves (hfresh : Fresh l) (hcounted : Counted l) (hm : Moves l l') : Delivered l' := by
  cases hm with
  | stay => exact h
  | made hstage | abandon hstage | sendInit hstage => exact { h with }
  | ends hended =>
    exact
      { h with
        seen := fun _ _ => rfl
        listed := fun hinst hlisted => ⟨rfl, (h.listed hinst hlisted).2⟩
        crash := fun hinst hcrash => ⟨rfl, (h.crash hinst hcrash).2⟩
        code := fun code hcode => (h.code code hcode).imp_right fun hc => ⟨hc.1, hc.2.1, rfl⟩ }
  | register hstage hunlocked =>
    have hunused := hfresh (by rw [hstage]; rfl)
    exact
      { h with
        mail := fun _ => ⟨[], by simp, by
          simp [hunused.said, hunused.errands, hunused.held, hunused.waiting, messages]⟩
        due := fun _ => rfl
        seen := fun _ hseen => absurd hunused.deadSeen hseen.ne'
        empty := fun _ hseen => absurd hunused.deadSeen hseen.ne'
        listed := fun _ hlisted => absurd (hunused.listed.symm.trans hlisted) (by simp)
        crash := fun _ hcrash => by
          rw [hunused.errands] at hcrash
          cases hcrash }
  | sendFails hstage hunlocked => exact h.gone rfl h.away (due_unlocked hunlocked) rfl rfl rfl
  | announce hstage =>
    have herrand := h.errand (e := .online) rfl nofun
    exact { herrand with }
  | post m hlive hinited => exact h.post m hlive
  | receive haway hheld hwaiting => exact h.receive haway hheld hwaiting
  | drop hgone =>
    refine h.gone hgone (fun hne => absurd rfl hne) (fun hdue => ?_) rfl rfl rfl
    exact absurd (hgone.symm.trans (h.due hdue)) (by simp)
  | enqueue hheld => exact h.enqueue hheld
  | empty haway hheld hwaiting =>
    exact
      { h with
        away := fun hne => absurd hheld hne
        due := nofun
        empty := fun _ _ _ => hwaiting
        listed := nofun }
  | lock hphase =>
    have haway := h.held_nil (by simp [hphase])
    refine { h with away := fun hne => absurd haway hne, due := ?_, empty := ?_, listed := ?_ }
    · intro hdue
      by_contra hinst
      simp [hinst] at hdue
    · intro hinst hseen _
      exact h.empty hinst hseen (.inl hphase)
    · intro hinst hlisted
      simp [show l.inst = true from hinst, Phase.listed] at hlisted
  | check hphase => exact h.check hphase
  | @unlock listed hphase =>
    refine { h with away := ?_, due := nofun, empty := by simp, listed := ?_ }
    · intro hne
      exact absurd ((h.away hne).symm.trans hphase) (by simp)
    · intro hinst hlisted
      exact h.listed hinst (by rw [hphase]; exact hlisted)
  | postReap hphase again =>
    have hlisted : l.phase.listed = true := by rw [hphase]; rfl
    have haway := h.held_nil (by simp [hphase])
    have herrand := h.errand (e := .crash) rfl fun hinst _ =>
      ⟨(h.listed hinst hlisted).1, (h.listed hinst hlisted).2, haway⟩
    exact
      { herrand with
        away := fun hne => absurd haway hne
        due := nofun
        empty := by simp
        listed := fun hinst _ => h.listed hinst hlisted }
  | sleep hphase =>
    exact { h with away := fun _ => rfl, due := nofun, empty := by simp, listed := nofun }
  | @run e rest herrands hidle hunlocked =>
    have hruns := run_runs (l := { l with errands := rest }) e
    generalize Life.run { l with errands := rest } e = l' at hruns
    cases hruns with
    | quiet hcode =>
      refine h.ran herrands ?_ (by simp)
      rintro m' ⟨⟩
      exact hcode
    | emitted hevent hcode hcrash => exact (h.ran herrands hcode hcrash).emit hevent
    | left hcode =>
      refine h.leave hcounted.kept herrands hcode (hunlocked ?_)
      rcases hcode with ⟨rfl, -⟩ | ⟨m, rfl, hm⟩
      · rfl
      · simp [Errand.locks, hm]

end Delivered

/-! ### How far the reaper has come -/

/-- A dead worker has been seen dead in every scan since, and one seen dead three times has been
reaped. -/
structure Scanned (l : Life) : Prop where
  scanned : l.inst = true → l.ended = true →
    l.scans + l.phase.isChecked.toNat ≤ l.deadSeen + l.dueFrom
  flagged : l.inst = true → 2 ≤ l.deadSeen → l.reaping = true
  posted : l.inst = true → l.reaping = true → .crash ∈ l.errands ∨ l.phase.listed = true
  small : l.inst = true → l.phase.listed = true → l.deadSeen ≤ 2

namespace Scanned

lemma gone (hinst : l.inst = false) : Scanned l := by
  have hno {p : Prop} (hreg : l.inst = true) : p := by rw [hinst] at hreg; cases hreg
  exact ⟨hno, hno, hno, hno⟩

lemma errand (h : Scanned l) (e : Errand) : Scanned { l with errands := l.errands ++ [e] } :=
  { h with
    posted := fun hinst hreaping =>
      (h.posted hinst hreaping).imp_left fun hcrash => mem_append_left _ hcrash }

lemma check (h : Scanned l) (hphase : l.phase = .due) : Scanned l.check := by
  have hscanned := h.scanned
  have hposted := h.posted
  rw [hphase] at hscanned hposted
  simp only [Phase.isChecked, Bool.toNat_false, Phase.listed, Bool.false_eq_true, or_false,
    add_zero] at hscanned hposted
  unfold Life.check
  split_ifs with hended htwice
  · refine ⟨fun hinst _ => ?_, fun _ _ => rfl, fun _ _ => .inr rfl, fun hinst _ => ?_⟩
    · have hs := hscanned hinst hended
      simp only [Phase.isChecked, Bool.toNat_true]
      omega
    · -- a worker seen dead twice is flagged
      have hflagged := h.flagged hinst
      rw [htwice.2] at hflagged
      by_contra hsmall
      exact absurd (hflagged (by simp only at hsmall; omega)) (by simp)
  · refine ⟨fun hinst _ => ?_, fun _ htwo => ?_, fun hinst hreaping => ?_, nofun⟩
    · have hs := hscanned hinst hended
      simp only [Phase.isChecked, Bool.toNat_true]
      omega
    · simpa using not_and.mp htwice htwo
    · exact .inl (hposted hinst hreaping)
  · refine ⟨fun _ hdead => absurd hdead hended, by simp, fun hinst hreaping => ?_, nofun⟩
    exact .inl (hposted hinst hreaping)

lemma moves (h : Scanned l) (hfresh : Fresh l) (hm : Moves l l') : Scanned l' := by
  cases hm with
  | stay => exact h
  | made hstage | abandon hstage | sendInit hstage | post m hlive hinited
  | receive haway hheld hwaiting => exact { h with }
  | ends hended =>
    refine { h with scanned := fun hinst _ => ?_ }
    have hle : l.phase.isChecked.toNat ≤ l.phase.locked.toNat := by
      cases l.phase <;> simp [Phase.isChecked, Phase.locked]
    change l.scans + l.phase.isChecked.toNat ≤ l.deadSeen + (l.scans + l.phase.locked.toNat)
    omega
  | register hstage hunlocked =>
    have hunused := hfresh (by rw [hstage]; rfl)
    refine ⟨fun _ _ => ?_, fun _ htwo => ?_, fun _ hreaping => ?_, fun _ hlisted => ?_⟩
    · have hchecked : l.phase.isChecked = false := by
        cases hphase : l.phase with
        | checked => rw [hphase] at hunlocked; cases hunlocked
        | away | locking | due | reaping => rfl
      change l.scans + l.phase.isChecked.toNat ≤ l.deadSeen + l.scans
      rw [hchecked]
      simp
    · exact absurd hunused.deadSeen (by simp only at htwo; omega)
    · exact absurd (hunused.reaping.symm.trans hreaping) (by simp)
    · exact absurd (hunused.listed.symm.trans hlisted) (by simp)
  | sendFails hstage hunlocked => exact gone rfl
  | announce hstage => exact { h.errand .online with }
  | drop hgone => exact gone hgone
  | enqueue hheld => exact { h.errand _ with }
  | empty haway hheld hwaiting =>
    have hposted := h.posted
    rw [haway] at hposted
    refine { h with scanned := fun hinst hended => ?_, posted := hposted, small := nofun }
    have hs := h.scanned hinst hended
    simp only [Phase.isChecked, Bool.toNat_false]
    omega
  | lock hphase =>
    have hposted := h.posted
    rw [hphase] at hposted
    refine { h with scanned := fun hinst hended => ?_, posted := fun hinst hreaping => ?_,
                    small := fun hinst hlisted => ?_ }
    · have hs := h.scanned hinst hended
      have hdue : (if l.inst then Phase.due else .checked false) = .due := if_pos hinst
      simp only [hdue, Phase.isChecked, Bool.toNat_false]
      omega
    · exact .inl ((hposted hinst hreaping).resolve_right (by simp [Phase.listed]))
    · simp [show l.inst = true from hinst, Phase.listed] at hlisted
  | check hphase => exact h.check hphase
  | @unlock listed hphase =>
    have hscanned := h.scanned
    have hposted := h.posted
    have hsmall := h.small
    rw [hphase] at hscanned hposted hsmall
    exact { h with scanned := hscanned, posted := hposted, small := hsmall }
  | postReap hphase again =>
    have hscanned := h.scanned
    have hsmall := h.small
    rw [hphase] at hscanned hsmall
    exact
      { h with
        scanned := hscanned
        posted := fun _ _ => .inl (by simp)
        small := fun hinst _ => hsmall hinst rfl }
  | sleep hphase =>
    have hscanned := h.scanned
    have hposted := h.posted
    rw [hphase] at hscanned hposted
    exact { h with scanned := hscanned, posted := hposted, small := nofun }
  | @run e rest herrands hidle hunlocked =>
    have hruns := run_runs (l := { l with errands := rest }) e
    generalize Life.run { l with errands := rest } e = l' at hruns
    have hran (hcrash : e ≠ .crash) : Scanned { l with errands := rest } :=
      { h with
        posted := fun hinst hreaping => (h.posted hinst hreaping).imp_left fun hmem => by
          rw [herrands] at hmem
          exact (mem_cons.mp hmem).resolve_left hcrash.symm }
    cases hruns with
    | quiet hcode => exact hran (by simp)
    | emitted hevent hcode hcrash =>
      unfold Life.emit
      split
      · exact hran hcrash
      · exact { hran hcrash with }
    | left hcode => exact gone (leave_inst _ _)

end Scanned

/-- All that a life keeps. -/
structure Inv (l : Life) : Prop where
  fresh : Fresh l
  counted : Counted l
  delivered : Delivered l
  scanned : Scanned l

lemma Inv.moves (h : Inv l) (hm : Moves l l') : Inv l' where
  fresh := h.fresh.moves hm
  counted := h.counted.moves h.fresh hm
  delivered := h.delivered.moves h.fresh h.counted hm
  scanned := h.scanned.moves h.fresh hm

lemma Moves.past (hm : Moves l l') (hstage : l.stage = .settled) (hended : l.ended = true) :
    Past l l' := by
  cases hm with
  | made h | abandon h | register h | sendFails h | sendInit h | announce h =>
    rw [hstage] at h; cases h
  | ends h => rw [hended] at h; cases h
  | check =>
    unfold Life.check
    split_ifs <;> exact ⟨rfl, rfl, rfl, rfl, id⟩
  | @run e rest => exact { (run_runs (l := { l with errands := rest }) e).past with }
  | stay | post | receive | drop | enqueue | empty | lock | unlock | postReap | sleep =>
    exact ⟨rfl, rfl, rfl, rfl, id⟩

lemma Inv.settled (h : Inv l) (hadded : 0 < l.added) : l.stage = .settled ∧ l.added = 1 := by
  have honce := h.counted.once
  have hearly : l.stage.early = false := by
    by_contra hearly
    have hunused := h.fresh (by simpa using hearly)
    exact hadded.ne' hunused.added
  cases hstage : l.stage with
  | unborn | made => rw [hstage] at hearly; cases hearly
  | sending | announcing =>
    rw [hstage] at honce
    simp only [Stage.opening, Bool.toNat_true] at honce
    omega
  | settled =>
    rw [hstage] at honce
    simp only [Stage.opening, Bool.toNat_false] at honce
    exact ⟨rfl, by omega⟩

/-- A worker that got its pending and is gone was reported and released once. -/
lemma Inv.reported (h : Inv l) (hadded : 0 < l.added) (hinst : l.inst = false) :
    (codes l.events).length = 1 ∧ l.released = 1 := by
  obtain ⟨hstage, hone⟩ := h.settled hadded
  have hbalance := h.counted.balance
  rw [hstage, hinst, hone] at hbalance
  have hcodes : (codes l.events).length = 1 := hbalance
  exact ⟨hcodes, h.counted.released.trans hcodes⟩

/-- After three scans of a dead worker the closure that reports it is queued. -/
lemma Inv.crash_posted (h : Inv l) (hinst : l.inst = true) (hended : l.ended = true)
    (hscans : l.dueFrom + 3 ≤ l.scans) : .crash ∈ l.errands := by
  have hseen := h.scanned.scanned hinst hended
  have hflagged := h.scanned.flagged hinst (by omega)
  refine (h.scanned.posted hinst hflagged).resolve_right fun hlisted => ?_
  have hsmall := h.scanned.small hinst hlisted
  omega

end Life

end GoSpidermonkey.Nodejs.Worker
