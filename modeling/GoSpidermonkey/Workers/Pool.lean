import GoSpidermonkey.Lib.Counting
import GoSpidermonkey.Lib.Machine

/-!
# The pool of worker instances

A `Pool` keeps its idle instances in a channel whose capacity is the number of instances.
`ServeHTTP`, `Scheduled` and `Queue` take one out, run it and send it back by a deferred send;
`Close` takes out as many as `p.size` says and closes each. Any number of calls are in progress at
once, and a step is what one of them does with the channel, with `p.size` or with an instance, so a
run is an interleaving.

The instances are numbered as `NewPool` created them. Every instance stays in one of three places:
the channel, the hands of one call, the list of the closed ones.
-/

namespace GoSpidermonkey.Workers

open Machine List

/-! ### The calls -/

inductive Entry
  | serveHTTP | scheduled | queue
deriving DecidableEq

inductive Answer
  | ran
  /-- `no worker available`, `http.StatusServiceUnavailable`. -/
  | unavailable
  /-- `ctx.Err()`. -/
  | ctxErr

def Entry.onDone : Entry → Answer
  | .serveHTTP => .unavailable
  | .scheduled | .queue => .ctxErr

/-- What `Close` returns. -/
inductive CloseResult
  /-- The error of the first instance that failed to close, `none` for `nil`. -/
  | returned (firstErr : Option ℕ)
  /-- `cfworkers: close timed out waiting for busy instances`. -/
  | timedOut

inductive Call
  /-- In the `select` before the check-out. -/
  | waiting (e : Entry)
  | running (e : Entry) (w : ℕ)
  | answered (a : Answer)
  /-- Before the test `i < p.size` of `Close`. -/
  | looping (i : ℕ) (firstErr : Option ℕ)
  /-- In the `select` of `Close`. -/
  | reclaiming (i : ℕ) (firstErr : Option ℕ)
  /-- Before `w.close()`. -/
  | closing (i : ℕ) (firstErr : Option ℕ) (w : ℕ)
  /-- After the loop, before `p.size = 0`. -/
  | leaving (firstErr : Option ℕ)
  | closed (r : CloseResult)

def Call.worker : Call → Option ℕ
  | .running _ w | .closing _ _ w => some w
  | _ => none

/-- How many instances a `Close` has closed at least, where `n` is the size of the pool. -/
def Call.reclaimed (n : ℕ) : Call → ℕ
  | .looping i _ | .reclaiming i _ | .closing i _ _ => i
  | .leaving _ => n
  | _ => 0

/-! ### The pool -/

/-- A `Pool`, its calls so far, and the instances closed so far. -/
structure Pool where
  workers : List ℕ
  cap : ℕ
  size : ℕ
  calls : List Call
  shut : List ℕ

namespace Pool

/-- The size that `NewPool` takes, `runtime.GOMAXPROCS(0)` by default. -/
def poolSize (size : ℤ) (maxprocs : ℕ) : ℕ := if size ≤ 0 then maxprocs else size.toNat

def warmed (n : ℕ) : Pool where
  workers := List.range n
  cap := n
  size := n
  calls := []
  shut := []

/-- `NewPool`: at an instance that does not warm, its number and the instances closed again. -/
def newPool (size : ℤ) (maxprocs : ℕ) (warms : ℕ → Bool) : Except (ℕ × List ℕ) Pool :=
  match (List.range (poolSize size maxprocs)).find? fun i => !warms i with
  | some i => .error (i, List.range i)
  | none => .ok (warmed (poolSize size maxprocs))

inductive Act
  | enter (e : Entry)
  | checkOut (c : ℕ)
  | giveUp (c : ℕ)
  | giveBack (c : ℕ)
  | close
  /-- The test of the loop of `Close`. -/
  | test (c : ℕ)
  | reclaim (c : ℕ)
  /-- `w.close()`, and whether it succeeds. -/
  | shut (c : ℕ) (ok : Bool)
  | timeout (c : ℕ)
  /-- `p.size = 0` and the return. -/
  | leave (c : ℕ)
deriving DecidableEq

def Act.call : Act → Option ℕ
  | .enter _ | .close => none
  | .checkOut c | .giveUp c | .giveBack c | .test c | .reclaim c | .shut c _ | .timeout c
  | .leave c => some c

variable (s : Pool)

def put (c : ℕ) (call : Call) : Pool := { s with calls := s.calls.set c call }

def begin (call : Call) : Pool := { s with calls := s.calls ++ [call] }

def step (s : Pool) : Act → Option Pool
  | .enter e => some (s.begin (.waiting e))
  | .checkOut c =>
    match s.calls[c]?, s.workers with
    | some (.waiting e), w :: rest => some ({ s with workers := rest }.put c (.running e w))
    | _, _ => none
  | .giveUp c =>
    match s.calls[c]? with
    | some (.waiting e) => some (s.put c (.answered e.onDone))
    | _ => none
  | .giveBack c =>
    match s.calls[c]? with
    | some (.running _ w) =>
      if s.workers.length < s.cap then
        some ({ s with workers := s.workers ++ [w] }.put c (.answered .ran))
      else none
    | _ => none
  | .close => some (s.begin (.looping 0 none))
  | .test c =>
    match s.calls[c]? with
    | some (.looping i firstErr) =>
      some (s.put c (if i < s.size then .reclaiming i firstErr else .leaving firstErr))
    | _ => none
  | .reclaim c =>
    match s.calls[c]?, s.workers with
    | some (.reclaiming i firstErr), w :: rest =>
      some ({ s with workers := rest }.put c (.closing i firstErr w))
    | _, _ => none
  | .shut c ok =>
    match s.calls[c]? with
    | some (.closing i firstErr w) =>
      let firstErr := if ok then firstErr else firstErr.or (some w)
      some ({ s with shut := w :: s.shut }.put c (.looping (i + 1) firstErr))
    | _ => none
  | .timeout c =>
    match s.calls[c]? with
    | some (.reclaiming _ _) => some (s.put c (.closed .timedOut))
    | _ => none
  | .leave c =>
    match s.calls[c]? with
    | some (.leaving firstErr) => some ({ s with size := 0 }.put c (.closed (.returned firstErr)))
    | _ => none

inductive Moves (s : Pool) : Act → Pool → Prop
  | enter (e : Entry) : Moves s (.enter e) (s.begin (.waiting e))
  | checkOut {c e w rest} (hc : s.calls[c]? = some (.waiting e)) (hw : s.workers = w :: rest) :
    Moves s (.checkOut c) ({ s with workers := rest }.put c (.running e w))
  | giveUp {c e} (hc : s.calls[c]? = some (.waiting e)) :
    Moves s (.giveUp c) (s.put c (.answered e.onDone))
  | giveBack {c e w} (hc : s.calls[c]? = some (.running e w)) :
    Moves s (.giveBack c) ({ s with workers := s.workers ++ [w] }.put c (.answered .ran))
  | close : Moves s .close (s.begin (.looping 0 none))
  | again {c i err} (hc : s.calls[c]? = some (.looping i err)) (hi : i < s.size) :
    Moves s (.test c) (s.put c (.reclaiming i err))
  | done {c i err} (hc : s.calls[c]? = some (.looping i err)) (hi : s.size ≤ i) :
    Moves s (.test c) (s.put c (.leaving err))
  | reclaim {c i err w rest} (hc : s.calls[c]? = some (.reclaiming i err))
    (hw : s.workers = w :: rest) :
    Moves s (.reclaim c) ({ s with workers := rest }.put c (.closing i err w))
  | shut {c i err w} (ok : Bool) (hc : s.calls[c]? = some (.closing i err w)) :
    Moves s (.shut c ok) ({ s with shut := w :: s.shut }.put c
      (.looping (i + 1) (if ok then err else err.or (some w))))
  | timeout {c i err} (hc : s.calls[c]? = some (.reclaiming i err)) :
    Moves s (.timeout c) (s.put c (.closed .timedOut))
  | leave {c err} (hc : s.calls[c]? = some (.leaving err)) :
    Moves s (.leave c) ({ s with size := 0 }.put c (.closed (.returned err)))

variable {s}

lemma step_cases {s' : Pool} {act : Act} (hs : step s act = some s') : Moves s act s' := by
  cases act with
  | enter e =>
    cases hs
    exact .enter e
  | close =>
    cases hs
    exact .close
  | checkOut c =>
    simp only [step] at hs
    split at hs
    · rename_i hc hw
      cases hs
      exact .checkOut hc hw
    · cases hs
  | giveUp c =>
    simp only [step] at hs
    split at hs
    · rename_i hc
      cases hs
      exact .giveUp hc
    · cases hs
  | giveBack c =>
    simp only [step] at hs
    split at hs
    · rename_i hc
      obtain ⟨-, hs⟩ := Option.ite_none_right_eq_some.mp hs
      cases hs
      exact .giveBack hc
    · cases hs
  | test c =>
    simp only [step] at hs
    split at hs
    · rename_i i err hc
      cases hs
      by_cases hi : i < s.size
      · rw [if_pos hi]
        exact .again hc hi
      · rw [if_neg hi]
        exact .done hc (Nat.le_of_not_lt hi)
    · cases hs
  | reclaim c =>
    simp only [step] at hs
    split at hs
    · rename_i hc hw
      cases hs
      exact .reclaim hc hw
    · cases hs
  | shut c ok =>
    simp only [step] at hs
    split at hs
    · rename_i hc
      cases hs
      exact .shut ok hc
    · cases hs
  | timeout c =>
    simp only [step] at hs
    split at hs
    · rename_i hc
      cases hs
      exact .timeout hc
    · cases hs
  | leave c =>
    simp only [step] at hs
    split at hs
    · rename_i hc
      cases hs
      exact .leave hc
    · cases hs

/-! ### Where the instances are -/

variable (s) in
def held : List ℕ := s.calls.filterMap Call.worker

variable (s) in
/-- How often an instance is in the channel, in the hands of a call, or among the closed ones. -/
def places (w : ℕ) : ℕ := s.workers.count w + s.held.count w + s.shut.count w

/-- What every run of a pool of `n` instances keeps. -/
structure Sound (n : ℕ) (s : Pool) : Prop where
  conserved : (s.workers : Multiset ℕ) + s.held + s.shut = Multiset.range n
  cap_eq : s.cap = n
  size_eq : s.size = n ∨ s.size = 0 ∧ s.shut.length = n
  reclaimed : ∀ call ∈ s.calls, call.reclaimed n ≤ s.shut.length

lemma sound_warmed (n : ℕ) : Sound n (warmed n) where
  conserved := by simp [warmed, held, Multiset.range]
  cap_eq := rfl
  size_eq := .inl rfl
  reclaimed := by simp [warmed]

lemma held_begin {call : Call} (hw : call.worker = none) : (s.begin call).held = s.held := by
  simp [held, begin, hw]

variable {c n : ℕ} {t : Pool} {acts : List Act} {r : CloseResult}

lemma held_put {old : Call} (new : Call) (hc : s.calls[c]? = some old) :
    ((s.put c new).held : Multiset ℕ) + old.worker.toList = s.held + new.worker.toList :=
  Counting.filterMap_set Call.worker hc

namespace Sound

variable {n : ℕ}

variable (h : Sound n s)
include h

lemma length_eq : s.workers.length + s.held.length + s.shut.length = n := by
  have hcard := congrArg Multiset.card h.conserved
  simpa [add_assoc] using hcard

variable {c : ℕ} {err : Option ℕ}

lemma le_shut {call : Call} (hc : s.calls[c]? = some call) : call.reclaimed n ≤ s.shut.length :=
  h.reclaimed call (mem_of_getElem? hc)

lemma begin {call : Call} (hw : call.worker = none)
    (hr : call.reclaimed n = 0) : Sound n (s.begin call) where
  conserved := by
    rw [held_begin hw]
    exact h.conserved
  cap_eq := h.cap_eq
  size_eq := h.size_eq
  reclaimed := by
    intro call' hmem
    rcases mem_append.mp hmem with hmem | hmem
    · exact h.reclaimed call' hmem
    · rw [mem_singleton.mp hmem, hr]
      exact Nat.zero_le _

lemma put {old : Call} (new : Call) (hc : s.calls[c]? = some old) (workers : List ℕ)
    (hw : (workers : Multiset ℕ) + new.worker.toList = s.workers + old.worker.toList)
    (hr : new.reclaimed n ≤ s.shut.length) :
    Sound n ({ s with workers := workers }.put c new) where
  conserved := by
    have hheld := held_put new hc
    refine Eq.trans ?_ h.conserved
    have hsum : (workers : Multiset ℕ) + (s.put c new).held + s.shut + old.worker.toList
        = (s.workers + s.held + s.shut : Multiset ℕ) + old.worker.toList := by
      calc (workers : Multiset ℕ) + (s.put c new).held + s.shut + old.worker.toList
          = workers + ((s.put c new).held + old.worker.toList) + s.shut := by abel
        _ = workers + new.worker.toList + s.held + s.shut := by rw [hheld]; abel
        _ = s.workers + s.held + s.shut + old.worker.toList := by rw [hw]; abel
    exact add_right_cancel hsum
  cap_eq := h.cap_eq
  size_eq := h.size_eq
  reclaimed := by
    intro call hmem
    rcases mem_or_eq_of_mem_set hmem with hmem | rfl
    · exact h.reclaimed call hmem
    · exact hr

/-- `w.close()`. -/
lemma shut {i w : ℕ} (err' : Option ℕ) (hc : s.calls[c]? = some (.closing i err w)) :
    Sound n ({ s with shut := w :: s.shut }.put c (.looping (i + 1) err')) where
  conserved := by
    have hheld := held_put (.looping (i + 1) err') hc
    simp only [Call.worker, Option.toList, Multiset.coe_singleton, Multiset.coe_nil,
      add_zero] at hheld
    refine Eq.trans ?_ h.conserved
    rw [← hheld]
    change (s.workers : Multiset ℕ) + (s.put c (.looping (i + 1) err')).held + ↑(w :: s.shut) = _
    rw [← Multiset.cons_coe, ← Multiset.singleton_add]
    abel
  cap_eq := h.cap_eq
  size_eq := by
    refine h.size_eq.imp_right fun hzero => ?_
    -- all instances were closed, so no call can have one in its hands
    have hlen := h.length_eq
    have hheld : w ∈ s.held := mem_filterMap.mpr ⟨_, mem_of_getElem? hc, rfl⟩
    have hpos := length_pos_of_mem hheld
    omega
  reclaimed := by
    intro call hmem
    rcases mem_or_eq_of_mem_set hmem with hmem | rfl
    · exact (h.reclaimed call hmem).trans (Nat.le_succ _)
    · exact Nat.succ_le_succ (h.le_shut hc)

/-- `p.size = 0` comes when all instances are closed. -/
lemma leave (hc : s.calls[c]? = some (.leaving err)) :
    Sound n ({ s with size := 0 }.put c (.closed (.returned err))) := by
  have hput := h.put (.closed (.returned err)) hc s.workers rfl (Nat.zero_le _)
  refine { hput with size_eq := .inr ⟨rfl, ?_⟩ }
  have hall : n ≤ s.shut.length := h.le_shut hc
  have hlen := h.length_eq
  change s.shut.length = n
  omega

/-- The loop of `Close` ends when it has closed all instances, or another `Close` has. -/
lemma le_shut_of_done {i : ℕ}
    (hc : s.calls[c]? = some (.looping i err)) (hi : s.size ≤ i) : n ≤ s.shut.length := by
  have hr : i ≤ s.shut.length := h.le_shut hc
  rcases h.size_eq with hsize | ⟨-, hall⟩ <;> omega

lemma step {act : Act} {s' : Pool} (hs : Pool.step s act = some s') : Sound n s' := by
  cases step_cases hs with
  | enter e | close => exact h.begin rfl rfl
  | checkOut hc hw =>
    refine h.put _ hc _ ?_ (Nat.zero_le _)
    rw [hw, ← Multiset.cons_coe, ← Multiset.singleton_add]
    exact Eq.trans (add_comm _ _) (add_zero _).symm
  | giveUp hc | timeout hc => exact h.put _ hc s.workers rfl (Nat.zero_le _)
  | giveBack hc =>
    refine h.put _ hc _ ?_ (Nat.zero_le _)
    exact Eq.trans (add_zero _) (Multiset.coe_add _ _).symm
  | again hc hi =>
    have hr := h.le_shut hc
    exact h.put _ hc s.workers rfl hr
  | done hc hi => exact h.put _ hc s.workers rfl (h.le_shut_of_done hc hi)
  | reclaim hc hw =>
    have hr := h.le_shut hc
    refine h.put _ hc _ ?_ hr
    rw [hw, ← Multiset.cons_coe, ← Multiset.singleton_add]
    exact Eq.trans (add_comm _ _) (add_zero _).symm
  | shut ok hc => exact h.shut _ hc
  | leave hc => exact h.leave hc

omit h in
lemma of_run {acts : List Act} (hrun : run Pool.step (warmed n) acts = some s) : Sound n s :=
  run_invariant_all (fun _ _ _ h hs => h.step hs) (sound_warmed n) hrun

lemma places_eq (w : ℕ) : s.places w = if w < n then 1 else 0 := by
  have hcount := congrArg (Multiset.count w) h.conserved
  simp only [Multiset.count_add, Multiset.coe_count] at hcount
  rw [places, hcount]
  by_cases hw : w < n
  · rw [if_pos hw]
    exact Multiset.count_eq_one_of_mem (Multiset.nodup_range n) (Multiset.mem_range.mpr hw)
  · rw [if_neg hw]
    exact Multiset.count_eq_zero.mpr fun hmem => hw (Multiset.mem_range.mp hmem)

lemma room {w : ℕ} {e : Entry} (hc : s.calls[c]? = some (.running e w)) :
    s.workers.length < s.cap := by
  have hlen := h.length_eq
  have hheld : w ∈ s.held := mem_filterMap.mpr ⟨_, mem_of_getElem? hc, rfl⟩
  have hpos := length_pos_of_mem hheld
  rw [h.cap_eq]
  omega

end Sound

/-! ### A `Close` when all instances are back -/

/-- Only the call `c` acts, its timer fires when it has waited in vain, and no instance fails to
close. -/
def Alone (c : ℕ) (s : Pool) (act : Act) : Prop :=
  act.call = some c ∧ (act = .timeout c → s.workers = []) ∧ act ≠ .shut c false

instance (c : ℕ) (s : Pool) (act : Act) : Decidable (Alone c s act) :=
  inferInstanceAs (Decidable (_ ∧ _ ∧ _))

/-- A `Close` called in `s`, which has closed the instances `taken` so far. -/
structure Taken (s t : Pool) (taken : List ℕ) : Prop where
  workers : s.workers = taken ++ t.workers
  shut : t.shut = taken.reverse ++ s.shut

/-- How far a `Close` that acts alone since `s` has come in `t`. -/
def Along (s t : Pool) : Call → Prop
  | .looping i err => err = none ∧ t.size = s.size ∧ ∃ taken, Taken s t taken ∧ taken.length = i ∧
      i ≤ s.size
  | .reclaiming i err =>
    err = none ∧ t.size = s.size ∧ ∃ taken, Taken s t taken ∧ taken.length = i ∧
      i < s.size
  | .closing i err w => err = none ∧ t.size = s.size ∧
      ∃ taken, Taken s { t with workers := w :: t.workers } taken ∧ taken.length = i ∧ i < s.size
  | .leaving err => err = none ∧ ∃ taken, Taken s t taken ∧ taken.length = s.size
  | .closed (.returned err) => err = none ∧ ∃ taken, Taken s t taken ∧ taken.length = s.size
  | .closed .timedOut => t.workers = [] ∧ ∃ taken, Taken s t taken ∧ taken.length < s.size
  | _ => False

lemma along_step {t' : Pool} {act : Act}
    (h : ∃ call, t.calls[c]? = some call ∧ Along s t call) (hact : Alone c t act)
    (hs : step t act = some t') : ∃ call, t'.calls[c]? = some call ∧ Along s t' call := by
  obtain ⟨call, hcall, halong⟩ := h
  have hlt : c < t.calls.length := (List.getElem?_eq_some_iff.mp hcall).1
  have hput (u : Pool) (hu : u.calls = t.calls) (new : Call) (hnew : Along s (u.put c new) new) :
      ∃ call, (u.put c new).calls[c]? = some call ∧ Along s (u.put c new) call := by
    refine ⟨new, ?_, hnew⟩
    rw [put, hu]
    exact getElem?_set_self hlt
  obtain ⟨hc, htimeout, hshut⟩ := hact
  cases step_cases hs with
  | enter e => cases hc
  | close => cases hc
  | checkOut hold hw | giveUp hold | giveBack hold =>
    cases hc
    obtain rfl := Option.some.inj (hcall.symm.trans hold)
    exact halong.elim
  | again hold hi =>
    cases hc
    obtain rfl := Option.some.inj (hcall.symm.trans hold)
    obtain ⟨herr, hsize, taken, htaken, hlen, -⟩ := halong
    refine hput t rfl _ ?_
    exact ⟨herr, hsize, taken, ⟨htaken.workers, htaken.shut⟩, hlen, hsize ▸ hi⟩
  | done hold hi =>
    cases hc
    obtain rfl := Option.some.inj (hcall.symm.trans hold)
    obtain ⟨herr, hsize, taken, htaken, hlen, hle⟩ := halong
    refine hput t rfl _ ?_
    exact ⟨herr, taken, ⟨htaken.workers, htaken.shut⟩,
      hlen.trans (Nat.le_antisymm hle (hsize ▸ hi))⟩
  | reclaim hold hw =>
    cases hc
    obtain rfl := Option.some.inj (hcall.symm.trans hold)
    obtain ⟨herr, hsize, taken, htaken, hlen, hi⟩ := halong
    rename_i w rest
    refine hput { t with workers := rest } rfl _ ?_
    refine ⟨herr, hsize, taken, ⟨?_, htaken.shut⟩, hlen, hi⟩
    rw [htaken.workers, hw]
    rfl
  | shut ok hold =>
    cases hc
    obtain rfl := Option.some.inj (hcall.symm.trans hold)
    obtain ⟨herr, hsize, taken, htaken, hlen, hi⟩ := halong
    rename_i w
    obtain rfl : ok = true := by
      by_contra hok
      exact hshut (by rw [Bool.not_eq_true] at hok; rw [hok])
    refine hput { t with shut := w :: t.shut } rfl _ ?_
    refine ⟨herr, hsize, taken ++ [w], ⟨?_, ?_⟩, by simp [hlen], hi⟩
    · simpa [put] using htaken.workers
    · simpa [put] using htaken.shut
  | timeout hold =>
    cases hc
    obtain rfl := Option.some.inj (hcall.symm.trans hold)
    obtain ⟨-, -, taken, htaken, hlen, hi⟩ := halong
    refine hput t rfl _ ?_
    exact ⟨htimeout rfl, taken, ⟨htaken.workers, htaken.shut⟩, hlen ▸ hi⟩
  | leave hold =>
    cases hc
    obtain rfl := Option.some.inj (hcall.symm.trans hold)
    obtain ⟨herr, taken, htaken, hlen⟩ := halong
    refine hput { t with size := 0 } rfl _ ?_
    exact ⟨herr, taken, ⟨htaken.workers, htaken.shut⟩, hlen⟩

variable (s) in
/-- A run of a `Close` that is called in `s`, acts alone and returns. -/
structure Closes (acts : List Act) (t : Pool) (r : CloseResult) : Prop where
  run : run step (s.begin (.looping 0 none)) acts = some t
  alone : Obeys step (Alone s.calls.length) (s.begin (.looping 0 none)) acts
  returns : t.calls[s.calls.length]? = some (.closed r)

/-- What a `Close` that acted alone has done. -/
lemma Closes.along (h : Closes s acts t r) :
    Along s t (.closed r) := by
  have hstart : ∃ call, (s.begin (.looping 0 none)).calls[s.calls.length]? = some call ∧
      Along s (s.begin (.looping 0 none)) call := by
    refine ⟨.looping 0 none, by simp [begin], rfl, rfl, [], ⟨rfl, rfl⟩, rfl, Nat.zero_le _⟩
  obtain ⟨call, hcall, halong⟩ := run_invariant (G := Alone s.calls.length)
    (I := fun t => ∃ call, t.calls[s.calls.length]? = some call ∧ Along s t call)
    (fun _ _ _ h hact hs => along_step h hact hs) hstart h.alone h.run
  obtain rfl := Option.some.inj (hcall.symm.trans h.returns)
  exact halong

/-- The call `c`, which is a `Close`, can act alone until it returns. -/
def Returns (c : ℕ) (t : Pool) : Prop :=
  ∃ acts u r, run step t acts = some u ∧ Obeys step (Alone c) t acts ∧
    u.calls[c]? = some (.closed r)

lemma returns_put (r : CloseResult) (hc : c < t.calls.length) :
    Returns c (t.put c (.closed r)) :=
  ⟨[], _, r, rfl, trivial, getElem?_set_self hc⟩

lemma Returns.of_step {t' : Pool} (act : Act) (hact : Alone c t act)
    (hs : step t act = some t') (h : Returns c t') : Returns c t := by
  obtain ⟨acts, u, r, hrun, halone, hu⟩ := h
  refine ⟨act :: acts, u, r, ?_, ⟨hact, ?_⟩, hu⟩
  · rw [run_cons, hs]
    exact hrun
  · rw [hs]
    exact halone

lemma returns_looping_of {i : ℕ} {err : Option ℕ}
    (hc : t.calls[c]? = some (.looping i err))
    (hagain : Returns c (t.put c (.reclaiming i err))) : Returns c t := by
  have hlt := (List.getElem?_eq_some_iff.mp hc).1
  have hs : step t (.test c) =
      some (t.put c (if i < t.size then .reclaiming i err else .leaving err)) := by
    simp only [step, hc]
  refine .of_step (.test c) ⟨rfl, by simp, by simp⟩ hs ?_
  split
  · exact hagain
  · have hc' : (t.put c (.leaving err)).calls[c]? = some (.leaving err) :=
      getElem?_set_self hlt
    refine .of_step (.leave c) ⟨rfl, by simp, by simp⟩ (by simp only [step, hc']; rfl) ?_
    exact returns_put _ (List.getElem?_eq_some_iff.mp hc').1

/-- From the test of its loop on, a `Close` that acts alone returns. -/
lemma returns_looping {i : ℕ} {err : Option ℕ}
    (hc : t.calls[c]? = some (.looping i err)) : Returns c t := by
  -- with every round of the loop there are fewer instances in the channel
  induction hw : t.workers generalizing t i err with
  | nil =>
    have hlt := (List.getElem?_eq_some_iff.mp hc).1
    have hc' : (t.put c (.reclaiming i err)).calls[c]? = some (.reclaiming i err) :=
      getElem?_set_self hlt
    refine returns_looping_of hc ?_
    refine .of_step (.timeout c) ⟨rfl, fun _ => hw, by simp⟩ (by simp only [step, hc']; rfl) ?_
    exact returns_put _ (List.getElem?_eq_some_iff.mp hc').1
  | cons w rest ih =>
    have hlt := (List.getElem?_eq_some_iff.mp hc).1
    let t₁ := t.put c (.reclaiming i err)
    have hc₁ : t₁.calls[c]? = some (.reclaiming i err) := getElem?_set_self hlt
    let t₂ := { t₁ with workers := rest }.put c (.closing i err w)
    have hc₂ : t₂.calls[c]? = some (.closing i err w) :=
      getElem?_set_self (List.getElem?_eq_some_iff.mp hc₁).1
    let t₃ := { t₂ with shut := w :: t₂.shut }.put c (.looping (i + 1) err)
    have hc₃ : t₃.calls[c]? = some (.looping (i + 1) err) :=
      getElem?_set_self (List.getElem?_eq_some_iff.mp hc₂).1
    have hs₂ : step t₁ (.reclaim c) = some t₂ := by
      have hw₁ : t₁.workers = w :: rest := hw
      simp only [step, hc₁, hw₁]
      rfl
    have hs₃ : step t₂ (.shut c true) = some t₃ := by
      simp only [step, hc₂]
      rfl
    refine returns_looping_of hc ?_
    refine .of_step (.reclaim c) ⟨rfl, by simp, by simp⟩ hs₂ ?_
    refine .of_step (.shut c true) ⟨rfl, by simp, by simp⟩ hs₃ ?_
    exact ih hc₃ rfl

/-- A `Close` that acts alone returns. -/
lemma exists_closes (s : Pool) : ∃ acts t r, Closes s acts t r := by
  have hc : (s.begin (.looping 0 none)).calls[s.calls.length]? = some (.looping 0 none) := by
    simp [begin]
  obtain ⟨acts, t, r, hrun, halone, ht⟩ := returns_looping hc
  exact ⟨acts, t, r, hrun, halone, ht⟩

/-- A `Close` that acts alone while no instance is checked out leaves none in the channel. -/
lemma Closes.workers_eq_nil
    (h : Closes s acts t r) (hs : Sound n s) (hheld : s.held = []) : t.workers = [] := by
  have halong := h.along
  cases r with
  | timedOut => exact halong.1
  | returned err =>
    obtain ⟨-, taken, htaken, hlen⟩ := halong
    have hall := hs.length_eq
    rw [htaken.workers, hheld, length_append, length_nil] at hall
    refine length_eq_zero_iff.mp ?_
    rcases hs.size_eq with hsize | ⟨hsize, hshut⟩ <;> omega

lemma Closes.all_shut (h : Closes s acts t r)
    (hs : Sound n s) (hheld : s.held = []) {w : ℕ} (hw : w < n) : w ∈ t.shut := by
  have hnil := h.workers_eq_nil hs hheld
  obtain ⟨taken, htaken⟩ : ∃ taken, Taken s t taken := by
    have halong := h.along
    cases r with
    | timedOut | returned err => exact halong.2.imp fun _ ht => ht.1
  have hmem : w ∈ (s.workers : Multiset ℕ) + s.held + s.shut := by
    rw [hs.conserved]
    exact Multiset.mem_range.mpr hw
  rw [htaken.workers, hheld, hnil] at hmem
  rw [htaken.shut]
  simpa using hmem

/-- It succeeds exactly if no instance was closed before, or all were and a `Close`
had succeeded. -/
lemma Closes.returned_iff
    (h : Closes s acts t r) (hs : Sound n s) (hheld : s.held = []) :
    r = .returned none ↔ s.shut = [] ∨ s.size = 0 := by
  have halong := h.along
  have hnil := h.workers_eq_nil hs hheld
  have hall := hs.length_eq
  cases r with
  | returned err =>
    obtain ⟨rfl, taken, htaken, hlen⟩ := halong
    rw [htaken.workers, hheld, hnil, append_nil, length_nil] at hall
    refine iff_of_true rfl ?_
    rcases hs.size_eq with hsize | ⟨hsize, -⟩
    · refine .inl (length_eq_zero_iff.mp ?_)
      omega
    · exact .inr hsize
  | timedOut =>
    obtain ⟨-, taken, htaken, hlt⟩ := halong
    rw [htaken.workers, hheld, hnil, append_nil, length_nil] at hall
    refine iff_of_false (by simp) ?_
    rintro (hshut | hsize)
    · rw [hshut, length_nil] at hall
      rcases hs.size_eq with hsize | ⟨hsize, -⟩ <;> omega
    · omega

/-! ### Pool conservation -/

lemma newPool_eq {size : ℤ} {maxprocs : ℕ} {warms : ℕ → Bool} {p : Pool}
    (hp : newPool size maxprocs warms = .ok p) : p = warmed (poolSize size maxprocs) := by
  simp only [newPool] at hp
  split at hp
  · cases hp
  · exact (Except.ok.inj hp).symm

/-- Every instance is in one place, and a `Close` that acts alone returns and has then closed every
instance; it succeeds exactly if none was closed before, or a `Close` had succeeded. -/
theorem pool_conserved {size : ℤ} {maxprocs : ℕ} {warms : ℕ → Bool} {p s : Pool} {acts : List Act}
    (hp : newPool size maxprocs warms = .ok p) (hrun : run step p acts = some s) :
    (∀ w, s.places w = if w < p.cap then 1 else 0) ∧
    (∀ c e w, s.calls[c]? = some (.running e w) → (step s (.giveBack c)).isSome = true) ∧
    (s.held = [] → (∃ acts' t r, Closes s acts' t r) ∧
      ∀ acts' t r, Closes s acts' t r → (∀ w < p.cap, w ∈ t.shut) ∧
        (r = .returned none ↔ s.shut = [] ∨ s.size = 0)) := by
  obtain rfl := newPool_eq hp
  have hsound := Sound.of_run hrun
  refine ⟨hsound.places_eq, ?_, ?_⟩
  · intro c e w hc
    simp only [step, hc, if_pos (hsound.room hc)]
    rfl
  · intro hheld
    refine ⟨exists_closes s, fun acts' t r hcloses => ⟨?_, ?_⟩⟩
    · intro w hw
      exact hcloses.all_shut hsound hheld hw
    · exact hcloses.returned_iff hsound hheld

/-- Requests have both instances while a `Close` times out, and give them back after it. -/
def busyClose : List Act :=
  [.enter .serveHTTP, .enter .serveHTTP, .checkOut 0, .checkOut 1, .close, .test 2, .timeout 2,
    .giveBack 0, .giveBack 1]

/-- The `Close` that timed out has closed none, and so the next one succeeds. -/
theorem close_after_busy : ∃ s, run step (warmed 2) busyClose = some s ∧
    s.calls[2]? = some (.closed .timedOut) ∧ (∃ acts t r, Closes s acts t r) ∧
    ∀ acts t r, Closes s acts t r → r = .returned none ∧ ∀ w < 2, w ∈ t.shut := by
  have hp : newPool 2 8 (fun _ => true) = .ok (warmed 2) := rfl
  obtain ⟨s, hrun, hs⟩ : ∃ s, run step (warmed 2) busyClose = some s ∧
      s.calls[2]? = some (.closed .timedOut) ∧ s.held = [] ∧ s.shut = [] := ⟨_, rfl, rfl, rfl, rfl⟩
  obtain ⟨htimeout, hheld, hshut⟩ := hs
  obtain ⟨hexists, hcloses⟩ := (pool_conserved hp hrun).2.2 hheld
  refine ⟨s, hrun, htimeout, hexists, fun acts t r h => ?_⟩
  obtain ⟨hall, hresult⟩ := hcloses acts t r h
  exact ⟨hresult.mpr (.inl hshut), hall⟩

/-- A request has one of two instances while `Close` closes the other and times out. -/
def timedOutClose : List Act :=
  [.enter .serveHTTP, .checkOut 0, .close, .test 1, .reclaim 1, .shut 1 true, .test 1, .timeout 1,
    .giveBack 0]

/-- The request gives its instance back; the next `Close` closes it, and times out. -/
theorem second_close_times_out :
    ∃ s, run step (warmed 2) timedOutClose = some s ∧ s.calls[1]? = some (.closed .timedOut) ∧
      s.held = [] ∧ s.workers = [0] ∧
      ∃ t, Closes s [.test 2, .reclaim 2, .shut 2 true, .test 2, .timeout 2] t .timedOut := by
  refine ⟨_, rfl, rfl, rfl, rfl, _, ⟨rfl, ?_, rfl⟩⟩
  decide

end Pool

end GoSpidermonkey.Workers
