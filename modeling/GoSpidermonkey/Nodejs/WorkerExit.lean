import GoSpidermonkey.Lib.Queue
import GoSpidermonkey.Nodejs.WorkerLife

/-!
# The exit of a worker is reported once

Every step of the system is, for each worker, a step of its life or nothing. From the invariants of
a life follow the properties of every run in which all posts can be read: a worker has at most one
`exit`, as its last event, with one release of its pending and with the code of its first exit
message, if it posted one. If besides the pump comes to the end of its scans again and again and the
loop runs its closures, then every worker whose agent has ended gets its `exit`.
-/

namespace GoSpidermonkey.Nodejs.Worker

open Bridge Agents List Option

variable (read : ℕ → Option Message)

/-! ### The lives in a state -/

def Task.errand (id : ℕ) : Task → Option Errand
  | .online i => if i = id then some .online else none
  | .dispatch i m => if i = id then some (.message m) else none
  | .crashExit i => if i = id then some .crash else none

def eventOf (id : ℕ) (e : ℕ × Event) : Option Event := if e.1 = id then some e.2 else none

namespace State

variable (s : State) (id : ℕ)

def stage : Stage :=
  let past : Stage := if id ∈ s.traffic.started then .settled else .unborn
  match s.main with
  | .idle => past
  | .booking i | .preparing i => if i = id then .made else past
  | .sending i => if i = id then .sending else past
  | .announcing i => if i = id then .announcing else past

def phase : Phase :=
  match s.pump with
  | .receiving | .decoding _ _ | .looking _ _ | .posting _ _ => .away
  | .locking => .locking
  | .scanning todo reap => if id ∈ todo then .due else .checked (decide (id ∈ reap))
  | .reaping reap => .reaping (decide (id ∈ reap))

def held : List Message :=
  match s.pump with
  | .decoding i clone => if i = id then (read clone).toList else []
  | .looking i m | .posting i m => if i = id then [m] else []
  | _ => []

def life : Life where
  stage := s.stage id
  ended := decide (id ∈ s.traffic.ended)
  inited := decide (id ∈ s.inited)
  inst := decide (id ∈ s.insts)
  freed := decide (id ∈ s.freed)
  reaping := decide (id ∈ s.reaping)
  deadSeen := s.deadSeen id
  said := s.said read id
  waiting := (addressed id s.traffic.cluster.posts).filterMap read
  held := s.held read id
  errands := s.tasks.filterMap (Task.errand id)
  phase := s.phase id
  events := s.events.filterMap (eventOf id)
  added := s.added.count id
  released := s.released.count id
  scans := s.scans
  dueFrom := s.dueFrom id

variable {s id} {read : ℕ → Option Message}

lemma phase_locked : (s.phase id).locked = s.pump.locked := by
  unfold phase
  cases s.pump with
  | scanning todo reap => by_cases h : id ∈ todo <;> simp [h, Phase.locked, Pump.locked]
  | receiving | decoding | looking | posting | locking | reaping => rfl

attribute [local simp] life stage phase held said

/-! ### Closures -/

lemma life_emit_self (e : Event) : (s.emit id e).life read id = (s.life read id).emit e := by
  by_cases hfreed : id ∈ s.freed
  · rw [emit, if_pos hfreed, Life.emit_of_freed (by simpa using hfreed)]
  · rw [emit, if_neg hfreed, Life.emit_of_not_freed (by simpa using hfreed)]
    simp [eventOf]

variable {i : ℕ} {task : Task} {act : Act} {s' : State} {todo : Finset ℕ} {reap : List ℕ}

lemma life_emit_of_ne (hne : i ≠ id) (e : Event) :
    (s.emit i e).life read id = s.life read id := by
  unfold emit
  split
  · rfl
  · simp [eventOf, hne]

lemma life_leave_self (code : Value) :
    (s.leave id code).life read id = (s.life read id).leave code := by
  by_cases hinst : id ∈ s.insts
  · by_cases hfreed : id ∈ s.freed
    · simp [leave, Life.leave, emit, Life.emit, forget, hinst, hfreed]
    · simp [leave, Life.leave, emit, Life.emit, forget, hinst, hfreed, eventOf]
  · simp [leave, Life.leave, forget, hinst]

lemma life_leave_of_ne (hne : i ≠ id) (code : Value) :
    (s.leave i code).life read id = s.life read id := by
  by_cases hinst : i ∈ s.insts
  · by_cases hfreed : i ∈ s.freed
    · simp [leave, emit, forget, hinst, hfreed, hne, hne.symm]
    · simp [leave, emit, forget, hinst, hfreed, hne, hne.symm, eventOf]
  · simp [leave, forget, hinst, hne.symm]

lemma life_run_self {e : Errand} (h : task.errand id = some e) :
    (s.run task).life read id = (s.life read id).run e := by
  cases task with
  | online i =>
    obtain ⟨rfl, he⟩ := ite_none_right_eq_some.mp h
    cases he
    exact life_emit_self _
  | dispatch i m =>
    obtain ⟨rfl, he⟩ := ite_none_right_eq_some.mp h
    cases he
    simp only [run, dispatch, Life.run]
    cases m.verdict with
    | print => rfl
    | exit code => exact life_leave_self code
    | emit e => exact life_emit_self e
  | crashExit i =>
    obtain ⟨rfl, he⟩ := ite_none_right_eq_some.mp h
    cases he
    exact life_leave_self _

lemma life_run_none (h : task.errand id = none) :
    (s.run task).life read id = s.life read id := by
  cases task with
  | online i => exact life_emit_of_ne (by simpa [Task.errand] using h) _
  | dispatch i m =>
    have hne : i ≠ id := by simpa [Task.errand] using h
    simp only [run, dispatch]
    cases m.verdict with
    | print => rfl
    | exit code => exact life_leave_of_ne hne code
    | emit e => exact life_emit_of_ne hne e
  | crashExit i => exact life_leave_of_ne (by simpa [Task.errand] using h) _

/-! ### Steps of the cluster -/

/-- The cluster's posts and agents are as they were. -/
structure Same (t t' : Traffic) : Prop where
  started : t'.started = t.started
  booked : t'.booked = t.booked
  ended : t'.ended = t.ended
  posted : t'.posted = t.posted
  posts : t'.cluster.posts = t.cluster.posts

lemma same_answered {t : Traffic} {r : Agents.Reply × Cluster} (hr : Handed t.cluster i r) :
    Same t (t.answered i r) := by
  cases hr with
  | shut | nothing => exact ⟨rfl, rfl, rfl, rfl, rfl⟩
  | popped hopen hpop =>
    obtain ⟨-, -, hrest⟩ := t.cluster.pop_spec hpop
    exact ⟨rfl, rfl, rfl, rfl, by rw [hrest]; rfl⟩

variable (read) in
/-- What the cluster does besides spawning and receiving. -/
inductive Observed (s : State) : State → Prop
  | quiet {t : Traffic} (hsame : Same s.traffic t) : Observed s { s with traffic := t }
  | posts {i clone : ℕ} {m : Message} (hrunning : s.traffic.Running i) (hinited : i ∈ s.inited)
      (hread : read clone = some m) : Observed s { s with
        traffic := { s.traffic with
          cluster := s.traffic.cluster.handlePost i clone
          posted := s.traffic.posted ++ [(i, clone)] } }
  | exits {i : ℕ} (hrunning : s.traffic.Running i) :
      Observed s { s with
        traffic := { s.traffic with
          cluster := s.traffic.cluster.handleExit i
          ended := insert i s.traffic.ended }
        dueFrom := Function.update s.dueFrom i s.stamp }

lemma observed {act : Traffic.Act} {t : Traffic} (houtside : s.Outside act)
    (hreadable : Readable read (.traffic act)) (ht : s.traffic.step act = some t) :
    Observed read s (s.observe act t) := by
  cases act with
  | agentSpawn | spawned | popPost | close => exact houtside.elim
  | send agentID clone | broadcast clone =>
    cases ht
    exact .quiet ⟨rfl, rfl, rfl, rfl, rfl⟩
  | handleReceive i =>
    obtain ⟨-, ht⟩ := ite_none_right_eq_some.mp ht
    obtain ⟨-, -, rfl⟩ := map_eq_some_iff.mp ht
    exact .quiet ⟨rfl, rfl, rfl, rfl, rfl⟩
  | handleInbox i =>
    obtain ⟨-, ht⟩ := ite_none_right_eq_some.mp ht
    obtain ⟨r, hr, rfl⟩ := map_eq_some_iff.mp ht
    exact .quiet (same_answered (handleInbox_handed hr))
  | handleTryInbox i =>
    obtain ⟨-, ht⟩ := ite_none_right_eq_some.mp ht
    cases ht
    exact .quiet (same_answered (handleTryInbox_handed _ i))
  | handlePost i clone =>
    obtain ⟨hrunning, ht⟩ := ite_none_right_eq_some.mp ht
    cases ht
    obtain ⟨m, hm⟩ := isSome_iff_exists.mp hreadable
    exact .posts hrunning houtside hm
  | handleExit i =>
    obtain ⟨hrunning, ht⟩ := ite_none_right_eq_some.mp ht
    cases ht
    exact .exits hrunning

/-! ### Steps of the system -/

variable (read) in
inductive Moved (s : State) : Act → State → Prop
  | observed {act : Traffic.Act} {s' : State} (h : Observed read s s')
      (hsound : s.traffic.Sound → s'.traffic.Sound) : Moved s (.traffic act) s'
  | agentSpawn {id : ℕ} (hidle : s.main = .idle) (hnew : id ∉ s.traffic.started) :
      Moved s (.agentSpawn id) { s with
        traffic := { s.traffic with started := insert id s.traffic.started }
        main := .booking id }
  | book {id : ℕ} (hmain : s.main = .booking id) (hnew : id ∉ s.traffic.booked) :
      Moved s .book { s with
        traffic := { s.traffic with
          cluster := s.traffic.cluster.spawned id
          booked := insert id s.traffic.booked }
        main := .preparing id }
  | abandon {id : ℕ} (hmain : s.main = .preparing id) :
      Moved s .abandon { s with main := .idle, freed := insert id s.freed }
  | register {id : ℕ} (hmain : s.main = .preparing id) (hunlocked : s.pump.locked = false) :
      Moved s .register { s with
        main := .sending id
        insts := insert id s.insts
        dueFrom := Function.update s.dueFrom id s.scans }
  | sendInit {id clone : ℕ} (hmain : s.main = .sending id) :
      Moved s (.sendInit clone) { s with
        traffic := { s.traffic with
          cluster := s.traffic.cluster.send id clone
          sent := s.traffic.sent ++ [(id, clone)] }
        main := .announcing id
        inited := insert id s.inited }
  | sendFails {id : ℕ} (hmain : s.main = .sending id) (hunlocked : s.pump.locked = false) :
      Moved s .sendFails { s with
        main := .idle
        insts := s.insts.erase id
        freed := insert id s.freed }
  | announce {id : ℕ} (hmain : s.main = .announcing id) :
      Moved s .announce { s with
        main := .idle
        added := s.added ++ [id]
        tasks := s.tasks ++ [.online id] }
  | runTask {task : Task} {rest : List Task} (htasks : s.tasks = task :: rest)
      (hidle : s.main = .idle) (hunlocked : task.locks = true → s.pump.locked = false) :
      Moved s .runTask ({ s with tasks := rest }.run task)
  | findNothing (hpump : s.pump = .receiving) (hposts : s.traffic.cluster.posts = []) :
      Moved s .receive { s with pump := .locking }
  | receive {id clone : ℕ} {rest : List (ℕ × ℕ)} (hpump : s.pump = .receiving)
      (hposts : s.traffic.cluster.posts = (id, clone) :: rest) :
      Moved s .receive { s with
        traffic := { s.traffic with
          cluster := { s.traffic.cluster with posts := rest }
          popped := s.traffic.popped ++ [(id, clone)] }
        pump := .decoding id clone }
  | decode {id clone : ℕ} {m : Message} (hpump : s.pump = .decoding id clone)
      (hread : read clone = some m) : Moved s .decode { s with pump := .looking id m }
  | decodeFails {id clone : ℕ} (hpump : s.pump = .decoding id clone) (hread : read clone = none) :
      Moved s .decode { s with pump := .locking }
  | look {id : ℕ} {m : Message} (hpump : s.pump = .looking id m) (hinst : id ∈ s.insts) :
      Moved s .look { s with pump := .posting id m }
  | drop {id : ℕ} {m : Message} (hpump : s.pump = .looking id m) (hinst : id ∉ s.insts) :
      Moved s .look { s with pump := .receiving }
  | post {id : ℕ} {m : Message} (hpump : s.pump = .posting id m) :
      Moved s .post { s with pump := .receiving, tasks := s.tasks ++ [.dispatch id m] }
  | lock (hpump : s.pump = .locking) : Moved s .lock { s with pump := .scanning s.insts [] }
  | check {id : ℕ} {todo : Finset ℕ} {reap : List ℕ} (hpump : s.pump = .scanning todo reap)
      (hid : id ∈ todo) : Moved s (.check id) (s.check id todo reap)
  | unlock {reap : List ℕ} (hpump : s.pump = .scanning ∅ reap) :
      Moved s .unlock { s with pump := .reaping reap, scans := s.scans + 1 }
  | postReap {id : ℕ} {reap : List ℕ} (hpump : s.pump = .reaping (id :: reap)) :
      Moved s .postReap { s with pump := .reaping reap, tasks := s.tasks ++ [.crashExit id] }
  | sleep (hpump : s.pump = .reaping []) : Moved s .sleep { s with pump := .receiving }

theorem step_cases (hreadable : Readable read act)
    (hs : step read s act = some s') : Moved read s act s' := by
  cases act with
  | traffic act =>
    obtain ⟨houtside, hs⟩ := ite_none_right_eq_some.mp hs
    obtain ⟨t, ht, rfl⟩ := map_eq_some_iff.mp hs
    exact .observed (observed houtside hreadable ht) fun hsound => hsound.step ht
  | agentSpawn id =>
    obtain ⟨hidle, hs⟩ := ite_none_right_eq_some.mp hs
    obtain ⟨t, ht, rfl⟩ := map_eq_some_iff.mp hs
    obtain ⟨hnew, ht⟩ := ite_none_right_eq_some.mp ht
    cases ht
    exact .agentSpawn hidle hnew
  | book =>
    simp only [step] at hs
    split at hs
    · rename_i id hmain
      obtain ⟨t, ht, rfl⟩ := map_eq_some_iff.mp hs
      obtain ⟨⟨-, hnew⟩, ht⟩ := ite_none_right_eq_some.mp ht
      cases ht
      exact .book hmain hnew
    · cases hs
  | abandon =>
    simp only [step] at hs
    split at hs
    · rename_i id hmain
      exact Option.some.inj hs ▸ .abandon hmain
    · cases hs
  | register =>
    simp only [step] at hs
    split at hs
    · rename_i id hmain
      obtain ⟨hunlocked, hs⟩ := ite_none_left_eq_some.mp hs
      exact Option.some.inj hs ▸ .register hmain (by simpa using hunlocked)
    · cases hs
  | sendInit clone =>
    simp only [step] at hs
    split at hs
    · rename_i id hmain
      obtain ⟨t, ht, rfl⟩ := map_eq_some_iff.mp hs
      cases ht
      exact .sendInit hmain
    · cases hs
  | sendFails =>
    simp only [step] at hs
    split at hs
    · rename_i id hmain
      obtain ⟨hunlocked, hs⟩ := ite_none_left_eq_some.mp hs
      exact Option.some.inj hs ▸ .sendFails hmain (by simpa using hunlocked)
    · cases hs
  | announce =>
    simp only [step] at hs
    split at hs
    · rename_i id hmain
      exact Option.some.inj hs ▸ .announce hmain
    · cases hs
  | runTask =>
    simp only [step] at hs
    split at hs
    · cases hs
    · rename_i task rest htasks
      obtain ⟨⟨hidle, hlock⟩, hs⟩ := ite_none_right_eq_some.mp hs
      refine Option.some.inj hs ▸ .runTask htasks hidle fun hlocks => ?_
      by_contra hlocked
      exact hlock ⟨hlocks, by simpa using hlocked⟩
  | receive =>
    obtain ⟨hpump, hs⟩ := ite_none_right_eq_some.mp hs
    obtain ⟨t, ht, rfl⟩ := map_eq_some_iff.mp hs
    cases hposts : s.traffic.cluster.posts with
    | nil =>
      simp only [Traffic.step, hposts, Option.some.injEq] at ht
      subst ht
      exact .findNothing hpump hposts
    | cons m rest =>
      simp only [Traffic.step, hposts, Option.some.injEq] at ht
      subst ht
      exact .receive hpump hposts
  | decode =>
    simp only [step] at hs
    split at hs
    · rename_i id clone hpump
      cases hs
      cases hread : read clone with
      | none => exact .decodeFails hpump hread
      | some m => exact .decode hpump hread
    · cases hs
  | look =>
    simp only [step] at hs
    split at hs
    · rename_i id m hpump
      cases hs
      by_cases hinst : id ∈ s.insts
      · rw [if_pos hinst]
        exact .look hpump hinst
      · rw [if_neg hinst]
        exact .drop hpump hinst
    · cases hs
  | post =>
    simp only [step] at hs
    split at hs
    · rename_i id m hpump
      exact Option.some.inj hs ▸ .post hpump
    · cases hs
  | lock =>
    obtain ⟨hpump, hs⟩ := ite_none_right_eq_some.mp hs
    exact Option.some.inj hs ▸ .lock hpump
  | check id =>
    simp only [step] at hs
    split at hs
    · rename_i todo reap hpump
      obtain ⟨hid, hs⟩ := ite_none_right_eq_some.mp hs
      exact Option.some.inj hs ▸ .check hpump hid
    · cases hs
  | unlock =>
    simp only [step] at hs
    split at hs
    · rename_i todo reap hpump
      obtain ⟨rfl, hs⟩ := ite_none_right_eq_some.mp hs
      exact Option.some.inj hs ▸ .unlock hpump
    · cases hs
  | postReap =>
    simp only [step] at hs
    split at hs
    · rename_i id reap hpump
      exact Option.some.inj hs ▸ .postReap hpump
    · cases hs
  | sleep =>
    obtain ⟨hpump, hs⟩ := ite_none_right_eq_some.mp hs
    exact Option.some.inj hs ▸ .sleep hpump

/-! ### What the lives rest on -/

/-- The worker that `opWorkerSpawn` is making. -/
def spawning : Main → Option ℕ
  | .idle => none
  | .booking id | .preparing id | .sending id | .announcing id => some id

def prepared : Main → Option ℕ
  | .preparing id => some id
  | _ => none

variable (read) in
/-- What holds between the tables of the system. -/
structure Sane (s : State) : Prop where
  traffic : s.traffic.Sound
  readable : ∀ m ∈ s.traffic.posted, (read m.2).isSome = true
  decoding : ∀ id clone, s.pump = .decoding id clone → (read clone).isSome = true
  booked : s.insts ⊆ s.traffic.booked
  made : ∀ id, spawning s.main = some id → id ∈ s.traffic.started
  prepared : ∀ id, prepared s.main = some id → id ∈ s.traffic.booked
  scan : ∀ todo reap, s.pump = .scanning todo reap → todo ⊆ s.insts ∧ ∀ id ∈ todo, id ∉ reap

lemma Sane.frame (h : Sane read s) (htraffic : s'.traffic = s.traffic)
    (hmain : s'.main = s.main) (hinsts : s'.insts ⊆ s.insts)
    (hdecoding : ∀ id clone, s'.pump = .decoding id clone → s.pump = .decoding id clone)
    (hscan : ∀ todo reap, s'.pump = .scanning todo reap →
      todo ⊆ s'.insts ∧ ∀ id ∈ todo, id ∉ reap) :
    Sane read s' where
  traffic := by rw [htraffic]; exact h.traffic
  readable := by rw [htraffic]; exact h.readable
  decoding id clone hpump := h.decoding id clone (hdecoding id clone hpump)
  booked := by rw [htraffic]; exact hinsts.trans h.booked
  made := by rw [hmain, htraffic]; exact h.made
  prepared := by rw [hmain, htraffic]; exact h.prepared
  scan := hscan

/-- What a closure does not change. -/
structure Still (s s' : State) : Prop where
  traffic : s'.traffic = s.traffic
  main : s'.main = s.main
  pump : s'.pump = s.pump
  tasks : s'.tasks = s.tasks
  scans : s'.scans = s.scans
  insts : s'.insts ⊆ s.insts

lemma emit_still (s : State) (id : ℕ) (e : Event) : Still s (s.emit id e) := by
  unfold emit
  split <;> exact ⟨rfl, rfl, rfl, rfl, rfl, Finset.Subset.refl _⟩

lemma leave_still (s : State) (id : ℕ) (code : Value) : Still s (s.leave id code) := by
  have hemit := emit_still (s.forget id) id (.exit code)
  have herase : s.insts.erase id ⊆ s.insts := Finset.erase_subset id s.insts
  unfold leave
  split
  · exact ⟨hemit.traffic, hemit.main, hemit.pump, hemit.tasks, hemit.scans,
      hemit.insts.trans herase⟩
  · exact ⟨rfl, rfl, rfl, rfl, rfl, herase⟩

lemma run_still (s : State) (task : Task) : Still s (s.run task) := by
  cases task with
  | online id => exact emit_still s id _
  | crashExit id => exact leave_still s id _
  | dispatch id m =>
    simp only [run, dispatch]
    cases m.verdict with
    | print => exact ⟨rfl, rfl, rfl, rfl, rfl, Finset.Subset.refl _⟩
    | exit code => exact leave_still s id code
    | emit e => exact emit_still s id e

lemma run_insts (h : task.locks = false) : (s.run task).insts = s.insts := by
  have hemit (id : ℕ) (e : Event) : (s.emit id e).insts = s.insts := by
    unfold emit
    split <;> rfl
  cases task with
  | online id => exact hemit id _
  | crashExit id => cases h
  | dispatch id m =>
    simp only [Task.locks, Message.code?] at h
    simp only [run, dispatch]
    cases hverdict : m.verdict with
    | print => rfl
    | exit code => simp [hverdict] at h
    | emit e => exact hemit id e

lemma unlocked_scan (hunlocked : s.pump.locked = false) :
    s.pump ≠ .scanning todo reap := by
  intro hpump
  rw [hpump] at hunlocked
  cases hunlocked

lemma Sane.observed (h : Sane read s) (ho : Observed read s s')
    (hsound : s'.traffic.Sound) : Sane read s' := by
  cases ho with
  | quiet hsame =>
    exact
      { h with
        traffic := hsound
        readable := by rw [hsame.posted]; exact h.readable
        booked := by rw [hsame.booked]; exact h.booked
        made := by rw [hsame.started]; exact h.made
        prepared := by rw [hsame.booked]; exact h.prepared }
  | posts hrunning hinited hread =>
    refine { h with traffic := hsound, readable := fun m hm => ?_ }
    rcases mem_append.mp hm with hold | hnew
    · exact h.readable m hold
    · rw [mem_singleton.mp hnew, hread]
      rfl
  | exits hrunning => exact { h with traffic := hsound }

lemma Sane.moved (h : Sane read s) (hm : Moved read s act s') :
    Sane read s' := by
  cases hm with
  | observed ho hsound => exact h.observed ho (hsound h.traffic)
  | @agentSpawn id hidle hnew =>
    exact
      { h with
        traffic := h.traffic.moves (.agentSpawn id)
        made := fun i hi => by
          cases hi
          exact Finset.mem_insert_self _ _
        prepared := nofun }
  | @book id hmain hnew =>
    have hmade := h.made id (by rw [hmain]; rfl)
    exact
      { h with
        traffic := h.traffic.moves (.spawned hnew)
        booked := h.booked.trans (Finset.subset_insert _ _)
        made := fun i hi => Option.some.inj hi ▸ hmade
        prepared := fun i hi => by
          cases hi
          exact Finset.mem_insert_self _ _ }
  | abandon hmain | announce hmain => exact { h with made := nofun, prepared := nofun }
  | @register id hmain hunlocked =>
    have hmade := h.made id (by rw [hmain]; rfl)
    have hbooked := h.prepared id (by rw [hmain]; rfl)
    exact
      { h with
        booked := Finset.insert_subset hbooked h.booked
        made := fun i hi => Option.some.inj hi ▸ hmade
        prepared := nofun
        scan := fun todo reap hpump => absurd hpump (unlocked_scan hunlocked) }
  | @sendInit id clone hmain =>
    have hmade := h.made id (by rw [hmain]; rfl)
    exact
      { h with
        traffic := h.traffic.moves (.send id clone)
        made := fun i hi => Option.some.inj hi ▸ hmade
        prepared := nofun }
  | @sendFails id hmain hunlocked =>
    exact
      { h with
        booked := (Finset.erase_subset _ _).trans h.booked
        made := nofun
        prepared := nofun
        scan := fun todo reap hpump => absurd hpump (unlocked_scan hunlocked) }
  | @runTask task rest htasks hidle hunlocked =>
    have hstill := run_still { s with tasks := rest } task
    refine h.frame hstill.traffic hstill.main hstill.insts ?_ ?_
    · rw [hstill.pump]
      exact fun _ _ => id
    · rw [hstill.pump]
      intro todo reap hpump
      have hlocks : task.locks = false := by
        by_contra hlocks
        exact unlocked_scan (hunlocked (by simpa using hlocks)) hpump
      rw [run_insts hlocks]
      exact h.scan todo reap hpump
  | @receive id clone rest hpump hposts =>
    have hsound := h.traffic.moves (.popPost hposts)
    exact
      { h with
        traffic := hsound
        decoding := fun i c hdecoding => by
          obtain ⟨rfl, rfl⟩ := Pump.decoding.inj hdecoding
          refine h.readable (id, clone) (h.traffic.posts.sublist.subset ?_)
          rw [hposts]
          simp
        scan := nofun }
  | lock hpump =>
    refine h.frame rfl rfl (Finset.Subset.refl _) nofun fun todo reap hscan => ?_
    obtain ⟨rfl, rfl⟩ := Pump.scanning.inj hscan
    exact ⟨Finset.Subset.refl _, by simp⟩
  | @check id todo reap hpump hid =>
    obtain ⟨htodo, hreap⟩ := h.scan todo reap hpump
    have herase : todo.erase id ⊆ s.insts := (Finset.erase_subset _ _).trans htodo
    have hold : ∀ i ∈ todo.erase id, i ∉ reap := fun i hi => hreap i (Finset.mem_of_mem_erase hi)
    simp only [State.check]
    split_ifs
    all_goals
      refine h.frame rfl rfl (Finset.Subset.refl _) nofun fun todo' reap' hscan => ?_
      obtain ⟨rfl, rfl⟩ := Pump.scanning.inj hscan
      refine ⟨herase, ?_⟩
    · exact hold
    · intro i hi hmem
      rcases mem_append.mp hmem with hmem | hmem
      · exact hold i hi hmem
      · exact Finset.ne_of_mem_erase hi (mem_singleton.mp hmem)
    · exact hold
  | findNothing | decode | decodeFails | look | drop | post | unlock | postReap | sleep =>
    exact h.frame rfl rfl (Finset.Subset.refl _) nofun nofun

/-! ### Every step is a step of each life -/

lemma moves_of_eq {l l' l'' : Life} (hm : Life.Moves l l'') (heq : l' = l'') : Life.Moves l l' :=
  heq ▸ hm

lemma life_observed (ho : Observed read s s') (id : ℕ) :
    Life.Moves (s.life read id) (s'.life read id) := by
  cases ho with
  | quiet hsame =>
    refine moves_of_eq .stay ?_
    simp only [life, stage, phase, held, said, hsame.started, hsame.ended, hsame.posted,
      hsame.posts]
  | @posts i clone m hrunning hinited hread =>
    by_cases hid : i = id
    · subst hid
      refine moves_of_eq (.post m (by simpa using hrunning.2) (by simpa using hinited)) ?_
      simp [Cluster.handlePost, hread]
    · refine moves_of_eq .stay ?_
      simp [Cluster.handlePost, addressed_other hid]
  | @exits i hrunning =>
    by_cases hid : i = id
    · subst hid
      refine moves_of_eq (.ends (by simpa using hrunning.2)) ?_
      have hstamp : s.stamp = s.scans + (s.phase i).locked.toNat := by rw [phase_locked]; rfl
      simp [Cluster.handleExit, hstamp]
    · refine moves_of_eq .stay ?_
      simp [Cluster.handleExit, Ne.symm hid]

lemma stage_of_ne (h : spawning s.main ≠ some id) :
    s.stage id = if id ∈ s.traffic.started then .settled else .unborn := by
  unfold stage
  cases hmain : s.main with
  | idle => rfl
  | booking i | preparing i | sending i | announcing i =>
    rw [hmain] at h
    exact if_neg fun hi => h (by rw [hi]; rfl)

lemma errand_locks {e : Errand} (h : task.errand id = some e) :
    e.locks = task.locks := by
  cases task with
  | online i | dispatch i m | crashExit i =>
    obtain ⟨-, he⟩ := ite_none_right_eq_some.mp h
    cases he
    rfl

lemma Sane.isAlive (h : Sane read s) (hinst : id ∈ s.insts) :
    s.traffic.cluster.isAlive id = !decide (id ∈ s.traffic.ended) := by
  simp [Cluster.isAlive, h.traffic.bookkept.alive, h.booked hinst]

lemma life_check_self (h : Sane read s)
    (hpump : s.pump = .scanning todo reap) (hid : id ∈ todo) :
    (s.check id todo reap).life read id = (s.life read id).check := by
  obtain ⟨htodo, hreap⟩ := h.scan todo reap hpump
  have halive := h.isAlive (htodo hid)
  have hlisted := hreap id hid
  by_cases hended : id ∈ s.traffic.ended
  · by_cases htwice : 2 ≤ s.deadSeen id + 1 ∧ id ∉ s.reaping
    · have hlife : (s.life read id).ended = true ∧
          (2 ≤ (s.life read id).deadSeen + 1 ∧ (s.life read id).reaping = false) := by
        simpa [hended] using htwice
      rw [Life.check, if_pos hlife.1, if_pos hlife.2]
      simp only [check, halive, hended, htwice]
      simp [hpump, hended]
    · have hlife : (s.life read id).ended = true ∧
          ¬(2 ≤ (s.life read id).deadSeen + 1 ∧ (s.life read id).reaping = false) := by
        simpa [hended] using htwice
      rw [Life.check, if_pos hlife.1, if_neg hlife.2]
      simp only [check, halive, hended, htwice]
      simp [hpump, hended, hlisted]
  · have hlife : ¬(s.life read id).ended = true := by simpa using hended
    rw [Life.check, if_neg hlife]
    simp [check, halive, hpump, hended, hlisted]

lemma life_check_of_ne
    (hpump : s.pump = .scanning todo reap) (hne : i ≠ id) :
    (s.check i todo reap).life read id = s.life read id := by
  simp only [check]
  split_ifs <;> simp [hpump, hne.symm]

lemma life_moved (h : Sane read s) (hm : Moved read s act s') (id : ℕ) :
    Life.Moves (s.life read id) (s'.life read id) := by
  cases hm with
  | observed ho hsound => exact life_observed ho id
  | @agentSpawn i hidle hnew =>
    by_cases hid : i = id
    · subst hid
      refine moves_of_eq (.made ?_) ?_
      · simp [hidle, hnew]
      · simp
    · refine moves_of_eq .stay ?_
      simp [hidle, hid, Ne.symm hid]
  | @book i hmain hnew =>
    refine moves_of_eq .stay ?_
    have hposts : (s.traffic.cluster.spawned i).posts = s.traffic.cluster.posts := by
      unfold Cluster.spawned
      split <;> rfl
    simp [hmain, hposts]
  | @abandon i hmain =>
    have hstarted := h.made i (by rw [hmain]; rfl)
    by_cases hid : i = id
    · subst hid
      refine moves_of_eq (.abandon (by simp [hmain])) ?_
      simp [hstarted]
    · refine moves_of_eq .stay ?_
      simp [hmain, hid, Ne.symm hid]
  | @register i hmain hunlocked =>
    by_cases hid : i = id
    · subst hid
      refine moves_of_eq (.register (by simp [hmain]) ?_) ?_
      · rw [← hunlocked]
        exact phase_locked
      · simp
    · refine moves_of_eq .stay ?_
      simp [hmain, hid, Ne.symm hid]
  | @sendInit i clone hmain =>
    by_cases hid : i = id
    · subst hid
      refine moves_of_eq (.sendInit (by simp [hmain])) ?_
      simp [Cluster.send]
    · refine moves_of_eq .stay ?_
      simp [hmain, hid, Ne.symm hid, Cluster.send]
  | @sendFails i hmain hunlocked =>
    have hstarted := h.made i (by rw [hmain]; rfl)
    by_cases hid : i = id
    · subst hid
      refine moves_of_eq (.sendFails (by simp [hmain]) ?_) ?_
      · rw [← hunlocked]
        exact phase_locked
      · simp [hstarted]
    · refine moves_of_eq .stay ?_
      simp [hmain, hid, Ne.symm hid]
  | @announce i hmain =>
    have hstarted := h.made i (by rw [hmain]; rfl)
    by_cases hid : i = id
    · subst hid
      refine moves_of_eq (.announce (by simp [hmain])) ?_
      simp [hstarted, Task.errand]
    · refine moves_of_eq .stay ?_
      simp [hmain, hid, Task.errand]
  | @runTask task rest htasks hidle hunlocked =>
    cases herrand : task.errand id with
    | none =>
      refine moves_of_eq .stay ((life_run_none herrand).trans ?_)
      simp [htasks, herrand]
    | some e =>
      have herrands : (s.life read id).errands = e :: rest.filterMap (Task.errand id) := by
        simp [htasks, herrand]
      refine moves_of_eq (.run herrands ?_ ?_) ?_
      · change (s.stage id).opening = false
        rw [stage_of_ne (by simp [hidle, spawning])]
        split <;> rfl
      · intro hlocks
        rw [errand_locks herrand] at hlocks
        exact phase_locked.trans (hunlocked hlocks)
      · rw [life_run_self herrand]
        simp
  | findNothing hpump hposts =>
    refine moves_of_eq (.empty ?_ ?_ ?_) ?_
    · simp [hpump]
    · simp [hpump]
    · simp [hposts, addressed]
    · simp [hpump]
  | @receive i clone rest hpump hposts =>
    by_cases hid : i = id
    · subst hid
      have hreadable :=
        h.readable (i, clone) (h.traffic.posts.sublist.subset (by rw [hposts]; simp))
      obtain ⟨m, hread⟩ := isSome_iff_exists.mp hreadable
      have hwaiting : (s.life read i).waiting = m :: (addressed i rest).filterMap read := by
        simp [hposts, addressed, hread]
      refine moves_of_eq (.receive ?_ ?_ hwaiting) ?_
      · simp [hpump]
      · simp [hpump]
      · simp [hpump, hread]
    · refine moves_of_eq .stay ?_
      simp [hpump, hid, hposts, addressed]
  | decode hpump hread =>
    refine moves_of_eq .stay ?_
    simp [hpump, hread]
  | decodeFails hpump hread =>
    have hsome := h.decoding _ _ hpump
    rw [hread] at hsome
    cases hsome
  | look hpump hinst =>
    refine moves_of_eq .stay ?_
    simp [hpump]
  | @drop i m hpump hinst =>
    by_cases hid : i = id
    · subst hid
      refine moves_of_eq (.drop (by simpa using hinst)) ?_
      simp [hpump]
    · refine moves_of_eq .stay ?_
      simp [hpump, hid]
  | @post i m hpump =>
    by_cases hid : i = id
    · subst hid
      refine moves_of_eq (.enqueue (m := m) (by simp [hpump])) ?_
      simp [hpump, Task.errand]
    · refine moves_of_eq .stay ?_
      simp [hpump, hid, Task.errand]
  | lock hpump =>
    refine moves_of_eq (.lock (by simp [hpump])) ?_
    simp [hpump]
  | @check i todo reap hpump hmem =>
    by_cases hid : i = id
    · subst hid
      exact moves_of_eq (.check (by simp [hpump, hmem])) (life_check_self h hpump hmem)
    · exact moves_of_eq .stay (life_check_of_ne hpump hid)
  | @unlock reap hpump =>
    have hphase : (s.life read id).phase = .checked (decide (id ∈ reap)) := by
      simp [hpump]
    refine moves_of_eq (.unlock hphase) ?_
    simp [hpump]
  | @postReap i reap hpump =>
    by_cases hid : i = id
    · subst hid
      refine moves_of_eq (.postReap (by simp [hpump]) (decide (i ∈ reap))) ?_
      simp [hpump, Task.errand]
    · refine moves_of_eq .stay ?_
      simp [hpump, hid, Ne.symm hid, Task.errand]
  | sleep hpump =>
    refine moves_of_eq (.sleep (by simp [hpump])) ?_
    simp [hpump]

/-! ### Runs -/

variable (read) in
/-- All that a run keeps. -/
structure Inv (s : State) : Prop where
  sane : Sane read s
  lives : ∀ id, (s.life read id).Inv

lemma inv_start : Inv read start where
  sane :=
    { traffic := Traffic.sound_start
      readable := by simp [start, Traffic.start]
      decoding := nofun
      booked := by simp [start]
      made := nofun
      prepared := nofun
      scan := nofun }
  lives id :=
    { fresh := fun _ => ⟨rfl, rfl, rfl, rfl, rfl, rfl, rfl, rfl, rfl, rfl, by simp [start],
        rfl⟩
      counted := ⟨nofun, rfl, Nat.zero_le _, rfl, nofun, fun h => absurd rfl h, by
        simp [start]⟩
      delivered := ⟨nofun, fun h => absurd rfl h, by simp [start], nofun, nofun, nofun,
        nofun, by simp [start]⟩
      scanned := Life.Scanned.gone rfl }

lemma Inv.step (h : Inv read s) (hreadable : Readable read act)
    (hs : step read s act = some s') : Inv read s' where
  sane := h.sane.moved (step_cases hreadable hs)
  lives id := (h.lives id).moves (life_moved h.sane (step_cases hreadable hs) id)

end State

open State

variable {read} {s : State} {id : ℕ}

lemma mem_eventOf {events : List (ℕ × Event)} {e : Event} :
    e ∈ events.filterMap (eventOf id) ↔ (id, e) ∈ events := by
  simp only [mem_filterMap, eventOf, ite_none_right_eq_some, Option.some.injEq]
  constructor
  · rintro ⟨⟨i, e'⟩, hmem, rfl, rfl⟩
    exact hmem
  · exact fun hmem => ⟨(id, e), hmem, rfl, rfl⟩

lemma exits_eq (s : State) (id : ℕ) : s.exits id = codes (s.events.filterMap (eventOf id)) := by
  rw [State.exits, codes, filterMap_filterMap]
  refine filterMap_congr fun p _ => ?_
  obtain ⟨i, e⟩ := p
  by_cases hi : i = id
  · cases e <;> simp [eventOf, hi]
  · cases e <;> simp [eventOf, hi]

variable (read) in
/-- At most one `exit`, as the last event, with one release and the code of the first exit message.
-/
structure Reported (s : State) (id : ℕ) : Prop where
  once : (s.exits id).length ≤ 1
  last : ∀ before code after, s.events = before ++ (id, .exit code) :: after →
    ∀ e, (id, e) ∉ after
  released : s.released.count id = (s.exits id).length
  added : s.released.count id ≤ s.added.count id ∧ s.added.count id ≤ 1
  code : ∀ code ∈ s.exits id, code = (firstExit (s.said read id)).getD crashCode

lemma State.Inv.reported (h : Inv read s) (id : ℕ) : Reported read s id := by
  have hlife := h.lives id
  have hcounted := hlife.counted
  have hbalance := hcounted.balance
  have honce := hcounted.once
  have hreleased := hcounted.released
  refine ⟨?_, ?_, ?_, ?_, ?_⟩
  · rw [exits_eq]
    exact le_trans (Nat.le_add_right _ _) (hbalance.le.trans honce)
  · intro before code after hevents e he
    have hsplit : (s.life read id).events
        = before.filterMap (eventOf id) ++ .exit code :: after.filterMap (eventOf id) := by
      simp [life, hevents, eventOf]
    have hnil := hcounted.last _ _ _ hsplit
    have hmem := mem_eventOf.mpr he
    rw [hnil] at hmem
    cases hmem
  · rw [exits_eq]
    exact hreleased
  · have hadded : (s.life read id).added = s.added.count id := rfl
    have hcount : (s.life read id).released = s.released.count id := rfl
    have hopening : (s.life read id).stage.opening.toNat ≤ (s.life read id).inst.toNat :=
      Bool.toNat_le_toNat fun ho => hcounted.opening ho
    rw [hadded] at hbalance honce
    rw [hcount] at hreleased
    omega
  · intro code hcode
    rw [exits_eq] at hcode
    rcases hlife.delivered.code code (mem_codes.mp hcode) with hfirst | ⟨hnone, rfl, -⟩
    · have hfirst' : firstExit (s.said read id) = some code := hfirst
      rw [hfirst']
      rfl
    · have hnone' : firstExit (s.said read id) = none := hnone
      rw [hnone']
      rfl

/-! ### Fair runs -/

variable (read) in
/-- An endless run in which the pump scans again and again and the loop runs its closures. -/
structure FairRun (f : ℕ → State) (acts : ℕ → Act) : Prop where
  starts : f 0 = start
  steps : ∀ n, step read (f n) (acts n) = some (f (n + 1))
  scans : ∀ n, ∃ m, n ≤ m ∧ acts m = .unlock
  runs : ∀ n, (f n).tasks ≠ [] → ∃ m, n ≤ m ∧ acts m = .runTask

lemma State.Moved.tasks {act : Act} {s' : State} (hm : Moved read s act s')
    (hact : act ≠ .runTask) :
    s.tasks <+: s'.tasks := by
  cases hm with
  | observed ho =>
    cases ho with
    | quiet | posts | exits => exact prefix_rfl
  | runTask => exact absurd rfl hact
  | announce | post | postReap => exact prefix_append _ _
  | check =>
    simp only [State.check]
    split_ifs <;> exact prefix_rfl
  | _ => exact prefix_rfl

lemma State.Moved.scans_le {act : Act} {s' : State} (hm : Moved read s act s') :
    s.scans ≤ s'.scans := by
  cases hm with
  | observed ho =>
    cases ho with
    | quiet | posts | exits => exact le_rfl
  | @runTask task rest => exact (run_still { s with tasks := rest } task).scans.ge
  | check =>
    simp only [State.check]
    split_ifs <;> exact le_rfl
  | unlock => exact Nat.le_succ _
  | _ => exact le_rfl

namespace FairRun

variable {f : ℕ → State} {acts : ℕ → Act}

section

variable (h : FairRun read f acts) (hreadable : ∀ n, Readable read (acts n))
include h hreadable

lemma moved (n : ℕ) : Moved read (f n) (acts n) (f (n + 1)) := step_cases (hreadable n) (h.steps n)

lemma inv (n : ℕ) : Inv read (f n) := by
  induction n with
  | zero =>
    rw [h.starts]
    exact inv_start
  | succ n ih => exact ih.step (hreadable n) (h.steps n)

lemma served : Queue.Served (fun n => (f n).tasks) fun n => acts n = .runTask where
  grows n hn := (h.moved hreadable n).tasks hn
  takes n hn := by
    have hm := h.moved hreadable n
    rw [hn] at hm
    generalize f (n + 1) = s' at hm
    cases hm with
    | @runTask task rest htasks =>
      exact ⟨task, rest, htasks, (run_still { f n with tasks := rest } task).tasks ▸ prefix_rfl⟩
  fair := h.runs

lemma exists_scans (n N : ℕ) : ∃ m, n ≤ m ∧ N ≤ (f m).scans := by
  induction N with
  | zero => exact ⟨n, le_rfl, Nat.zero_le _⟩
  | succ N ih =>
    obtain ⟨m, hle, hscans⟩ := ih
    obtain ⟨k, hk, hunlock⟩ := h.scans m
    have hmono : (f m).scans ≤ (f k).scans :=
      Nat.le_induction le_rfl (fun i _ hi => hi.trans (h.moved hreadable i).scans_le) k hk
    have hm := h.moved hreadable k
    rw [hunlock] at hm
    refine ⟨k + 1, by omega, ?_⟩
    generalize f (k + 1) = s' at hm
    cases hm with
    | unlock => exact Nat.succ_le_succ (hscans.trans hmono)

variable {n : ℕ}

lemma past (hstage : ((f n).life read id).stage = .settled)
    (hended : ((f n).life read id).ended = true) {k : ℕ} (hk : n ≤ k) :
    Life.Past ((f n).life read id) ((f k).life read id) := by
  induction k, hk using Nat.le_induction with
  | base => exact .refl _
  | succ k hk ih =>
    have hmoves := life_moved (h.inv hreadable k).sane (h.moved hreadable k) id
    exact ih.trans (hmoves.past (ih.stage.trans hstage) (ih.ended.trans hended))

lemma exists_gone (hadded : 0 < ((f n).life read id).added)
    (hended : ((f n).life read id).ended = true) :
    ∃ m, n ≤ m ∧ ((f m).life read id).inst = false := by
  obtain ⟨hstage, -⟩ := ((h.inv hreadable n).lives id).settled hadded
  obtain ⟨m, hm, hscans⟩ := h.exists_scans hreadable n (((f n).life read id).dueFrom + 3)
  have hpast := h.past hreadable hstage hended hm
  by_cases hinst : ((f m).life read id).inst = true
  · -- the closure of the reaper is on the loop, and comes to its head
    have hcrash := ((h.inv hreadable m).lives id).crash_posted hinst (hpast.ended.trans hended)
      (by rw [hpast.dueFrom]; exact hscans)
    have htask : .crashExit id ∈ (f m).tasks := by
      obtain ⟨task, htask, herrand⟩ := mem_filterMap.mp hcrash
      cases task with
      | online | dispatch => simp [Task.errand] at herrand
      | crashExit i =>
        obtain ⟨rfl, -⟩ := ite_none_right_eq_some.mp herrand
        exact htask
    obtain ⟨k, hk, hruns, hhead⟩ := (h.served hreadable).served htask
    have hmoved := h.moved hreadable k
    rw [hruns] at hmoved
    refine ⟨k + 1, by omega, ?_⟩
    generalize f (k + 1) = s' at hmoved
    cases hmoved with
    | @runTask task rest htasks =>
      simp only [htasks, head?_cons, Option.some.injEq] at hhead
      subst hhead
      have herrand : (Task.crashExit id).errand id = some .crash := if_pos rfl
      rw [life_run_self herrand]
      exact Life.leave_inst _ _
  · exact ⟨m, hm, Bool.eq_false_iff.mpr hinst⟩

/-- Every worker whose agent has ended gets its `exit`. -/
theorem reported (hadded : id ∈ (f n).added) (hended : id ∈ (f n).traffic.ended) :
    ∃ m, ∀ k, m ≤ k → ((f k).exits id).length = 1 ∧ (f k).released.count id = 1 := by
  have hpending : 0 < ((f n).life read id).added := count_pos_iff.mpr hadded
  have hdead : ((f n).life read id).ended = true := decide_eq_true hended
  obtain ⟨hstage, -⟩ := ((h.inv hreadable n).lives id).settled hpending
  obtain ⟨m, hm, hgone⟩ := h.exists_gone hreadable hpending hdead
  have hpast := h.past hreadable hstage hdead hm
  refine ⟨m, fun k hk => ?_⟩
  have hlater := h.past hreadable (hpast.stage.trans hstage) (hpast.ended.trans hdead) hk
  have hreported := ((h.inv hreadable k).lives id).reported
    (by rw [hlater.added, hpast.added]; exact hpending) (hlater.inst hgone)
  rw [exits_eq]
  exact hreported

end

end FairRun

/-- In every run in which all posts can be read, each worker has at most one `exit`, as its last
event, with the code of its first exit message or the crash code. In a fair run every worker whose
agent ends gets it. -/
theorem exit_reported_once (read : ℕ → Option Message) :
    (∀ acts s, Machine.Obeys (step read) (fun _ act => Readable read act) start acts →
      Machine.run (step read) start acts = some s → ∀ id, Reported read s id) ∧
    (∀ f acts, FairRun read f acts → (∀ n, Readable read (acts n)) →
      ∀ n id, id ∈ (f n).added → id ∈ (f n).traffic.ended →
        ∃ m, ∀ k, m ≤ k → ((f k).exits id).length = 1 ∧ (f k).released.count id = 1) := by
  refine ⟨fun acts s hobeys hrun id => ?_, fun f acts hfair hreadable n id hadded hended => ?_⟩
  · have hinv : Inv read s :=
      Machine.run_invariant (fun s act s' h hread hs => h.step hread hs) inv_start hobeys hrun
    exact hinv.reported id
  · exact hfair.reported hreadable hadded hended

/-! ### Idle for ever -/

/-- No post, no worker and no closure, and the pump at the top of its loop. -/
structure Quiet (s : State) : Prop where
  pump : s.pump = .receiving
  posts : s.traffic.cluster.posts = []
  insts : s.insts = ∅
  tasks : s.tasks = []

def idleAct (n : ℕ) : Act :=
  match n % 4 with
  | 0 => .receive
  | 1 => .lock
  | 2 => .unlock
  | _ => .sleep

def idleState (s : State) (n : ℕ) : State :=
  match n % 4 with
  | 0 => { s with scans := s.scans + n / 4 }
  | 1 => { s with scans := s.scans + n / 4, pump := .locking }
  | 2 => { s with scans := s.scans + n / 4, pump := .scanning ∅ [] }
  | _ => { s with scans := s.scans + n / 4 + 1, pump := .reaping [] }

lemma Quiet.idle_step (h : Quiet s) (n : ℕ) :
    step read (idleState s n) (idleAct n) = some (idleState s (n + 1)) := by
  obtain ⟨q, r, hr, rfl⟩ : ∃ q r, r < 4 ∧ n = 4 * q + r :=
    ⟨n / 4, n % 4, Nat.mod_lt _ (by omega), by omega⟩
  have hmod (i : ℕ) (hi : i < 4) : (4 * q + i) % 4 = i := by omega
  have hdiv (i : ℕ) (hi : i < 4) : (4 * q + i) / 4 = q := by omega
  interval_cases r
  · simp [idleState, idleAct, hmod, hdiv, step, h.pump, withTraffic, Traffic.step,
      h.posts, received]
  · have hnext : (4 * q + 1 + 1) % 4 = 2 ∧ (4 * q + 1 + 1) / 4 = q := by omega
    simp [idleState, idleAct, hmod, hdiv, hnext, step, h.insts]
  · have hnext : (4 * q + 2 + 1) % 4 = 3 ∧ (4 * q + 2 + 1) / 4 = q := by omega
    simp [idleState, idleAct, hmod, hdiv, hnext, step]
  · have hnext : (4 * q + 3 + 1) % 4 = 0 ∧ (4 * q + 3 + 1) / 4 = q + 1 := by omega
    simp [idleState, idleAct, hmod, hdiv, hnext, step, h.pump, Nat.add_assoc]

lemma idleState_tasks (s : State) (n : ℕ) : (idleState s n).tasks = s.tasks := by
  unfold idleState
  split <;> rfl

lemma Quiet.exists_fairRun (h : Quiet s) (hreadable : ∀ act, Readable read act) {acts : List Act}
    (hrun : Machine.run (step read) start acts = some s) :
    ∃ f acts', FairRun read f acts' ∧ f acts.length = s := by
  obtain ⟨f, ks, hf, hsteps, hlater⟩ :=
    Machine.exists_endless hrun (by simp [idleState] : idleState s 0 = s) h.idle_step
  refine ⟨f, ks, ⟨hf, hsteps, fun n => ?_, fun n htasks => ?_⟩, ?_⟩
  · refine ⟨acts.length + (4 * n + 2), by omega, ?_⟩
    rw [(hlater _).2]
    simp [idleAct]
  · -- without a service the closures would still be there when all is quiet
    by_contra hnone
    have hgrows : ∀ m, n ≤ m → (f n).tasks <+: (f m).tasks := fun m hm =>
      Nat.le_induction prefix_rfl (fun k hk ih => ih.trans
        ((step_cases (hreadable _) (hsteps k)).tasks fun hact => hnone ⟨k, hk, hact⟩)) m hm
    have hend := hgrows (acts.length + n) (by omega)
    rw [(hlater n).1, idleState_tasks, h.tasks] at hend
    exact htasks (prefix_nil.mp hend)
  · rw [← Nat.add_zero acts.length, (hlater 0).1]
    simp [idleState]

/-! ### An exit that is reported, and two that are not -/

def chatter : ℕ → Option Message := fun _ => some { msg := some (.bool true) }

def reaped : List Act :=
  [.agentSpawn 1, .book, .register, .sendInit 0, .announce, .traffic (.handleExit 1),
    .receive, .lock, .check 1, .unlock, .sleep, .receive, .lock, .check 1, .unlock, .postReap,
    .sleep, .runTask, .runTask]

theorem crashed_worker_reported :
    (∃ s, Machine.run (step chatter) start reaped = some s ∧ s.exits 1 = [crashCode] ∧
      Reported chatter s 1) ∧
    ∃ f acts, FairRun chatter f acts ∧ (∃ n, 1 ∈ (f n).added ∧ 1 ∈ (f n).traffic.ended) ∧
      ∃ m, ∀ k, m ≤ k → ((f k).exits 1).length = 1 ∧ (f k).released.count 1 = 1 := by
  have hreadable (act : Act) : Readable chatter act := by
    unfold Readable
    split <;> trivial
  obtain ⟨s, hrun, hexits, hquiet, hadded, hended⟩ :
      ∃ s, Machine.run (step chatter) start reaped = some s ∧ s.exits 1 = [crashCode] ∧ Quiet s ∧
        1 ∈ s.added ∧ 1 ∈ s.traffic.ended :=
    ⟨_, rfl, by decide +kernel, ⟨rfl, rfl, by decide, rfl⟩, by decide, by decide⟩
  obtain ⟨f, acts, hfair, hs⟩ := hquiet.exists_fairRun hreadable hrun
  obtain ⟨hsafe, hlive⟩ := exit_reported_once chatter
  have hobeys : Machine.Obeys (step chatter) (fun _ act => Readable chatter act) start reaped :=
    Machine.obeys_of_forall (fun _ => hreadable) _ _
  refine ⟨⟨s, hrun, hexits, hsafe reaped s hobeys hrun 1⟩, f, acts, hfair,
    ⟨reaped.length, by rwa [hs], by rwa [hs]⟩, ?_⟩
  exact hlive f acts hfair (fun n => hreadable _) reaped.length 1 (by rwa [hs]) (by rwa [hs])

def farewell : ℕ → Option Message := fun clone =>
  if clone = 6 then some { exit := some (.number (.finite (str "0"))) } else none

/-- The pump cannot read the first post, and has seen the agent dead twice before it reads the
second. -/
def lostFarewell : List Act :=
  [.agentSpawn 1, .book, .register, .sendInit 0, .announce, .receive, .lock,
    .traffic (.handlePost 1 5), .traffic (.handlePost 1 6), .traffic (.handleExit 1),
    .check 1, .unlock, .sleep, .receive, .decode, .lock, .check 1, .unlock, .postReap, .sleep,
    .receive, .decode, .look, .post, .runTask, .runTask, .runTask]

def crashed : List Act :=
  [.agentSpawn 1, .book, .register, .sendInit 0, .announce, .agentSpawn 2, .book, .register,
    .sendInit 0, .announce, .runTask, .runTask, .traffic (.handleExit 1)]

def chats : List Act := [.traffic (.handlePost 2 0), .receive, .decode, .look, .post, .runTask]

/-- The first agent has crashed and is not reported; the second can post. -/
structure Chatting (s : State) : Prop where
  pump : s.pump = .receiving
  posts : s.traffic.cluster.posts = []
  tasks : s.tasks = []
  main : s.main = .idle
  inited : 2 ∈ s.inited
  running : s.traffic.Running 2
  inst : 2 ∈ s.insts
  added : 1 ∈ s.added
  ended : 1 ∈ s.traffic.ended
  exits : s.exits 1 = []

lemma Chatting.chats (h : Chatting s) :
    ∃ s', Machine.run (step chatter) s chats = some s' ∧ Chatting s' := by
  let t : Traffic := { s.traffic with
    cluster := { s.traffic.cluster with posts := [] }
    posted := s.traffic.posted ++ [(2, 0)]
    popped := s.traffic.popped ++ [(2, 0)] }
  refine ⟨{ s with traffic := t }.emit 2 (.message true), ?_, ?_⟩
  · simp [Worker.chats, Machine.run_cons, step, State.Outside, h.inited, Traffic.step, h.running,
      State.observe, Cluster.handlePost, h.pump, h.posts, withTraffic, received, chatter,
      h.inst, h.tasks, h.main, Task.locks, Message.code?, Message.verdict, given, Value.isUndefined,
      Value.isObject, Value.truth, State.run, State.dispatch, Pump.locked, t]
  · unfold State.emit
    split
    · exact { h with posts := rfl, running := h.running, ended := h.ended, exits := h.exits }
    · refine { h with posts := rfl, running := h.running, ended := h.ended, exits := ?_ }
      have hexits := h.exits
      simp only [State.exits] at hexits ⊢
      simp [hexits]

/-- The farewell is posted, and the crash code is reported; and a crash is not reported while
another worker posts. -/
theorem farewell_lost_and_crash_unreported :
    (∃ s, Machine.run (step farewell) start lostFarewell = some s ∧
      firstExit (s.said farewell 1) = some (.number (.finite (str "0"))) ∧
        s.exits 1 = [crashCode]) ∧
    ∀ n, ∃ s, Machine.run (step chatter) start (crashed ++ (List.replicate n chats).flatten) =
      some s ∧
      1 ∈ s.added ∧ 1 ∈ s.traffic.ended ∧ s.exits 1 = [] := by
  refine ⟨⟨_, rfl, by decide +kernel, by decide +kernel⟩, fun n => ?_⟩
  suffices hchatting : ∃ s, Machine.run (step chatter) start
      (crashed ++ (List.replicate n chats).flatten) = some s ∧ Chatting s by
    obtain ⟨s, hrun, hs⟩ := hchatting
    exact ⟨s, hrun, hs.added, hs.ended, hs.exits⟩
  induction n with
  | zero =>
    refine ⟨_, rfl, ⟨rfl, rfl, rfl, rfl, by decide, by decide, by decide, by decide, by decide, ?_⟩⟩
    decide +kernel
  | succ n ih =>
    obtain ⟨s, hrun, hs⟩ := ih
    obtain ⟨s', hchats, hs'⟩ := hs.chats
    refine ⟨s', ?_, hs'⟩
    rw [replicate_succ', flatten_concat, ← append_assoc, Machine.run_append, hrun]
    exact hchats

end GoSpidermonkey.Nodejs.Worker
