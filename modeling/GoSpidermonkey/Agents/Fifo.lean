import GoSpidermonkey.Agents.Cluster

/-!
# The order of messages and the count of live agents

The messages of an agent cluster, from any number of goroutines: `Spawn`, `Send`, `Broadcast`,
`Receive` and `close` may be called from each of them, and every agent calls its handlers. A step is
one critical section of the mutex. An agent makes its calls between `AgentSpawn`, which gives it an
id of its own, and its `handleExit`; the bookkeeping of `Spawn` comes at any time after
`AgentSpawn`.

The history keeps what was sent, handed out, posted and popped, each in the order of the critical
sections, and what `close` found in the queue of posts.
-/

namespace GoSpidermonkey.Agents

open List

@[simp] lemma addressed_append (id : ℕ) (l l' : List (ℕ × ℕ)) :
    addressed id (l ++ l') = addressed id l ++ addressed id l' := by
  simp [addressed]

@[simp] lemma addressed_self (id clone : ℕ) : addressed id [(id, clone)] = [clone] := by
  simp [addressed]

lemma addressed_other {id other : ℕ} (hne : other ≠ id) (clone : ℕ) :
    addressed id [(other, clone)] = [] := by
  simp [addressed, hne]

namespace Cluster

variable (a : Cluster)

/-- `Alive`. -/
def aliveCount : ℕ := a.alive.card

def isAlive (id : ℕ) : Bool := id ∈ a.alive

/-- What `pop` takes is the first message of the agent, and all others stay. -/
lemma pop_spec {id clone : ℕ} {a' : Cluster} (hpop : a.pop id = some (clone, a')) :
    a.inboxOf id = clone :: a'.inboxOf id ∧ (∀ other ≠ id, a'.inboxOf other = a.inboxOf other) ∧
      a' = { a with inboxes := a'.inboxes } := by
  obtain ⟨before, after, heq, hnone, rfl⟩ := a.pop_split hpop
  have hsplit : a.inboxes = before ++ [(id, clone)] ++ after := by simpa using heq
  refine ⟨?_, fun other hne => ?_, rfl⟩
  · simp only [inboxOf, hsplit, addressed_append, addressed_self, hnone]
    rfl
  · simp only [inboxOf, hsplit, addressed_append, addressed_other hne.symm, append_nil]

end Cluster

/-! ### Every interleaving -/

/-- The cluster with the history of its messages and of its agents. -/
structure Traffic where
  cluster : Cluster
  /-- The agents that `AgentSpawn` has started. -/
  started : Finset ℕ
  /-- The agents for which `Spawn` has done its bookkeeping. -/
  booked : Finset ℕ
  /-- The agents whose `handleExit` has run. -/
  ended : Finset ℕ
  /-- Receiver and clone of every `Send`. -/
  sent : List (ℕ × ℕ)
  handed : List (ℕ × ℕ)
  /-- Sender and clone of every `handlePost`. -/
  posted : List (ℕ × ℕ)
  /-- Sender and clone of every post that `Receive` has popped. -/
  popped : List (ℕ × ℕ)
  /-- The posts `close` has thrown away. -/
  discarded : List (ℕ × ℕ)

namespace Traffic

inductive Act
  | agentSpawn (id : ℕ)
  | spawned (id : ℕ)
  | send (agentID clone : ℕ)
  | broadcast (clone : ℕ)
  /-- The critical section of `Receive`. -/
  | popPost
  | close
  | handleReceive (id : ℕ)
  | handleInbox (id : ℕ)
  | handleTryInbox (id : ℕ)
  | handlePost (id clone : ℕ)
  | handleExit (id : ℕ)

def start : Traffic where
  cluster := ⟨false, 0, [], [], [], ∅, ∅⟩
  started := ∅
  booked := ∅
  ended := ∅
  sent := []
  handed := []
  posted := []
  popped := []
  discarded := []

variable (t : Traffic)

/-- The agent's thread runs. -/
def Running (id : ℕ) : Prop := id ∈ t.started ∧ id ∉ t.ended

instance (id : ℕ) : Decidable (t.Running id) := inferInstanceAs (Decidable (_ ∧ _))

def answered (id : ℕ) : Reply × Cluster → Traffic
  | (.clone handle, a) => { t with cluster := a, handed := t.handed ++ [(id, handle)] }
  | (_, a) => { t with cluster := a }

def step (t : Traffic) : Act → Option Traffic
  | .agentSpawn id =>
    if id ∉ t.started then some { t with started := insert id t.started } else none
  | .spawned id =>
    if id ∈ t.started ∧ id ∉ t.booked then
      some { t with cluster := t.cluster.spawned id, booked := insert id t.booked }
    else none
  | .send agentID clone => some { t with
      cluster := t.cluster.send agentID clone
      sent := t.sent ++ [(agentID, clone)] }
  | .broadcast clone => some { t with cluster := t.cluster.latch clone }
  | .popPost =>
    match t.cluster.posts with
    | [] => some t
    | m :: rest => some { t with
        cluster := { t.cluster with posts := rest }
        popped := t.popped ++ [m] }
  | .close => some { t with
      cluster := t.cluster.emptied
      discarded := t.discarded ++ t.cluster.posts }
  | .handleReceive id =>
    if t.Running id then t.cluster.handleReceive.map fun _ => t else none
  | .handleInbox id =>
    if t.Running id then (t.cluster.handleInbox id).map (t.answered id) else none
  | .handleTryInbox id =>
    if t.Running id then some (t.answered id (t.cluster.handleTryInbox id)) else none
  | .handlePost id clone =>
    if t.Running id then
      some { t with
        cluster := t.cluster.handlePost id clone
        posted := t.posted ++ [(id, clone)] }
    else none
  | .handleExit id =>
    if t.Running id then
      some { t with cluster := t.cluster.handleExit id, ended := insert id t.ended }
    else none

inductive Moves (t : Traffic) : Traffic → Prop
  | stay : Moves t t
  | agentSpawn (id : ℕ) : Moves t { t with started := insert id t.started }
  | spawned {id : ℕ} (hnew : id ∉ t.booked) :
      Moves t { t with cluster := t.cluster.spawned id, booked := insert id t.booked }
  | send (agentID clone : ℕ) : Moves t { t with
      cluster := t.cluster.send agentID clone
      sent := t.sent ++ [(agentID, clone)] }
  | broadcast (clone : ℕ) : Moves t { t with cluster := t.cluster.latch clone }
  | popPost {m : ℕ × ℕ} {rest : List (ℕ × ℕ)} (hposts : t.cluster.posts = m :: rest) :
      Moves t { t with cluster := { t.cluster with posts := rest }, popped := t.popped ++ [m] }
  | close : Moves t { t with
      cluster := t.cluster.emptied
      discarded := t.discarded ++ t.cluster.posts }
  | message {id clone : ℕ} {a : Cluster} (hrunning : t.Running id)
      (hopen : t.cluster.closed = false) (hpop : t.cluster.pop id = some (clone, a)) :
      Moves t { t with cluster := a, handed := t.handed ++ [(id, clone)] }
  | handlePost (id clone : ℕ) : Moves t { t with
      cluster := t.cluster.handlePost id clone
      posted := t.posted ++ [(id, clone)] }
  | handleExit {id : ℕ} (hrunning : t.Running id) :
      Moves t { t with cluster := t.cluster.handleExit id, ended := insert id t.ended }

variable {t t' : Traffic}

lemma answered_moves {id : ℕ} {r : Reply × Cluster} (hrunning : t.Running id)
    (hr : Handed t.cluster id r) : Moves t (t.answered id r) := by
  cases hr with
  | shut | nothing => exact .stay
  | popped hopen hpop => exact .message hrunning hopen hpop

theorem step_cases {act : Act} (hs : t.step act = some t') : Moves t t' := by
  cases act with
  | agentSpawn id =>
    obtain ⟨-, hs⟩ := Option.ite_none_right_eq_some.mp hs
    exact Option.some.inj hs ▸ .agentSpawn id
  | spawned id =>
    obtain ⟨⟨-, hnew⟩, hs⟩ := Option.ite_none_right_eq_some.mp hs
    exact Option.some.inj hs ▸ .spawned hnew
  | send agentID clone => exact Option.some.inj hs ▸ .send agentID clone
  | broadcast clone => exact Option.some.inj hs ▸ .broadcast clone
  | popPost =>
    simp only [step] at hs
    split at hs
    · exact Option.some.inj hs ▸ .stay
    · rename_i hposts
      exact Option.some.inj hs ▸ .popPost hposts
  | close => exact Option.some.inj hs ▸ .close
  | handleReceive id =>
    obtain ⟨-, hs⟩ := Option.ite_none_right_eq_some.mp hs
    obtain ⟨-, -, rfl⟩ := Option.map_eq_some_iff.mp hs
    exact .stay
  | handleInbox id =>
    obtain ⟨hrunning, hs⟩ := Option.ite_none_right_eq_some.mp hs
    obtain ⟨r, hr, rfl⟩ := Option.map_eq_some_iff.mp hs
    exact answered_moves hrunning (handleInbox_handed hr)
  | handleTryInbox id =>
    obtain ⟨hrunning, hs⟩ := Option.ite_none_right_eq_some.mp hs
    exact Option.some.inj hs ▸ answered_moves hrunning (handleTryInbox_handed _ id)
  | handlePost id clone =>
    obtain ⟨-, hs⟩ := Option.ite_none_right_eq_some.mp hs
    exact Option.some.inj hs ▸ .handlePost id clone
  | handleExit id =>
    obtain ⟨hrunning, hs⟩ := Option.ite_none_right_eq_some.mp hs
    exact Option.some.inj hs ▸ .handleExit hrunning

/-! ### The inboxes -/

/-- The agent still gets its messages: it has not exited and the cluster is open. -/
def Served (t : Traffic) (id : ℕ) : Prop := id ∉ t.ended ∧ t.cluster.closed = false

/-- What was handed to an agent and what waits for it is what was sent to it. -/
structure InOrder (t : Traffic) (id : ℕ) : Prop where
  handed : addressed id t.handed <+: addressed id t.sent
  waiting : t.Served id → addressed id t.sent = addressed id t.handed ++ t.cluster.inboxOf id

lemma InOrder.frame {id : ℕ} (h : t.InOrder id)
    (hsent : addressed id t'.sent = addressed id t.sent)
    (hhanded : addressed id t'.handed = addressed id t.handed)
    (hserved : t'.Served id → t.Served id ∧ t'.cluster.inboxOf id = t.cluster.inboxOf id) :
    t'.InOrder id where
  handed := by rw [hsent, hhanded]; exact h.handed
  waiting hserved' := by
    obtain ⟨hs, hinbox⟩ := hserved hserved'
    rw [hsent, hhanded, hinbox]
    exact h.waiting hs

lemma InOrder.send {id : ℕ} (h : t.InOrder id) (agentID clone : ℕ) :
    InOrder { t with
      cluster := t.cluster.send agentID clone
      sent := t.sent ++ [(agentID, clone)] } id where
  handed := by
    simp only [addressed_append]
    exact h.handed.trans (prefix_append _ _)
  waiting hserved := by
    have hwaiting := h.waiting hserved
    simp only [addressed_append, hwaiting, Cluster.inboxOf, Cluster.send, append_assoc]

lemma InOrder.message {id dest clone : ℕ} {a : Cluster} (h : t.InOrder id)
    (hrunning : t.Running dest) (hopen : t.cluster.closed = false)
    (hpop : t.cluster.pop dest = some (clone, a)) :
    InOrder { t with cluster := a, handed := t.handed ++ [(dest, clone)] } id := by
  obtain ⟨hfirst, hothers, hrest⟩ := t.cluster.pop_spec hpop
  by_cases hdest : id = dest
  · subst hdest
    -- the message is the first of those that wait
    have hwaiting := h.waiting ⟨hrunning.2, hopen⟩
    rw [hfirst] at hwaiting
    have heq : addressed id t.sent
        = addressed id (t.handed ++ [(id, clone)]) ++ a.inboxOf id := by
      rw [hwaiting, addressed_append, addressed_self, append_assoc]
      rfl
    exact ⟨⟨_, heq.symm⟩, fun _ => heq⟩
  · refine h.frame rfl ?_ fun hserved => ⟨⟨hserved.1, hopen⟩, hothers id hdest⟩
    simp only [addressed_append, addressed_other (Ne.symm hdest), append_nil]

lemma inboxOf_handleExit {id dest : ℕ} (hne : id ≠ dest) (a : Cluster) :
    (a.handleExit dest).inboxOf id = a.inboxOf id := by
  simp only [Cluster.inboxOf, Cluster.handleExit, addressed, filter_filter]
  congr 1
  refine filter_congr fun m _ => ?_
  by_cases hm : m.1 = id
  · simp [hm, hne]
  · simp [hm]

lemma InOrder.moves {id : ℕ} (h : t.InOrder id) (hm : Moves t t') : t'.InOrder id := by
  cases hm with
  | stay => exact h
  | agentSpawn dest | broadcast clone | popPost hposts | handlePost dest clone =>
    exact ⟨h.handed, h.waiting⟩
  | @spawned dest hnew =>
    refine h.frame rfl rfl fun hserved => ?_
    unfold Served Cluster.spawned at *
    split at hserved <;> exact ⟨hserved, by split <;> rfl⟩
  | send dest clone => exact h.send dest clone
  | close =>
    refine h.frame rfl rfl fun hserved => ?_
    exact absurd hserved.2 (by simp [Cluster.emptied])
  | message hrunning hopen hpop => exact h.message hrunning hopen hpop
  | @handleExit dest hrunning =>
    refine h.frame rfl rfl fun hserved => ?_
    have hended : id ∉ insert dest t.ended := hserved.1
    obtain ⟨hne, hrest⟩ := not_or.mp (Finset.mem_insert.not.mp hended)
    exact ⟨⟨hrest, hserved.2⟩, inboxOf_handleExit hne t.cluster⟩

/-! ### The posts -/

/-- What `Receive` has popped, what waits and what `close` has thrown away is what was posted. -/
structure PostsInOrder (t : Traffic) : Prop where
  opened : t.cluster.closed = false → t.posted = t.popped ++ t.cluster.posts
  sublist : (t.popped ++ t.cluster.posts).Sublist t.posted
  perm : t.posted.Perm (t.popped ++ t.cluster.posts ++ t.discarded)

lemma PostsInOrder.frame (h : t.PostsInOrder) (hposted : t'.posted = t.posted)
    (hqueue : t'.popped ++ t'.cluster.posts = t.popped ++ t.cluster.posts)
    (hdiscarded : t'.discarded = t.discarded) (hclosed : t'.cluster.closed = t.cluster.closed) :
    t'.PostsInOrder where
  opened hopen := by rw [hposted, hqueue]; exact h.opened (hclosed ▸ hopen)
  sublist := by rw [hposted, hqueue]; exact h.sublist
  perm := by rw [hposted, hqueue, hdiscarded]; exact h.perm

lemma PostsInOrder.close (h : t.PostsInOrder) : PostsInOrder { t with
    cluster := t.cluster.emptied
    discarded := t.discarded ++ t.cluster.posts } where
  opened hopen := by simp [Cluster.emptied] at hopen
  sublist := by
    simp only [Cluster.emptied, append_nil]
    exact (sublist_append_left _ _).trans h.sublist
  perm := by
    simp only [Cluster.emptied, append_nil]
    refine h.perm.trans ?_
    rw [append_assoc]
    exact perm_append_comm.append_left _

lemma PostsInOrder.handlePost (h : t.PostsInOrder) (id clone : ℕ) : PostsInOrder { t with
    cluster := t.cluster.handlePost id clone
    posted := t.posted ++ [(id, clone)] } where
  opened hopen := by
    simp only [Cluster.handlePost, ← append_assoc]
    rw [h.opened hopen]
  sublist := by
    simp only [Cluster.handlePost, ← append_assoc]
    exact h.sublist.append (List.Sublist.refl _)
  perm := by
    simp only [Cluster.handlePost, ← append_assoc]
    refine (h.perm.append_right _).trans ?_
    simp only [append_assoc]
    exact ((perm_append_comm.append_left _).append_left _)

lemma PostsInOrder.moves (h : t.PostsInOrder) (hm : Moves t t') : t'.PostsInOrder := by
  cases hm with
  | stay => exact h
  | agentSpawn id | send dest clone | broadcast clone | handleExit hrunning =>
    exact h.frame rfl rfl rfl rfl
  | @spawned id hnew =>
    unfold Cluster.spawned
    split <;> exact h.frame rfl rfl rfl rfl
  | popPost hposts => exact h.frame rfl (by simp [hposts]) rfl rfl
  | close => exact h.close
  | message hrunning hopen hpop =>
    obtain ⟨-, -, hrest⟩ := t.cluster.pop_spec hpop
    refine h.frame rfl ?_ rfl ?_
    · rw [hrest]
    · rw [hrest]
  | handlePost id clone => exact h.handlePost id clone

/-! ### Which agents live -/

/-- `alive` has the agents with only their bookkeeping done, `exited` those with only their exit. -/
structure Bookkept (t : Traffic) : Prop where
  alive : t.cluster.alive = t.booked \ t.ended
  exited : t.cluster.exited = t.ended \ t.booked

lemma Bookkept.spawned (h : t.Bookkept) {id : ℕ} (hnew : id ∉ t.booked) :
    Bookkept { t with cluster := t.cluster.spawned id, booked := insert id t.booked } := by
  have hiff : id ∈ t.cluster.exited ↔ id ∈ t.ended := by simp [h.exited, hnew]
  unfold Cluster.spawned
  split
  · rename_i hexited
    have hended := hiff.mp hexited
    refine ⟨?_, ?_⟩
    · change t.cluster.alive = _
      rw [h.alive, Finset.insert_sdiff_of_mem _ hended]
    · change t.cluster.exited.erase id = _
      rw [h.exited, Finset.sdiff_insert]
  · rename_i hexited
    have hended := hiff.not.mp hexited
    refine ⟨?_, ?_⟩
    · change insert id t.cluster.alive = _
      rw [h.alive, Finset.insert_sdiff_of_notMem _ hended]
    · change t.cluster.exited = _
      rw [h.exited, Finset.sdiff_insert, Finset.erase_eq_of_notMem (by simp [hended])]

lemma Bookkept.handleExit (h : t.Bookkept) {id : ℕ} (hrunning : t.Running id) :
    Bookkept { t with cluster := t.cluster.handleExit id, ended := insert id t.ended } := by
  have hiff : id ∈ t.cluster.alive ↔ id ∈ t.booked := by simp [h.alive, hrunning.2]
  refine ⟨?_, ?_⟩
  · change t.cluster.alive.erase id = _
    rw [h.alive, Finset.sdiff_insert]
  · change (if id ∈ t.cluster.alive then t.cluster.exited else insert id t.cluster.exited) = _
    split
    · rename_i halive
      rw [h.exited, Finset.insert_sdiff_of_mem _ (hiff.mp halive)]
    · rename_i halive
      rw [h.exited, Finset.insert_sdiff_of_notMem _ (hiff.not.mp halive)]

lemma Bookkept.moves (h : t.Bookkept) (hm : Moves t t') : t'.Bookkept := by
  cases hm with
  | stay => exact h
  | agentSpawn id | send dest clone | broadcast clone | popPost hposts | close
  | handlePost id clone => exact ⟨h.alive, h.exited⟩
  | spawned hnew => exact h.spawned hnew
  | message hrunning hopen hpop =>
    obtain ⟨-, -, hrest⟩ := t.cluster.pop_spec hpop
    rw [hrest]
    exact ⟨h.alive, h.exited⟩
  | handleExit hrunning => exact h.handleExit hrunning

/-! ### Whole runs -/

/-- All that every interleaving keeps. -/
structure Sound (t : Traffic) : Prop where
  inOrder : ∀ id, t.InOrder id
  posts : t.PostsInOrder
  bookkept : t.Bookkept

lemma Sound.moves (h : t.Sound) (hm : Moves t t') : t'.Sound where
  inOrder id := (h.inOrder id).moves hm
  posts := h.posts.moves hm
  bookkept := h.bookkept.moves hm

lemma Sound.step {act : Act} (h : t.Sound) (hs : t.step act = some t') : t'.Sound :=
  h.moves (step_cases hs)

lemma sound_start : start.Sound where
  inOrder _ := ⟨List.prefix_rfl, fun _ => rfl⟩
  posts := ⟨fun _ => rfl, nil_sublist _, List.Perm.refl _⟩
  bookkept := ⟨rfl, rfl⟩

lemma Sound.run {acts : List Act} (hrun : Machine.run Traffic.step start acts = some t) :
    t.Sound :=
  Machine.run_invariant_all (fun _ _ _ h hs => h.step hs) sound_start hrun

/-- Messages and posts arrive in order until the cluster closes or the agent exits, and `Alive`
counts the agents spawned and not exited. -/
theorem messages_in_order {acts : List Act}
    (hrun : Machine.run Traffic.step start acts = some t) :
    (∀ id, addressed id t.handed <+: addressed id t.sent ∧
      (id ∉ t.ended → t.cluster.closed = false →
        addressed id t.sent = addressed id t.handed ++ t.cluster.inboxOf id)) ∧
    (t.cluster.closed = false → t.posted = t.popped ++ t.cluster.posts) ∧
    (t.popped ++ t.cluster.posts).Sublist t.posted ∧
    t.posted.Perm (t.popped ++ t.cluster.posts ++ t.discarded) ∧
    (∀ id, id ∈ t.booked → id ∈ t.ended → id ∉ t.cluster.alive ∧ id ∉ t.cluster.exited) ∧
    (∀ id, t.cluster.isAlive id = true ↔ id ∈ t.booked ∧ id ∉ t.ended) ∧
    t.cluster.aliveCount = (t.booked \ t.ended).card := by
  have h := Sound.run hrun
  refine ⟨fun id => ⟨(h.inOrder id).handed, fun hended hopen => ?_⟩, h.posts.opened,
    h.posts.sublist, h.posts.perm, fun id hbooked hended => ?_, fun id => ?_, ?_⟩
  · exact (h.inOrder id).waiting ⟨hended, hopen⟩
  · simp [h.bookkept.alive, h.bookkept.exited, hbooked, hended]
  · simp [Cluster.isAlive, h.bookkept.alive]
  · rw [Cluster.aliveCount, h.bookkept.alive]

/-- Two agents, the second of which exits before the bookkeeping of its `Spawn`. -/
def twoAgents : List Act :=
  [.agentSpawn 1, .spawned 1, .agentSpawn 2, .send 1 10, .send 2 11, .send 1 12, .handleInbox 1,
    .handlePost 2 13, .handleExit 2, .handlePost 1 14, .spawned 2, .popPost]

theorem twoAgents_in_order : ∃ t, Machine.run Traffic.step start twoAgents = some t ∧
    addressed 1 t.handed = [10] ∧ addressed 1 t.handed <+: addressed 1 t.sent ∧
    t.popped = [(2, 13)] ∧ t.posted = t.popped ++ t.cluster.posts ∧
    2 ∉ t.cluster.alive ∧ 2 ∉ t.cluster.exited ∧ t.cluster.aliveCount = 1 := by
  obtain ⟨t, hrun, hhanded, hpopped, hopen, hbooked, hended, hcount⟩ :
      ∃ t, Machine.run Traffic.step start twoAgents = some t ∧ addressed 1 t.handed = [10] ∧
        t.popped = [(2, 13)] ∧ t.cluster.closed = false ∧ 2 ∈ t.booked ∧ 2 ∈ t.ended ∧
        (t.booked \ t.ended).card = 1 :=
    ⟨_, rfl, by decide, by decide, by decide, by decide, by decide, by decide⟩
  obtain ⟨hinboxes, hposts, -, -, hreconciled, -, halive⟩ := messages_in_order hrun
  exact ⟨t, hrun, hhanded, (hinboxes 1).1, hpopped, hposts hopen,
    (hreconciled 2 hbooked hended).1, (hreconciled 2 hbooked hended).2, halive.trans hcount⟩

/-- `close` throws away a post, and `Receive` pops one that an agent posts after it. -/
theorem posts_not_prefix_after_close : ∃ t,
    Machine.run Traffic.step start
      [.agentSpawn 1, .spawned 1, .handlePost 1 10, .close, .handlePost 1 11, .popPost] = some t ∧
    t.posted = [(1, 10), (1, 11)] ∧ t.popped = [(1, 11)] ∧ ¬ t.popped <+: t.posted :=
  ⟨_, rfl, rfl, rfl, by decide⟩

end Traffic

end GoSpidermonkey.Agents
