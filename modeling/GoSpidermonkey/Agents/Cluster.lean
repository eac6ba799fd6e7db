import GoSpidermonkey.Go.Bytes
import GoSpidermonkey.Lib.Machine

/-!
# Clone handles of an agent cluster

`Agents` (`agents.go`) passes values between the host and its agents as clone handles: `CloneWrite`
makes one, and somebody must pass it to `CloneFree` or take it over. The main goroutine runs
`Spawn`, `Send`, `Broadcast`, `Receive` and `close`; the goroutines of the agents run the handlers.
Every critical section of the mutex is one step, so a run is an interleaving, and an agent that
waits on the condition variable is one whose step is not enabled.

The inboxes are kept in one list, each message with its receiver, in the order of their arrival. The
history records which agent was handed which handle, which handles were freed, and which were
dropped: a handle that nothing refers to any more is lost.
-/

namespace GoSpidermonkey.Agents

open List Machine

/-! ### The cluster -/

/-- The fields of `Agents` under its mutex. -/
structure Cluster where
  closed : Bool
  broadcast : ℕ
  inboxes : List (ℕ × ℕ)
  posts : List (ℕ × ℕ)
  orphaned : List ℕ
  alive : Finset ℕ
  exited : Finset ℕ

/-- The messages with this receiver. -/
def addressed (id : ℕ) (messages : List (ℕ × ℕ)) : List ℕ :=
  (messages.filter fun m => m.1 = id).map Prod.snd

inductive Reply
  | clone (handle : ℕ)
  | empty
  | error (text : Bytes)

namespace Cluster

variable (a : Cluster)

def inboxOf (id : ℕ) : List ℕ := addressed id a.inboxes

def pop (id : ℕ) : Option (ℕ × Cluster) :=
  (a.inboxes.find? fun m => m.1 = id).map fun m =>
    (m.2, { a with inboxes := a.inboxes.eraseP fun m => m.1 = id })

/-- `Send`, once the clone is written. -/
def send (agentID clone : ℕ) : Cluster := { a with inboxes := a.inboxes ++ [(agentID, clone)] }

/-- `Broadcast`, once the clone is written. -/
def latch (clone : ℕ) : Cluster := { a with broadcast := clone }

/-- The bookkeeping of `Spawn`. -/
def spawned (id : ℕ) : Cluster :=
  if id ∈ a.exited then { a with exited := a.exited.erase id }
  else { a with alive := insert id a.alive }

def latched (broadcast : ℕ) : List ℕ := if broadcast = 0 then [] else [broadcast]

/-- Every clone the cluster owns, as `close` collects them. -/
def held : List ℕ :=
  a.orphaned ++ latched a.broadcast ++ a.inboxes.map Prod.snd ++ a.posts.map Prod.snd

/-- The cluster after the critical section of `close`. -/
def emptied : Cluster :=
  { a with closed := true, orphaned := [], broadcast := 0, inboxes := [], posts := [] }

/-- `handleReceive`; without a broadcast the agent waits. -/
def handleReceive : Option Reply :=
  if a.closed then some (.error (str "receive: interpreter shutting down"))
  else if a.broadcast = 0 then none
  else some (.clone a.broadcast)

/-- `handleInbox`; without a message the agent waits. -/
def handleInbox (id : ℕ) : Option (Reply × Cluster) :=
  if a.closed then some (.error (str "inbox: interpreter shutting down"), a)
  else (a.pop id).map fun r => (.clone r.1, r.2)

def handleTryInbox (id : ℕ) : Reply × Cluster :=
  if a.closed then (.error (str "inbox: interpreter shutting down"), a)
  else
    match a.pop id with
    | none => (.empty, a)
    | some (clone, a') => (.clone clone, a')

def handlePost (id clone : ℕ) : Cluster := { a with posts := a.posts ++ [(id, clone)] }

/-- `handleExit`: the messages of the agent are kept for `close` to free. -/
def handleExit (id : ℕ) : Cluster :=
  { a with
    orphaned := a.orphaned ++ a.inboxOf id
    inboxes := a.inboxes.filter fun m => m.1 ≠ id
    alive := a.alive.erase id
    exited := if id ∈ a.alive then a.exited else insert id a.exited }

end Cluster

/-! ### The host and its agents -/

/-- Where the main goroutine is between two critical sections. -/
inductive Main
  | idle
  /-- `CloneWrite` has returned to `Send`. -/
  | sending (agentID clone : ℕ)
  /-- `CloneWrite` has returned to `Broadcast`. -/
  | broadcasting (clone : ℕ)
  /-- `AgentSpawn` has returned. -/
  | spawning (id : ℕ)
  /-- `Receive` has popped a post. -/
  | reading (clone : ℕ)
  /-- The loop of `close` over the clones it collected. -/
  | freeing (rest : List ℕ)
deriving DecidableEq

def Main.held : Main → List ℕ
  | .sending _ clone | .broadcasting clone | .reading clone => [clone]
  | .freeing rest => rest
  | .idle | .spawning _ => []

def Main.broadcasts : Main → Bool
  | .broadcasting _ => true
  | _ => false

structure System where
  cluster : Cluster
  main : Main
  running : Finset ℕ
  nextAgent : ℕ
  nextClone : ℕ
  owned : List (ℕ × ℕ)
  /-- The handles passed to `CloneFree`. -/
  freed : List ℕ
  lost : List ℕ
  late : List ℕ

/-- The cluster `Agents` makes. -/
def System.start : System where
  cluster := ⟨false, 0, [], [], [], ∅, ∅⟩
  main := .idle
  running := ∅
  nextAgent := 0
  nextClone := 0
  owned := []
  freed := []
  lost := []
  late := []

inductive Act
  /-- `CloneWrite` returns to a `Send` to the agent, or to a `Broadcast`. -/
  | cloneWrite (agentID : Option ℕ)
  /-- The critical section of `Send` or `Broadcast`. -/
  | deliver
  | agentSpawn
  | spawned
  /-- The critical section of `Receive`. -/
  | popPost
  /-- `CloneRead` and, if it succeeds, `CloneFree`. -/
  | readPost (ok : Bool)
  /-- The critical section of `close`. -/
  | close
  | freeNext
  | closeReturn
  | receive (id : ℕ)
  | inbox (id : ℕ)
  | tryInbox (id : ℕ)
  | post (id : ℕ)
  | exit (id : ℕ)

namespace System

variable (s : System)

def handOver (id : ℕ) (r : Reply × Cluster) : System :=
  match r with
  | (.clone h, a) => { s with
      cluster := a
      owned := s.owned ++ [(id, h)]
      late := if h ∈ s.freed then h :: s.late else s.late }
  | (_, a) => { s with cluster := a }

def shown : Reply → System
  | .clone h => { s with late := if h ∈ s.freed then h :: s.late else s.late }
  | _ => s

def step (s : System) : Act → Option System
  | .cloneWrite agentID =>
    if s.main = .idle then
      let clone := s.nextClone + 1
      some { s with
        nextClone := clone
        main := match agentID with
          | some id => .sending id clone
          | none => .broadcasting clone }
    else none
  | .deliver =>
    match s.main with
    | .sending agentID clone => some { s with
        cluster := s.cluster.send agentID clone
        main := .idle }
    | .broadcasting clone => some { s with
        cluster := s.cluster.latch clone
        main := .idle
        lost := Cluster.latched s.cluster.broadcast ++ s.lost }
    | _ => none
  | .agentSpawn =>
    if s.main = .idle then
      let id := s.nextAgent + 1
      some { s with nextAgent := id, running := insert id s.running, main := .spawning id }
    else none
  | .spawned =>
    match s.main with
    | .spawning id => some { s with cluster := s.cluster.spawned id, main := .idle }
    | _ => none
  | .popPost =>
    if s.main = .idle then
      match s.cluster.posts with
      | [] => some s
      | m :: rest => some { s with
          cluster := { s.cluster with posts := rest }
          main := .reading m.2 }
    else none
  | .readPost ok =>
    match s.main with
    | .reading clone => some (if ok then { s with main := .idle, freed := clone :: s.freed }
        else { s with main := .idle, lost := clone :: s.lost })
    | _ => none
  | .close =>
    if s.main = .idle then
      some { s with cluster := s.cluster.emptied, main := .freeing s.cluster.held }
    else none
  | .freeNext =>
    match s.main with
    | .freeing (clone :: rest) => some { s with main := .freeing rest, freed := clone :: s.freed }
    | _ => none
  | .closeReturn => if s.main = .freeing [] then some { s with main := .idle } else none
  | .receive id => if id ∈ s.running then s.cluster.handleReceive.map s.shown else none
  | .inbox id =>
    if id ∈ s.running then (s.cluster.handleInbox id).map (s.handOver id) else none
  | .tryInbox id =>
    if id ∈ s.running then some (s.handOver id (s.cluster.handleTryInbox id)) else none
  | .post id =>
    if id ∈ s.running then
      let clone := s.nextClone + 1
      some { s with nextClone := clone, cluster := s.cluster.handlePost id clone }
    else none
  | .exit id =>
    if id ∈ s.running then
      some { s with cluster := s.cluster.handleExit id, running := s.running.erase id }
    else none

end System

/-! ### Where a handle is -/

namespace Cluster

variable (a : Cluster)

@[simp] lemma held_send (agentID clone : ℕ) :
    ((a.send agentID clone).held : Multiset ℕ) = a.held + {clone} := by
  simp only [send, held, map_append, map_cons, map_nil,
    ← Multiset.coe_add, Multiset.coe_singleton]
  abel

@[simp] lemma held_handlePost (id clone : ℕ) :
    ((a.handlePost id clone).held : Multiset ℕ) = a.held + {clone} := by
  simp only [handlePost, held, map_append, map_cons, map_nil,
    ← Multiset.coe_add, Multiset.coe_singleton]
  abel

lemma held_latch {clone : ℕ} (hclone : clone ≠ 0) :
    ((a.latch clone).held : Multiset ℕ) + latched a.broadcast = a.held + {clone} := by
  simp only [latch, held, latched, hclone, if_false, ← Multiset.coe_add, Multiset.coe_singleton]
  abel

@[simp] lemma held_spawned (id : ℕ) : (a.spawned id).held = a.held := by
  unfold spawned
  split <;> rfl

@[simp] lemma held_emptied : a.emptied.held = [] := rfl

/-- `find?` and `eraseP` split the list at the same message. -/
lemma pop_split {id clone : ℕ} {a' : Cluster} (hpop : a.pop id = some (clone, a')) :
    ∃ before after, a.inboxes = before ++ (id, clone) :: after ∧ addressed id before = [] ∧
      a' = { a with inboxes := before ++ after } := by
  simp only [pop, Option.map_eq_some_iff, Prod.mk.injEq] at hpop
  obtain ⟨⟨dest, clone⟩, hm, rfl, rfl⟩ := hpop
  obtain ⟨hdest, before, after, heq, hbefore⟩ := find?_eq_some_iff_append.mp hm
  obtain rfl : dest = id := by simpa using hdest
  refine ⟨before, after, heq, by simpa [addressed, filter_eq_nil_iff] using hbefore, ?_⟩
  rw [heq, eraseP_append_right _ (by simpa using hbefore), eraseP_cons_of_pos (by simp)]

lemma held_pop {id clone : ℕ} {a' : Cluster} (hpop : a.pop id = some (clone, a')) :
    (a.held : Multiset ℕ) = a'.held + {clone} := by
  obtain ⟨before, after, heq, -, rfl⟩ := a.pop_split hpop
  simp only [held, heq, map_append, map_cons, ← Multiset.coe_add, ← Multiset.cons_coe,
    ← Multiset.singleton_add]
  abel

@[simp] lemma held_handleExit (id : ℕ) :
    ((a.handleExit id).held : Multiset ℕ) = a.held := by
  have hsplit : ((a.inboxOf id : List ℕ) : Multiset ℕ)
      + ((a.inboxes.filter fun m => m.1 ≠ id).map Prod.snd : List ℕ)
      = (a.inboxes.map Prod.snd : List ℕ) := by
    simp only [inboxOf, addressed, ← Multiset.map_coe, ← Multiset.filter_coe, ← Multiset.map_add]
    rw [Multiset.filter_add_not (fun m : ℕ × ℕ => m.1 = id)]
  simp only [held, handleExit, ← Multiset.coe_add, ← hsplit]
  abel

end Cluster

namespace System

def custody (s : System) : Multiset ℕ :=
  s.cluster.held + s.main.held + (s.owned.map Prod.snd : List ℕ) + s.freed + s.lost

def made (s : System) : Multiset ℕ := (Multiset.range s.nextClone).map Nat.succ

/-- Every handle is in exactly one place, and none was handed out after it was freed. -/
structure Kept (s : System) : Prop where
  custody_eq : s.custody = s.made
  late_eq : s.late = []

variable {s s' : System}

lemma Kept.nodup (h : s.Kept) : s.custody.Nodup := by
  rw [h.custody_eq]
  exact (Multiset.nodup_range _).map Nat.succ_injective

lemma Kept.not_mem_freed (h : s.Kept) {clone : ℕ} (hheld : clone ∈ s.cluster.held) :
    clone ∉ s.freed := by
  intro hfreed
  have hcount : s.custody.count clone ≤ 1 := Multiset.nodup_iff_count_le_one.mp h.nodup clone
  have h1 : 0 < (s.cluster.held : Multiset ℕ).count clone := Multiset.count_pos.mpr hheld
  have h2 : 0 < (s.freed : Multiset ℕ).count clone := Multiset.count_pos.mpr hfreed
  simp only [custody, Multiset.count_add] at hcount
  omega

lemma Kept.move (h : s.Kept) (hcustody : s'.custody = s.custody)
    (hnext : s'.nextClone = s.nextClone) (hlate : s'.late = s.late) : s'.Kept where
  custody_eq := by rw [hcustody, h.custody_eq, made, made, hnext]
  late_eq := by rw [hlate, h.late_eq]

lemma Kept.make (h : s.Kept) (hcustody : s'.custody = s.custody + {s.nextClone + 1})
    (hnext : s'.nextClone = s.nextClone + 1) (hlate : s'.late = s.late) : s'.Kept where
  custody_eq := by
    rw [hcustody, h.custody_eq, made, made, hnext, Multiset.range_succ, Multiset.map_cons,
      ← Multiset.singleton_add, add_comm]
  late_eq := by rw [hlate, h.late_eq]

end System

/-- The answer to an inbox receive: a message of the inbox, or none. -/
inductive Handed (a : Cluster) (id : ℕ) : Reply × Cluster → Prop
  | shut (text : Bytes) : Handed a id (.error text, a)
  | nothing : Handed a id (.empty, a)
  | popped {clone : ℕ} {a' : Cluster} (hopen : a.closed = false)
      (hpop : a.pop id = some (clone, a')) : Handed a id (.clone clone, a')

lemma handleInbox_handed {a : Cluster} {id : ℕ} {r : Reply × Cluster}
    (hr : a.handleInbox id = some r) : Handed a id r := by
  unfold Cluster.handleInbox at hr
  split at hr
  · cases hr
    exact .shut _
  · rename_i hopen
    obtain ⟨⟨clone, a'⟩, hpop, rfl⟩ := Option.map_eq_some_iff.mp hr
    exact .popped (by simpa using hopen) hpop

lemma handleTryInbox_handed (a : Cluster) (id : ℕ) : Handed a id (a.handleTryInbox id) := by
  unfold Cluster.handleTryInbox
  split
  · exact .shut _
  · rename_i hopen
    split
    · exact .nothing
    · rename_i hpop
      exact .popped (by simpa using hopen) hpop

namespace System

variable {s s' : System}

lemma Kept.handOver (h : s.Kept) {id : ℕ} {r : Reply × Cluster} (hr : Handed s.cluster id r) :
    (s.handOver id r).Kept := by
  cases hr with
  | shut | nothing => exact h
  | @popped clone a' hopen hpop =>
    have hheld := s.cluster.held_pop hpop
    have hfresh : clone ∉ s.freed :=
      h.not_mem_freed (Multiset.mem_coe.mp (by rw [hheld]; simp))
    refine h.move ?_ rfl (if_neg hfresh)
    simp only [System.handOver, custody, hheld, map_append, map_cons, map_nil,
      ← Multiset.coe_add, Multiset.coe_singleton]
    abel

lemma Kept.shown (h : s.Kept) {reply : Reply} (hreply : s.cluster.handleReceive = some reply) :
    s.shown reply = s := by
  unfold Cluster.handleReceive at hreply
  split at hreply
  · cases hreply
    rfl
  · split at hreply
    · exact absurd hreply (by simp)
    · rename_i hbroadcast
      cases hreply
      have hfresh : s.cluster.broadcast ∉ s.freed :=
        h.not_mem_freed (by simp [Cluster.held, Cluster.latched, hbroadcast])
      simp [System.shown, hfresh]

lemma Kept.step (h : s.Kept) {act : Act} (hs : s.step act = some s') : s'.Kept := by
  cases act with
  | cloneWrite agentID =>
    obtain ⟨hidle, rfl⟩ := of_guard hs
    refine h.make ?_ rfl rfl
    cases agentID <;> simp only [custody, hidle, Main.held, Multiset.coe_singleton,
      Multiset.coe_nil] <;> abel
  | deliver =>
    simp only [System.step] at hs
    split at hs
    case h_1 agentID clone hmain =>
      cases hs
      refine h.move ?_ rfl rfl
      simp only [custody, hmain, Main.held, Cluster.held_send, Multiset.coe_singleton,
        Multiset.coe_nil]
      abel
    case h_2 clone hmain =>
      cases hs
      have hclone : clone ≠ 0 := by
        have hmem : clone ∈ s.custody := by simp [custody, hmain, Main.held]
        rw [h.custody_eq, made, Multiset.mem_map] at hmem
        obtain ⟨n, -, rfl⟩ := hmem
        exact Nat.succ_ne_zero n
      have hlatch := s.cluster.held_latch hclone
      refine h.move ?_ rfl rfl
      calc (_ : Multiset ℕ)
          = ((s.cluster.latch clone).held + Cluster.latched s.cluster.broadcast)
            + (s.owned.map Prod.snd : List ℕ) + s.freed + s.lost := by
            simp only [custody, Main.held, ← Multiset.coe_add, Multiset.coe_nil]
            abel
        _ = s.custody := by
            rw [hlatch]
            simp only [custody, hmain, Main.held, Multiset.coe_singleton]
    case h_3 => simp at hs
  | agentSpawn =>
    obtain ⟨hidle, rfl⟩ := of_guard hs
    exact h.move (by simp only [custody, hidle, Main.held]) rfl rfl
  | spawned =>
    simp only [System.step] at hs
    split at hs
    case h_1 id hmain =>
      cases hs
      exact h.move (by simp only [custody, hmain, Main.held, Cluster.held_spawned]) rfl rfl
    case h_2 => simp at hs
  | popPost =>
    simp only [System.step, Option.ite_none_right_eq_some] at hs
    obtain ⟨hidle, hs⟩ := hs
    split at hs
    case h_1 => exact Option.some.inj hs ▸ h
    case h_2 m rest hposts =>
      cases hs
      refine h.move ?_ rfl rfl
      simp only [custody, Cluster.held, hidle, hposts, Main.held, map_cons,
        ← Multiset.coe_add, ← Multiset.cons_coe, ← Multiset.singleton_add, Multiset.coe_nil]
      abel
  | readPost ok =>
    simp only [System.step] at hs
    split at hs
    case h_1 clone hmain =>
      cases hs
      cases ok <;> refine h.move ?_ rfl rfl <;>
        simp only [custody, hmain, Main.held, if_true, Bool.false_eq_true, if_false,
          ← Multiset.cons_coe, ← Multiset.singleton_add, Multiset.coe_nil] <;> abel
    case h_2 => simp at hs
  | close =>
    obtain ⟨hidle, rfl⟩ := of_guard hs
    refine h.move ?_ rfl rfl
    simp only [custody, hidle, Main.held, Cluster.held_emptied, Multiset.coe_nil]
    abel
  | freeNext =>
    simp only [System.step] at hs
    split at hs
    case h_1 clone rest hmain =>
      cases hs
      refine h.move ?_ rfl rfl
      simp only [custody, hmain, Main.held, ← Multiset.cons_coe, ← Multiset.singleton_add]
      abel
    case h_2 => simp at hs
  | closeReturn =>
    obtain ⟨hmain, rfl⟩ := of_guard hs
    exact h.move (by simp only [custody, hmain, Main.held]) rfl rfl
  | receive id =>
    simp only [System.step, Option.ite_none_right_eq_some, Option.map_eq_some_iff] at hs
    obtain ⟨-, reply, hreply, rfl⟩ := hs
    rw [h.shown hreply]
    exact h
  | inbox id =>
    simp only [System.step, Option.ite_none_right_eq_some, Option.map_eq_some_iff] at hs
    obtain ⟨-, r, hr, rfl⟩ := hs
    exact h.handOver (handleInbox_handed hr)
  | tryInbox id =>
    obtain ⟨-, rfl⟩ := of_guard hs
    exact h.handOver (handleTryInbox_handed _ id)
  | post id =>
    obtain ⟨-, rfl⟩ := of_guard hs
    refine h.make ?_ rfl rfl
    simp only [custody, Cluster.held_handlePost]
    abel
  | exit id =>
    obtain ⟨-, rfl⟩ := of_guard hs
    exact h.move (by simp only [custody, Cluster.held_handleExit]) rfl rfl

lemma kept_start : start.Kept := ⟨rfl, rfl⟩

/-! ### Runs that lose nothing -/

/-- What keeps a handle from being dropped. -/
def Orderly (s : System) : Act → Prop
  | .deliver => s.cluster.closed = false
      ∧ (s.main.broadcasts = true → s.cluster.broadcast = 0)
  | .readPost ok => ok = true
  | .post _ => s.cluster.closed = false
  | _ => True

instance (s : System) (act : Act) : Decidable (s.Orderly act) := by
  cases act <;> dsimp only [Orderly] <;> infer_instance

/-- Nothing was dropped, and a closed cluster holds nothing. -/
structure Tidy (s : System) : Prop where
  lost_eq : s.lost = []
  closed_held : s.cluster.closed = true → s.cluster.held = []

lemma Tidy.move (h : s.Tidy) (hlost : s'.lost = s.lost)
    (hclosed : s'.cluster.closed = true → s.cluster.closed = true)
    (hheld : ∀ clone ∈ s'.cluster.held, clone ∈ s.cluster.held) : s'.Tidy where
  lost_eq := hlost.trans h.lost_eq
  closed_held := by
    intro hc
    refine eq_nil_iff_forall_not_mem.mpr fun clone hmem => ?_
    have := hheld clone hmem
    rw [h.closed_held (hclosed hc)] at this
    exact absurd this (by simp)

lemma Tidy.moveOpen (h : s.Tidy) (hlost : s'.lost = s.lost)
    (hopen : s'.cluster.closed = false) : s'.Tidy where
  lost_eq := hlost.trans h.lost_eq
  closed_held := by simp [hopen]

lemma Tidy.handOver (h : s.Tidy) {id : ℕ} {r : Reply × Cluster} (hr : Handed s.cluster id r) :
    (s.handOver id r).Tidy := by
  cases hr with
  | shut | nothing => exact h
  | popped hopen hpop =>
    obtain ⟨-, -, -, -, rfl⟩ := s.cluster.pop_split hpop
    exact h.moveOpen rfl hopen

lemma Tidy.step (h : s.Tidy) {act : Act} (hact : s.Orderly act) (hs : s.step act = some s') :
    s'.Tidy := by
  cases act with
  | cloneWrite | agentSpawn | closeReturn =>
    obtain ⟨-, rfl⟩ := of_guard hs
    exact ⟨h.lost_eq, h.closed_held⟩
  | deliver =>
    obtain ⟨hopen, hone⟩ := hact
    simp only [System.step] at hs
    split at hs
    case h_1 => exact Option.some.inj hs ▸ h.moveOpen rfl hopen
    case h_2 clone hmain =>
      rw [← Option.some.inj hs]
      refine h.moveOpen ?_ hopen
      simp [hone (by simp [hmain, Main.broadcasts]), Cluster.latched]
    case h_3 => simp at hs
  | spawned =>
    simp only [System.step] at hs
    split at hs
    case h_1 id hmain =>
      rw [← Option.some.inj hs]
      refine h.move rfl ?_ (by simp)
      unfold Cluster.spawned
      split <;> exact fun hc => hc
    case h_2 => simp at hs
  | popPost =>
    simp only [System.step, Option.ite_none_right_eq_some] at hs
    obtain ⟨-, hs⟩ := hs
    split at hs
    case h_1 => exact Option.some.inj hs ▸ h
    case h_2 m rest hposts =>
      rw [← Option.some.inj hs]
      refine h.move rfl (fun hc => hc) fun clone hmem => ?_
      simp only [Cluster.held, hposts, map_cons, mem_append, mem_cons] at hmem ⊢
      tauto
  | readPost ok =>
    obtain rfl : ok = true := hact
    simp only [System.step] at hs
    split at hs
    case h_1 => exact Option.some.inj hs ▸ ⟨h.lost_eq, h.closed_held⟩
    case h_2 => simp at hs
  | close =>
    obtain ⟨-, rfl⟩ := of_guard hs
    exact ⟨h.lost_eq, fun _ => rfl⟩
  | freeNext =>
    simp only [System.step] at hs
    split at hs
    case h_1 => exact Option.some.inj hs ▸ ⟨h.lost_eq, h.closed_held⟩
    case h_2 => simp at hs
  | receive id =>
    simp only [System.step, Option.ite_none_right_eq_some, Option.map_eq_some_iff] at hs
    obtain ⟨-, reply, -, rfl⟩ := hs
    cases reply <;> exact ⟨h.lost_eq, h.closed_held⟩
  | inbox id =>
    simp only [System.step, Option.ite_none_right_eq_some, Option.map_eq_some_iff] at hs
    obtain ⟨-, r, hr, rfl⟩ := hs
    exact h.handOver (handleInbox_handed hr)
  | tryInbox id =>
    obtain ⟨-, rfl⟩ := of_guard hs
    exact h.handOver (handleTryInbox_handed _ id)
  | post id =>
    obtain ⟨-, rfl⟩ := of_guard hs
    exact h.moveOpen rfl hact
  | exit id =>
    obtain ⟨-, rfl⟩ := of_guard hs
    refine h.move rfl (fun hc => hc) fun clone hmem => ?_
    rw [← Multiset.mem_coe, Cluster.held_handleExit] at hmem
    exact hmem

lemma tidy_start : start.Tidy := ⟨rfl, nofun⟩

/-- A handle belongs to one agent and was not freed, or was freed once and belongs to no agent. -/
def Settled (s : System) (clone : ℕ) : Prop :=
  ((s.owned.map Prod.snd).count clone = 1 ∧ s.freed.count clone = 0)
    ∨ ((s.owned.map Prod.snd).count clone = 0 ∧ s.freed.count clone = 1)

lemma Kept.settled (h : s.Kept) (htidy : s.Tidy) (hclosed : s.cluster.closed = true)
    (hidle : s.main = .idle) {clone : ℕ} (hpos : 1 ≤ clone) (hmade : clone ≤ s.nextClone) :
    s.Settled clone := by
  have hmem : clone ∈ s.made := by
    simp only [made, Multiset.mem_map, Multiset.mem_range]
    exact ⟨clone - 1, by omega, by omega⟩
  have hone : s.custody.count clone = 1 :=
    Multiset.count_eq_one_of_mem h.nodup (h.custody_eq ▸ hmem)
  simp only [custody, htidy.closed_held hclosed, hidle, Main.held, htidy.lost_eq,
    Multiset.coe_nil, zero_add, add_zero, Multiset.count_add, Multiset.coe_count] at hone
  unfold Settled
  omega

lemma Kept.freed_nodup (h : s.Kept) : s.freed.Nodup := by
  have hle : (s.freed : Multiset ℕ) ≤ s.custody := by
    unfold custody
    exact (Multiset.le_add_left _ _).trans (Multiset.le_add_right _ _)
  exact Multiset.coe_nodup.mp (Multiset.nodup_of_le hle h.nodup)

/-- No handle is freed twice or handed out after it was freed; where every step is orderly, each is
settled once `close` has returned. -/
theorem clone_handles_settled (acts : List Act) (s : System)
    (hrun : Machine.run step start acts = some s) :
    (s.freed.Nodup ∧ s.late = [])
      ∧ (Machine.Obeys step Orderly start acts → s.cluster.closed = true → s.main = .idle →
        ∀ clone, 1 ≤ clone → clone ≤ s.nextClone → s.Settled clone) := by
  have hkept : s.Kept :=
    run_invariant_all (I := Kept) (fun _ _ _ h hs => h.step hs) kept_start hrun
  refine ⟨⟨hkept.freed_nodup, hkept.late_eq⟩, fun hG hclosed hidle clone hpos hmade => ?_⟩
  have htidy : s.Tidy :=
    run_invariant (I := Tidy) (fun _ _ _ h hact hs => h.step hact hs) tidy_start hG hrun
  exact hkept.settled htidy hclosed hidle hpos hmade

def orderlyCluster : List Act :=
  [.agentSpawn, .spawned, .cloneWrite none, .deliver, .receive 1, .cloneWrite (some 1), .deliver,
    .inbox 1, .post 1, .popPost, .readPost true, .cloneWrite (some 1), .deliver, .post 1,
    .exit 1, .close, .freeNext, .freeNext, .freeNext, .closeReturn]

theorem orderlyCluster_settled :
    ∃ s, Machine.run step start orderlyCluster = some s ∧ s.nextClone = 5 ∧ s.Settled 2
      ∧ s.Settled 4 ∧ s.running = ∅ := by
  obtain ⟨s, hs, hstate⟩ := (Option.any_eq_true (fun s : System => decide
    (s.cluster.closed = true ∧ s.main = .idle ∧ s.nextClone = 5 ∧ s.running = ∅)) _).mp
    (by decide +kernel : (Machine.run step start orderlyCluster).any _ = true)
  obtain ⟨hclosed, hidle, hnext, hrunning⟩ := of_decide_eq_true hstate
  have hall := (clone_handles_settled orderlyCluster s hs).2 (by decide +kernel) hclosed hidle
  exact ⟨s, hs, hnext, hall 2 (by omega) (by omega), hall 4 (by omega) (by omega), hrunning⟩

/-- Two broadcasts, then `close`. -/
def twoBroadcasts : List Act :=
  [.cloneWrite none, .deliver, .cloneWrite none, .deliver, .close, .freeNext, .closeReturn]

/-- The superseded broadcast is never freed, although `close` has returned and no agent runs. -/
theorem twoBroadcasts_leak :
    ∃ s, Machine.run step start twoBroadcasts = some s ∧ s.cluster.closed = true
      ∧ s.main = .idle ∧ s.running = ∅ ∧ s.freed = [2] ∧ s.owned = [] ∧ ¬ s.Settled 1 := by
  obtain ⟨s, hs, hstate⟩ := (Option.any_eq_true (fun s : System => decide
    (s.cluster.closed = true ∧ s.main = .idle ∧ s.running = ∅ ∧ s.freed = [2] ∧ s.owned = [])) _).mp
    (by decide +kernel : (Machine.run step start twoBroadcasts).any _ = true)
  obtain ⟨hclosed, hidle, hrunning, hfreed, howned⟩ := of_decide_eq_true hstate
  refine ⟨s, hs, hclosed, hidle, hrunning, hfreed, howned, ?_⟩
  simp [Settled, hfreed, howned]

end System

end GoSpidermonkey.Agents
