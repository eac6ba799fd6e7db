import GoSpidermonkey.EventLoop.Run

/-!
# Wake-ups and the idle decision

The loop evaluates its idle condition in one critical section, decides to sleep outside of it, and
sleeps until a token arrives. A goroutine that changes the state in between puts the token after its
own critical section. So there are moments at which the loop sleeps over a queued post without a
token (`asleep_without_token`), but then the goroutine that queued it is just about to put one
(`wakeup_sound`): nothing is lost.
The same gap lies between the evaluation of the idle condition and the return of `Run`.
-/

namespace GoSpidermonkey.EventLoop

open List Machine

namespace Pc

def pastPosts : Pc → Bool
  | .postsDone | .imms _ | .immCall _ _ | .immDrain _ | .evalIdle | .decided _ | .select => true
  | _ => false

def pastImms : Pc → Bool
  | .imms _ | .immCall _ _ | .immDrain _ | .evalIdle | .decided _ | .select => true
  | _ => false

def sleeping : Pc → Bool
  | .decided false | .select => true
  | _ => false

def inPost : Pc → ℕ
  | .postCall => 1
  | _ => 0

end Pc

namespace St

/-- The channel holds a token, or a goroutine is about to put one. -/
def Signalled (s : St) : Prop := s.loop.wake ∨ 0 < s.waking

end St

/-! ### Tokens -/

/-- Whatever the loop would overlook in this turn is signalled. -/
structure Awake (s : St) : Prop where
  posts : s.pc.pastPosts → s.loop.posts ≠ [] → s.Signalled
  imms : s.pc.pastImms → s.loop.immediates ≠ [] → s.Signalled
  idle : s.pc.sleeping → s.loop.Idle → s.Signalled

namespace Awake

variable {s s' : St}

lemma of_signalled (h : s.Signalled) : Awake s := ⟨fun _ _ => h, fun _ _ => h, fun _ _ => h⟩

lemma of_early (h : s.pc.pastPosts = false) : Awake s := by
  have himms : s.pc.pastImms = false := by
    cases hpc : s.pc <;> simp_all [Pc.pastPosts, Pc.pastImms]
  have hsleep : s.pc.sleeping = false := by
    cases hpc : s.pc with
    | decided idle => simp_all [Pc.pastPosts]
    | _ => simp_all [Pc.pastPosts, Pc.sleeping]
  constructor <;> simp_all

end Awake

/-! ### Pending operations and completions -/

/-- What the counters are about. -/
def St.books (s : St) : List ℕ × ℕ × ℕ × ℕ × ℤ × List Bool :=
  (s.loop.posts, s.executed, s.pc.inPost, s.posted, s.loop.pending, s.held)

/-- The counters tell the truth. -/
structure Balanced (s : St) : Prop where
  count : s.loop.posts.length + s.executed + s.pc.inPost = s.posted
  pending : s.loop.pending = s.held.count true
  stopped : s.pc = .off (some .stopped) → s.hasStop

/-- `Reset` forgets the operations in flight; these runs are without it. -/
def NoReset (_ : St) (a : Act) : Prop := a ≠ .reset

instance (s : St) (a : Act) : Decidable (NoReset s a) := inferInstanceAs (Decidable (a ≠ .reset))

namespace Balanced

variable {s s' : St}

lemma of_eq (h : Balanced s) (hbooks : s'.books = s.books)
    (hstop : s'.pc = .off (some .stopped) → s'.hasStop) : Balanced s' := by
  simp only [St.books, Prod.mk.injEq] at hbooks
  obtain ⟨hposts, hexec, hpc, hposted, hpend, hheld⟩ := hbooks
  refine ⟨?_, ?_, hstop⟩
  · rw [hposts, hexec, hpc, hposted]
    exact h.count
  · rw [hpend, hheld]
    exact h.pending

end Balanced

/-! ### Steps -/

def Pc.foundIdle : Pc → Bool
  | .decided true | .off (some .idle) => true
  | _ => false

/-- What holds along a step: the invariants, and a loop that has found itself idle had done so
before or does so in this step. -/
structure Carries (a : Act) (s s' : St) : Prop where
  awake : Awake s → Awake s'
  balanced : a ≠ .reset → Balanced s → Balanced s'
  found : s'.pc.foundIdle →
    s.pc.foundIdle ∧ (∀ b, a ≠ .run b) ∨ a = .go ∧ s.pc = .evalIdle ∧ s.loop.Idle

namespace Carries

variable {s s' : St} {a : Act}

lemma early (hbooks : s'.books = s.books) (hpc : s'.pc.pastPosts = false)
    (hfound : s'.pc.foundIdle = false) (hstop : s'.pc = .off (some .stopped) → s'.hasStop) :
    Carries a s s' :=
  ⟨fun _ => .of_early hpc, fun _ h => h.of_eq hbooks hstop, fun hf => by simp [hfound] at hf⟩

/-- A step among the phases after the posts. -/
lemma late {loop : Loop ℕ} {pc : Pc} {calls : ℕ → ℕ} (hpast : s.pc.pastImms) (hlate : pc.pastImms)
    (hsleep : pc.sleeping = false) (hfound : pc.foundIdle = false)
    (hp : loop.posts = s.loop.posts) (hi : loop.immediates = s.loop.immediates)
    (hpend : loop.pending = s.loop.pending) (hwake : loop.wake = s.loop.wake) :
    Carries a s { s with loop := loop, pc := pc, immCalls := calls } := by
  have hinPost : ∀ pc : Pc, pc.pastImms → pc.inPost = 0 ∧ pc ≠ .off (some .stopped) := by
    intro pc h
    cases pc <;> simp_all [Pc.pastImms, Pc.inPost]
  refine ⟨fun h => ?_, fun _ h => h.of_eq ?_ fun hpc => absurd hpc (hinPost pc hlate).2,
    fun hf => by simp [hfound] at hf⟩
  · have hsig : s.Signalled →
        St.Signalled { s with loop := loop, pc := pc, immCalls := calls } := by
      simp [St.Signalled, hwake]
    refine ⟨fun _ hne => hsig (h.posts ?_ (hp ▸ hne)), fun _ hne => hsig (h.imms hpast (hi ▸ hne)),
      fun hpc => by simp [hsleep] at hpc⟩
    cases hpc : s.pc <;> simp_all [Pc.pastImms, Pc.pastPosts]
  · simp [St.books, hp, hpend, (hinPost pc hlate).1, (hinPost s.pc hpast).1]

/-- A step of another goroutine or of guest code. -/
lemma beside (hpc : s'.pc = s.pc) (ha : ∀ b, a ≠ .run b) (hawake : Awake s → Awake s')
    (hbal : a ≠ .reset → Balanced s → Balanced s') : Carries a s s' :=
  ⟨hawake, hbal, fun hf => .inl ⟨hpc ▸ hf, ha⟩⟩

lemma signals (hpc : s'.pc = s.pc) (ha : ∀ b, a ≠ .run b) (hsig : s'.Signalled)
    (hbooks : s'.books = s.books) (hstop : s'.hasStop = s.hasStop) : Carries a s s' :=
  beside hpc ha (fun _ => .of_signalled hsig) fun _ h =>
    h.of_eq hbooks (by rw [hpc, hstop]; exact h.stopped)

lemma guestCall (hg : s.pc.guest) (c : GuestCall) : Carries (.guest c) s (s.guestCall c) := by
  have hsleep : s.pc.sleeping = false := by
    cases hpc : s.pc with
    | decided idle => simp_all [Pc.guest]
    | _ => simp_all [Pc.guest, Pc.sleeping]
  have hquiet : ∀ l : Loop ℕ, l.posts = s.loop.posts → l.immediates = s.loop.immediates →
      l.pending = s.loop.pending → l.wake = s.loop.wake →
      Carries (.guest c) s { s with loop := l } := by
    intro l hp hi hpend hwake
    refine beside rfl (by simp) (fun h => ?_) fun _ h => h.of_eq ?_ h.stopped
    · have hsig : s.Signalled → St.Signalled { s with loop := l } := by simp [St.Signalled, hwake]
      exact ⟨fun hpc hne => hsig (h.posts hpc (hp ▸ hne)),
        fun hpc hne => hsig (h.imms hpc (hi ▸ hne)), fun hpc => by simp [hsleep] at hpc⟩
    · simp [St.books, hp, hpend]
  cases c with
  | setTimer now delay rep | postImmediate | unref => exact signals rfl (by simp) (.inl rfl) rfl rfl
  | setTimerRef id ref =>
    obtain ⟨timer, hl⟩ := s.loop.setTimerRef_frame id ref
    simp only [St.guestCall, hl]
    exact signals rfl (by simp) (.inl rfl) rfl rfl
  | ref => exact hquiet _ rfl rfl rfl rfl
  | clearTimer id =>
    obtain ⟨timer, timers, hl⟩ := s.loop.clearTimer_frame id
    simp only [St.guestCall, hl]
    exact hquiet _ rfl rfl rfl rfl
  | clearImmediate id =>
    obtain ⟨immediate, hl⟩ := s.loop.clearImmediate_frame id
    simp only [St.guestCall, hl]
    exact hquiet _ rfl rfl rfl rfl

lemma outside {o : Outside} (hs : s.outside o = some s') : Carries (.outside o) s s' := by
  cases o with
  | post =>
    cases hs
    refine beside rfl (by simp) (fun _ => .of_signalled (.inr (Nat.succ_pos _))) fun _ h =>
      ⟨?_, h.pending, h.stopped⟩
    have := h.count
    simp only [Loop.post, length_append, length_singleton]
    omega
  | addPending =>
    cases hs
    refine beside rfl (by simp) (fun h => ⟨h.posts, h.imms, fun hpc hidle => h.idle hpc ?_⟩)
      fun _ h => ⟨h.count, by simp [Loop.addPending, h.pending], h.stopped⟩
    obtain ⟨ht, hp, hrest⟩ := hidle
    refine ⟨ht, ?_, hrest⟩
    simp only [Loop.addPending] at hp
    omega
  | donePending op =>
    obtain ⟨hop, rfl⟩ := of_guard hs
    refine beside rfl (by simp) (fun _ => .of_signalled (.inr (Nat.succ_pos _))) fun _ h =>
      ⟨h.count, ?_, h.stopped⟩
    obtain ⟨hlt, hget⟩ := List.getElem?_eq_some_iff.mp hop
    have hpos : 0 < s.held.count true := count_pos_iff.mpr (hget ▸ getElem_mem hlt)
    have hset : (s.held.set op false).count true = s.held.count true - 1 := by
      rw [count_set hlt, hget]
      simp
    have := h.pending
    simp only [Loop.donePending, hset]
    omega
  | unref =>
    cases hs
    exact signals rfl (by simp) (.inr (Nat.succ_pos _)) rfl rfl
  | setTimerRef id ref =>
    cases hs
    obtain ⟨timer, hl⟩ := s.loop.setTimerRef_frame id ref
    simp only [hl]
    exact signals rfl (by simp) (.inr (Nat.succ_pos _)) rfl rfl

lemma go (hs : s.go = some s') : Carries .go s s' := by
  obtain ⟨loop, pc, _⟩ := s
  cases pc with
  | head | timersDone =>
    cases hs
    exact early rfl rfl rfl (by simp)
  | timers rest =>
    cases rest with
    | nil =>
      cases hs
      exact early rfl rfl rfl (by simp)
    | cons id rest =>
      simp only [St.go] at hs
      split at hs <;> (cases hs; exact early rfl rfl rfl (by simp))
  | posts =>
    simp only [St.go] at hs
    split at hs
    next hnil =>
      cases hs
      refine ⟨fun _ => ⟨fun _ hne => absurd hnil hne, ?_, ?_⟩, fun _ h => h.of_eq rfl (by simp), ?_⟩
      all_goals simp [Pc.pastImms, Pc.sleeping, Pc.foundIdle]
    next hposts =>
      cases hs
      -- the post leaves the queue and is executing now
      refine ⟨fun _ => .of_early rfl, fun _ h => ⟨?_, h.pending, by simp⟩, by simp [Pc.foundIdle]⟩
      have := h.count
      simp only [hposts, length_cons, Pc.inPost] at this ⊢
      omega
  | postsDone =>
    cases hs
    refine ⟨fun h => ⟨fun _ hne => h.posts rfl hne, fun _ hne => absurd rfl hne, ?_⟩,
      fun _ h => h.of_eq rfl (by simp), ?_⟩
    all_goals simp [Pc.sleeping, Pc.foundIdle]
  | imms rest =>
    cases rest with
    | nil =>
      cases hs
      exact late rfl rfl rfl rfl rfl rfl rfl rfl
    | cons id rest =>
      simp only [St.go] at hs
      split at hs <;> (cases hs; exact late rfl rfl rfl rfl rfl rfl rfl rfl)
  | evalIdle =>
    cases hs
    refine ⟨fun h => ⟨fun _ hne => h.posts rfl hne, fun _ hne => h.imms rfl hne,
      fun hpc hidle => ?_⟩, fun _ h => h.of_eq rfl (by simp), fun hf => .inr ⟨rfl, rfl, ?_⟩⟩
    · -- the loop sleeps only when it did not find itself idle
      simp [Pc.sleeping, hidle] at hpc
    · by_contra hidle
      simp [hidle, Pc.foundIdle] at hf
  | decided idle =>
    cases idle with
    | true =>
      cases hs
      exact ⟨fun _ => .of_early rfl, fun _ h => h.of_eq rfl (by simp), fun _ => .inl ⟨rfl, by simp⟩⟩
    | false =>
      cases hs
      refine ⟨fun h => ⟨fun _ hne => h.posts rfl hne, fun _ hne => h.imms rfl hne,
        fun _ => h.idle rfl⟩, fun _ h => h.of_eq rfl (by simp), by simp [Pc.foundIdle]⟩
  | _ => cases hs

lemma returned {failed : Bool} (hs : s.returned failed = some s') :
    Carries (.returned failed) s s' := by
  obtain ⟨loop, pc, _⟩ := s
  cases pc with
  | timerCall =>
    cases hs
    cases failed <;> exact early rfl rfl rfl (by simp)
  | postCall =>
    cases hs
    have hcount {n m : ℕ} (h : loop.posts.length + n + 1 = m) :
        loop.posts.length + (n + 1) = m := by
      omega
    cases failed <;> exact ⟨fun _ => .of_early rfl,
      fun _ h => ⟨hcount h.count, h.pending, by simp⟩, by simp [Pc.foundIdle]⟩
  | immCall id rest =>
    cases hs
    cases failed with
    | true => exact early rfl rfl rfl (by simp)
    | false => exact late rfl rfl rfl rfl rfl rfl rfl rfl
  | _ => cases hs

lemma drained {failed : Bool} (hs : s.drained failed = some s') :
    Carries (.drained failed) s s' := by
  obtain ⟨loop, pc, _⟩ := s
  cases pc with
  | drain | timerDrain | postDrain =>
    cases hs
    cases failed <;> exact early rfl rfl rfl (by simp)
  | immDrain rest =>
    cases hs
    cases failed with
    | true => exact early rfl rfl rfl (by simp)
    | false => exact late rfl rfl rfl rfl rfl rfl rfl rfl
  | _ => cases hs

lemma drop {loop : Loop ℕ} (ha : ∀ b, a ≠ .run b)
    (hbooks : a ≠ .reset → loop.posts = s.loop.posts ∧ loop.pending = s.loop.pending)
    (hs : s.drop loop = some s') : Carries a s s' := by
  obtain ⟨_, pc, _⟩ := s
  cases pc with
  | off last =>
    cases hs
    refine beside rfl ha (fun _ => .of_early rfl) fun hne h => h.of_eq ?_ h.stopped
    simp [St.books, hbooks hne]
  | _ => cases hs

theorem step (hs : s.step a = some s') : Carries a s s' := by
  cases a with
  | go => exact go hs
  | returned failed => exact returned hs
  | drained failed => exact drained hs
  | outside o => exact outside hs
  | reset => exact drop (by simp) (fun hne => absurd rfl hne) hs
  | clearTimers =>
    refine drop (by simp) (fun _ => ?_) hs
    rw [Loop.clearTimers_eq]
    exact ⟨rfl, rfl⟩
  | guest c =>
    have hs := of_guard hs
    exact hs.2 ▸ guestCall hs.1 c
  | wakeup =>
    obtain ⟨-, rfl⟩ := of_guard hs
    exact signals rfl (by simp) (.inl rfl) rfl rfl
  | run hasStop =>
    obtain ⟨loop, pc, _⟩ := s
    cases pc with
    | off last =>
      cases hs
      exact early rfl rfl rfl (by simp)
    | _ => cases hs
  | stop =>
    obtain ⟨hc, rfl⟩ := of_guard hs
    refine early ?_ rfl rfl fun _ => hc.1
    obtain ⟨loop, pc, _⟩ := s
    cases pc with
    | postCall => simp [Pc.stopCheck] at hc
    | _ => rfl
  | ctxDone =>
    obtain ⟨loop, pc, _⟩ := s
    obtain ⟨hc, rfl⟩ := of_guard hs
    rcases hc with rfl | rfl <;> exact early rfl rfl rfl (by simp)
  | takeDue now =>
    obtain ⟨loop, pc, _⟩ := s
    obtain ⟨rfl, rfl⟩ := of_guard hs
    exact early rfl rfl rfl (by simp)
  | recv | tick =>
    obtain ⟨loop, pc, _⟩ := s
    obtain ⟨⟨rfl, -⟩, rfl⟩ := of_guard hs
    exact early rfl rfl rfl (by simp)

end Carries

/-! ### The idle decision -/

/-- A run that has found itself idle did so at an evaluation after which no other run began. -/
lemma exists_evaluation {acts : List Act} {s : St}
    (hrun : Machine.run St.step St.init acts = some s) (hpc : s.pc.foundIdle) :
    ∃ acts₁ acts₂ s₁, acts = acts₁ ++ .go :: acts₂ ∧ (∀ b, Act.run b ∉ acts₂) ∧
      Machine.run St.step St.init acts₁ = some s₁ ∧ s₁.pc = .evalIdle ∧ s₁.loop.Idle := by
  induction acts using List.reverseRecOn generalizing s with
  | nil =>
    obtain rfl : St.init = s := by simpa using hrun
    simp [St.init, Pc.foundIdle] at hpc
  | append_singleton as a ih =>
    rw [run_append] at hrun
    obtain ⟨s₀, hs₀, hrun⟩ := Option.bind_eq_some_iff.mp hrun
    have hs : s₀.step a = some s := by simpa [run_cons] using hrun
    rcases (Carries.step hs).found hpc with ⟨hpc₀, hnot⟩ | ⟨rfl, hpc₀, hidle⟩
    · obtain ⟨acts₁, acts₂, s₁, rfl, hno, h⟩ := ih hs₀ hpc₀
      refine ⟨acts₁, acts₂ ++ [a], s₁, by simp, fun b => ?_, h⟩
      simpa using ⟨hno b, fun hab => hnot b hab.symm⟩
    · exact ⟨as, [], s₀, by simp, by simp, hs₀, hpc₀, hidle⟩

/-- What holds when a run evaluates the idle condition and finds itself idle. -/
structure IdleEvaluation (s : St) : Prop where
  at_evaluation : s.pc = .evalIdle
  idle : s.loop.Idle
  executed : s.executed = s.posted
  in_flight : s.held.count true ≤ s.loop.unrefPending

lemma Balanced.idleEvaluation {s : St} (h : Balanced s) (hpc : s.pc = .evalIdle)
    (hidle : s.loop.Idle) : IdleEvaluation s where
  at_evaluation := hpc
  idle := hidle
  executed := by
    have := h.count
    simp only [hidle.2.2.1, hpc, Pc.inPost, length_nil] at this
    omega
  in_flight := by
    have := h.pending
    have := hidle.2.1
    omega

/-- A sleeping loop that has something to do, or has become idle, has a token or will get one; and a
run comes back without a stop only after it was idle, with every completion executed. -/
theorem wakeup_sound {acts : List Act} {s : St}
    (hG : Machine.Obeys St.step NoReset St.init acts)
    (hrun : Machine.run St.step St.init acts = some s) :
    (s.pc = .select → s.loop.posts ≠ [] ∨ s.loop.immediates ≠ [] ∨ s.loop.Idle → s.Signalled) ∧
    (s.pc = .off (some .stopped) → s.hasStop) ∧
    (s.pc = .off (some .idle) → ∃ acts₁ acts₂ s₁, acts = acts₁ ++ .go :: acts₂ ∧
      (∀ b, Act.run b ∉ acts₂) ∧ Machine.run St.step St.init acts₁ = some s₁ ∧
      IdleEvaluation s₁) := by
  have hawake : Awake s :=
    run_invariant_all (I := Awake) (fun _ _ _ h hs => (Carries.step hs).awake h)
    (Awake.of_early rfl) hrun
  have hbal : ∀ {as : List Act} {s : St}, Machine.Obeys St.step NoReset St.init as →
      Machine.run St.step St.init as = some s → Balanced s := fun hG hrun =>
    run_invariant (I := Balanced) (fun _ _ _ h hG hs => (Carries.step hs).balanced hG h)
      ⟨rfl, rfl, by simp [St.init]⟩ hG hrun
  refine ⟨fun hpc hor => ?_, (hbal hG hrun).stopped, fun hpc => ?_⟩
  · rcases hor with hne | hne | hidle
    · exact hawake.posts (by rw [hpc]; rfl) hne
    · exact hawake.imms (by rw [hpc]; rfl) hne
    · exact hawake.idle (by rw [hpc]; rfl) hidle
  · obtain ⟨acts₁, acts₂, s₁, rfl, hno, hs₁, hpc₁, hidle⟩ :=
      exists_evaluation hrun (by rw [hpc]; rfl)
    exact ⟨acts₁, acts₂, s₁, rfl, hno, hs₁, (hbal hG.of_append hs₁).idleEvaluation hpc₁ hidle⟩

/-! ### An operation that completes -/

def emptyTurn : List Act := [.go, .drained false, .takeDue 0, .go, .go, .go, .go, .go]

def postWhileAsleep : List Act :=
  [.outside .addPending, .run false] ++ emptyTurn ++ [.go, .go, .outside .post]

theorem asleep_without_token :
    (Machine.run St.step St.init postWhileAsleep).map
      (fun s => (s.pc, s.loop.posts, s.loop.wake)) = some (.select, [0], false) := by
  decide

def completed : List Act :=
  postWhileAsleep ++ [.outside (.donePending 0), .wakeup, .wakeup, .recv, .go, .drained false,
    .takeDue 0, .go, .go, .go, .returned false, .drained false, .go, .go, .go, .go, .go]

theorem wakeup_sound_completed :
    ∃ s, Machine.run St.step St.init completed = some s ∧ s.pc = .off (some .idle) ∧
      ∃ acts₁ acts₂ s₁, completed = acts₁ ++ .go :: acts₂ ∧ (∀ b, Act.run b ∉ acts₂) ∧
        Machine.run St.step St.init acts₁ = some s₁ ∧ IdleEvaluation s₁ := by
  have hG : Machine.Obeys St.step NoReset St.init completed := by decide
  have hpc : (Machine.run St.step St.init completed).map (·.pc) = some (.off (some .idle)) := by
    decide
  obtain ⟨s, hs⟩ : ∃ s, Machine.run St.step St.init completed = some s :=
    Option.isSome_iff_exists.mp (by decide)
  have hpc : s.pc = .off (some .idle) := by simpa [hs] using hpc
  exact ⟨s, hs, hpc, (wakeup_sound hG hs).2.2 hpc⟩

end GoSpidermonkey.EventLoop
