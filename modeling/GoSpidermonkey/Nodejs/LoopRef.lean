import GoSpidermonkey.Lib.Counting
import GoSpidermonkey.Nodejs.Handles

/-!
# `unrefPending` counts the unref'd handles that hold a pending

In every run `unrefPending` is the number of the handles that are unref'd (`Books`), so that it
counts those which still hold their pending exactly if all of them do (`Books.balanced_iff`).
Nothing in the code makes sure of that: the host releases a pending without looking at the handle.
It holds in the runs whose steps are `Compensated` (`unrefPending_balanced`), and there the loop
does not go idle over a handle that is ref'd.
-/

namespace GoSpidermonkey.Nodejs.Handles

open EventLoop List Machine

namespace State

variable {s : State} {h r : ℕ}

@[simp] lemma netEnd_handle (s : State) (r : ℕ) : (s.netEnd r).handle = s.handle := by
  unfold netEnd
  split_ifs <;> rfl

@[simp] lemma netClose_handle (s : State) (r : ℕ) : (s.netClose r).handle = s.handle := by
  simp only [netClose]
  split_ifs <;> rfl

/-- An update that keeps a field. -/
lemma update_field {α β : Type*} (field : α → β) (f : ℕ → α) {x : α} {i : ℕ}
    (hx : field x = field (f i)) (j : ℕ) : field (Function.update f i x j) = field (f j) := by
  by_cases hj : j = i
  · subst hj
    simpa using hx
  · simp [hj]

/-! ### The books -/

/-- What holds in every run. -/
structure Books (s : State) : Prop where
  unref : s.loop.unrefPending = Nat.count (fun h => (s.handle h).unreffed = true) s.handles
  pending : s.loop.pending =
    Nat.count (fun r => (s.reg r).stage ≠ .released) s.regs + s.others
  stdin : 0 < s.handles
  known : ∀ h, (s.handle h).unreffed = true → h < s.handles
  owners : ∀ r < s.regs, (s.reg r).owner < s.handles
  ids : ∀ h r, (s.handle h).id = some r → r < s.regs ∧ (s.reg r).owner = h
  serving : ∀ h r, (s.handle h).id = some r → (s.handle h).kind = .httpServer →
    (s.reg r).stage = .serving
  posts : ∀ r, (s.loop.posts.filterMap Task.releases).count r =
    if r < s.regs ∧ (s.reg r).stage = .posted then 1 else 0

lemma books_init (hasStdin : Bool) : Books (init hasStdin) := by
  refine ⟨?_, ?_, ?_, ?_, ?_, ?_, ?_, ?_⟩
  all_goals simp [init, Loop.new, Nat.count_succ]

namespace Books

variable {l : Loop Task} {y : Registration}

variable (hb : Books s)
include hb

lemma congr {ticks : List Tick} {phase : Phase}
    (hpending : l.pending = s.loop.pending) (hunref : l.unrefPending = s.loop.unrefPending)
    (hposts : l.posts = s.loop.posts) :
    Books { s with loop := l, ticks := ticks, phase := phase } :=
  ⟨hunref.trans hb.unref, hpending.trans hb.pending, hb.stdin, hb.known, hb.owners, hb.ids,
    hb.serving, hposts ▸ hb.posts⟩

lemma setHandle {x : Handle} (hu : x.unreffed = (s.handle h).unreffed)
    (hk : x.kind = (s.handle h).kind) (hid : x.id = (s.handle h).id ∨ x.id = none) :
    Books (s.setHandle h x) := by
  have hx : ∀ h' r, ((s.setHandle h x).handle h').id = some r → (s.handle h').id = some r := by
    intro h' r hr
    by_cases hh : h' = h
    · subst hh
      simp only [setHandle_handle, Function.update_self] at hr
      rcases hid with hid | hid
      · rwa [← hid]
      · simp [hid] at hr
    · simpa [hh] using hr
  have hkind := update_field Handle.kind s.handle hk
  have hunref := update_field Handle.unreffed s.handle hu
  refine ⟨?_, hb.pending, hb.stdin, fun h' hu' => hb.known h' (hunref h' ▸ hu'), hb.owners,
    fun h' r hr => hb.ids h' r (hx h' r hr),
    fun h' r hr hk' => hb.serving h' r (hx h' r hr) (hkind h' ▸ hk'), hb.posts⟩
  simp only [setHandle_handle, hunref]
  exact hb.unref

lemma setUnreffed {x : Handle} (hh : h < s.handles)
    (hk : x.kind = (s.handle h).kind) (hid : x.id = (s.handle h).id)
    (hpending : l.pending = s.loop.pending) (hposts : l.posts = s.loop.posts)
    (hl : l.unrefPending + (if (s.handle h).unreffed = true then 1 else 0) =
      s.loop.unrefPending + (if x.unreffed = true then 1 else 0)) :
    Books { s.setHandle h x with loop := l } := by
  have hcount := Counting.count_update (fun x : Handle => x.unreffed = true) s.handle x hh
  have hids := update_field Handle.id s.handle hid
  have hkind := update_field Handle.kind s.handle hk
  refine ⟨?_, by rw [hpending]; exact hb.pending, hb.stdin, fun h' hu => ?_, hb.owners,
    fun h' r hr => hb.ids h' r (hids h' ▸ hr),
    fun h' r hr hk' => hb.serving h' r (hids h' ▸ hr) (hkind h' ▸ hk'),
    by rw [hposts]; exact hb.posts⟩
  · have := hb.unref
    simp only [setHandle_handle, setHandle_handles]
    omega
  · by_cases hh' : h' = h
    · exact hh' ▸ hh
    · exact hb.known h' (by simpa [hh'] using hu)

lemma refHandle (h : ℕ) : Books (s.refHandle h) := by
  unfold State.refHandle
  split_ifs with hu
  · have hh := hb.known h hu
    refine hb.setUnreffed hh rfl rfl rfl rfl ?_
    -- the handle itself is counted, so that `Ref` does not stop at zero
    have hpos : 0 < s.loop.unrefPending := by
      rw [hb.unref]
      exact Nat.pos_of_ne_zero (Nat.count_ne_iff_exists.mpr ⟨h, hh, hu⟩)
    simp only [Loop.ref, hu, if_true]
    simp
    omega
  · exact hb

lemma unrefHandle (hh : h < s.handles) : Books (s.unrefHandle h) := by
  simp only [State.unrefHandle]
  split_ifs with hu
  · refine hb.setUnreffed hh rfl rfl rfl rfl ?_
    simp only [Bool.and_eq_true, Bool.not_eq_true'] at hu
    simp [Loop.unref, hu.1]
  · exact hb

lemma fireClose (h : ℕ) : Books (s.fireClose h) := by
  unfold State.fireClose
  split_ifs
  · refine Books.refHandle (hb.setHandle ?_ ?_ (.inl ?_)) h <;> rfl
  · exact hb

lemma emitClose (h : ℕ) : Books (s.emitClose h) := by
  simp only [State.emitClose]
  split_ifs
  · refine Books.fireClose (hb.setHandle ?_ ?_ (.inl ?_)) h <;> rfl
  · exact hb

lemma post {t : Task} (ht : t.releases = none) : Books (s.post t) := by
  refine { hb with posts := fun r => ?_ }
  simp only [post_loop, Loop.post, filterMap_append, filterMap_cons_none ht,
    filterMap_nil, append_nil]
  exact hb.posts r

section Release

variable (hr : r < s.regs)
include hr

lemma setReg_loop (ho : y.owner = (s.reg r).owner) (hunref : l.unrefPending = s.loop.unrefPending)
    (hpending : l.pending + (if (s.reg r).stage ≠ .released then 1 else 0) =
      s.loop.pending + (if y.stage ≠ .released then 1 else 0))
    (hserving : ∀ h, (s.handle h).id = some r → (s.handle h).kind = .httpServer →
      y.stage = .serving)
    (hposts : ∀ r', (l.posts.filterMap Task.releases).count r' =
      if r' < s.regs ∧ (Function.update s.reg r y r').stage = .posted then 1 else 0) :
    Books { s.setReg r y with loop := l } := by
  have howner := update_field Registration.owner s.reg ho
  refine ⟨hunref.trans hb.unref, ?_, hb.stdin, hb.known,
    fun r' hr' => (howner r').symm ▸ hb.owners r' hr', fun h' r' hid =>
    ⟨(hb.ids h' r' hid).1, (howner r').trans (hb.ids h' r' hid).2⟩, fun h' r' hid hk => ?_, hposts⟩
  · have hcount := Counting.count_update (fun y : Registration => y.stage ≠ .released) s.reg y hr
    have hp := hb.pending
    simp only [setReg_reg, setReg_regs, setReg_others]
    split_ifs at hpending hcount <;> omega
  · by_cases hr' : r' = r
    · subst hr'
      simpa using hserving h' hid hk
    · simpa [hr'] using hb.serving h' r' hid hk

lemma setReg (ho : y.owner = (s.reg r).owner)
    (hreleased : y.stage = .released ↔ (s.reg r).stage = .released)
    (hposted : y.stage = .posted ↔ (s.reg r).stage = .posted)
    (hserving : ∀ h, (s.handle h).id = some r → (s.handle h).kind = .httpServer →
      y.stage = .serving) : Books (s.setReg r y) := by
  refine hb.setReg_loop hr ho rfl ?_ hserving fun r' => ?_
  · simp only [ne_eq, hreleased]
  · rw [hb.posts]
    by_cases hr' : r' = r
    · subst hr'
      simp [hposted]
    · simp [hr']

lemma setStage (ho : y.owner = (s.reg r).owner)
    (hs : (s.reg r).stage ∉ [Stage.released, Stage.posted, Stage.serving])
    (hy : y.stage ∉ [Stage.released, Stage.posted]) : Books (s.setReg r y) := by
  refine hb.setReg hr ho (by simp_all) (by simp_all) fun h' hid hk => ?_
  simp [hb.serving h' r hid hk] at hs

lemma setLive (ho : y.owner = (s.reg r).owner) (hy : y.stage = (s.reg r).stage) :
    Books (s.setReg r y) :=
  hb.setReg hr ho (by rw [hy]) (by rw [hy]) fun h' hid hk => hy.trans (hb.serving h' r hid hk)

lemma post_release {t : Task} (ho : y.owner = (s.reg r).owner) (hy : y.stage = .posted)
    (hs : (s.reg r).stage ∉ [Stage.released, Stage.posted, Stage.serving])
    (ht : t.releases = some r) : Books ((s.setReg r y).post t) := by
  refine hb.setReg_loop (l := s.loop.post t) hr ho rfl ?_ (fun h' hid hk => ?_) fun r' => ?_
  · simp_all [Loop.post]
  · simp [hb.serving h' r hid hk] at hs
  · rw [Loop.post, filterMap_append, filterMap_cons_some ht, filterMap_nil,
      count_append, hb.posts]
    by_cases hr' : r' = r
    · subst hr'
      simp_all
    · simp [hr', Ne.symm hr']

/-- `DonePending` of a registration; the posts left are those of the others. -/
lemma release_posts (posts : List Task)
    (hs : (s.reg r).stage ∉ [Stage.released, Stage.serving])
    (hposts : ∀ r', (posts.filterMap Task.releases).count r' =
      if r' ≠ r ∧ r' < s.regs ∧ (s.reg r').stage = .posted then 1 else 0) :
    Books (({ s with loop := { s.loop with posts := posts } } : State).release r) := by
  refine hb.setReg_loop (y := { s.reg r with stage := .released }) hr rfl rfl ?_
    (fun h' hid hk => ?_) fun r' => ?_
  · simp_all [Loop.donePending]
  · simp [hb.serving h' r hid hk] at hs
  · rw [Loop.donePending, hposts]
    by_cases hr' : r' = r
    · subst hr'
      simp
    · simp [hr']

lemma release (hs : (s.reg r).stage ∉ [Stage.released, Stage.posted, Stage.serving]) :
    Books (s.release r) := by
  refine hb.release_posts hr s.loop.posts (by simp_all) fun r' => ?_
  rw [hb.posts]
  by_cases hr' : r' = r
  · subst hr'
    simp_all
  · simp [hr']

end Release

lemma runTask {t : Task} {rest : List Task} (ht : s.loop.posts = t :: rest) :
    Books (State.runTask { s with loop := { s.loop with posts := rest } } t) := by
  have hrest : t.releases = none → Books { s with loop := { s.loop with posts := rest } } := by
    intro hnone
    refine { hb with posts := fun r => ?_ }
    rw [← hb.posts r, ht, filterMap_cons_none hnone]
  have hreleases : ∀ r, t.releases = some r →
      Books (State.release { s with loop := { s.loop with posts := rest } } r) := by
    intro r hr
    have hcount : ∀ r', (if r = r' then 1 else 0) + (rest.filterMap Task.releases).count r' =
        if r' < s.regs ∧ (s.reg r').stage = .posted then 1 else 0 := by
      intro r'
      rw [← hb.posts r', ht, filterMap_cons_some hr, count_cons]
      simp only [beq_iff_eq]
      omega
    have hposted : r < s.regs ∧ (s.reg r).stage = .posted := by
      by_contra hn
      have := hcount r
      simp [hn] at this
    refine hb.release_posts hposted.1 rest (by simp [hposted.2]) fun r' => ?_
    have := hcount r'
    by_cases hr' : r' = r
    · subst hr'
      simp_all
    · simp_all [Ne.symm hr']
  cases t with
  | dialFailed r | dialAborted r | httpClosed r => exact hreleases r rfl
  | connected r | data r => exact hrest rfl
  | ended r live failed =>
    simp only [State.runTask]
    split_ifs
    · exact (hrest rfl).setHandle rfl rfl (.inl rfl)
    · exact hrest rfl
  | stdinEnd h => exact ((hrest rfl).refHandle h).setHandle rfl rfl (.inl rfl)

lemma register (hh : h < s.handles) {stage : Stage}
    (hs : stage ∉ [Stage.released, Stage.posted]) : Books (s.register h stage) := by
  simp only [mem_cons, not_mem_nil, or_false, not_or] at hs
  have hold : ∀ r < s.regs, (s.register h stage).reg r = s.reg r := fun r hr => by
    simp [Nat.ne_of_lt hr]
  refine ⟨hb.unref, ?_, hb.stdin, hb.known, fun r hr => ?_, fun h' r hid => ?_,
    fun h' r hid hk => ?_, fun r => ?_⟩
  · have hcount := Counting.count_update_last (fun y : Registration => y.stage ≠ .released) s.reg
      { owner := h, stage := stage } (n := s.regs)
    rw [if_pos hs.1] at hcount
    simp only [register_loop, Loop.addPending, register_reg, register_regs, register_others,
      hb.pending, hcount]
    push_cast
    ring
  · rcases Nat.lt_succ_iff_lt_or_eq.mp hr with hr | rfl
    · rw [hold r hr]
      exact hb.owners r hr
    · simpa using hh
  · obtain ⟨hr, ho⟩ := hb.ids h' r hid
    exact ⟨Nat.lt_succ_of_lt hr, by rw [hold r hr, ho]⟩
  · rw [hold r (hb.ids h' r hid).1]
    exact hb.serving h' r hid hk
  · simp only [register_loop, Loop.addPending, hb.posts]
    by_cases hr : r = s.regs
    · subst hr
      simp [hs.2]
    · have hlt : r < s.regs + 1 ↔ r < s.regs := by omega
      simp only [register_reg, register_regs, Function.update_of_ne hr, hlt]

lemma attach (hh : h < s.handles) {stage : Stage} (hs : stage ∉ [Stage.released, Stage.posted])
    (hk : (s.handle h).kind = .httpServer → stage = .serving) : Books (s.attach h stage) := by
  have hreg := hb.register hh hs
  have hother : ∀ h' ≠ h, (s.attach h stage).handle h' = s.handle h' := fun h' hne => by
    simp [State.attach, hne]
  have hself : (s.attach h stage).handle h = { s.handle h with id := some s.regs } := by
    simp [State.attach]
  have hunref : ∀ h', ((s.attach h stage).handle h').unreffed = (s.handle h').unreffed := by
    intro h'
    by_cases hne : h' = h
    · rw [hne, hself]
    · rw [hother h' hne]
  refine ⟨?_, hreg.pending, hb.stdin, fun h' hu => hb.known h' (hunref h' ▸ hu), hreg.owners,
    fun h' r hid => ?_, fun h' r hid hk' => ?_, hreg.posts⟩
  · simp only [hunref]
    exact hb.unref
  · by_cases hne : h' = h
    · subst hne
      rw [hself] at hid
      obtain rfl : s.regs = r := Option.some.inj hid
      simp [State.attach]
    · rw [hother h' hne] at hid
      exact hreg.ids h' r hid
  · by_cases hne : h' = h
    · subst hne
      rw [hself] at hid hk'
      obtain rfl : s.regs = r := Option.some.inj hid
      simpa [State.attach] using hk hk'
    · rw [hother h' hne] at hid hk'
      exact hreg.serving h' r hid hk'

lemma create (k : HandleKind) (allowHalfOpen : Bool) : Books (s.create k allowHalfOpen) := by
  have hnew : (s.create k allowHalfOpen).handle s.handles =
      { kind := k, allowHalfOpen := allowHalfOpen } := by
    simp [State.create]
  have hold : ∀ h ≠ s.handles, (s.create k allowHalfOpen).handle h = s.handle h := fun h hne => by
    simp [State.create, hne]
  refine ⟨?_, hb.pending, Nat.succ_pos _, fun h hu => ?_, fun r hr =>
    Nat.lt_succ_of_lt (hb.owners r hr), fun h r hid => ?_, fun h r hid hk => ?_, hb.posts⟩
  · have hcount := Counting.count_update_last (fun x : Handle => x.unreffed = true) s.handle
      { kind := k, allowHalfOpen := allowHalfOpen } (n := s.handles)
    rw [if_neg (by simp)] at hcount
    exact hb.unref.trans hcount.symm
  · by_cases hne : h = s.handles
    · exact hne ▸ Nat.lt_succ_self _
    · exact Nat.lt_succ_of_lt (hb.known h (hold h hne ▸ hu))
  · by_cases hne : h = s.handles
    · rw [hne, hnew] at hid
      cases hid
    · exact hb.ids h r (hold h hne ▸ hid)
  · by_cases hne : h = s.handles
    · rw [hne, hnew] at hid
      cases hid
    · exact hb.serving h r (hold h hne ▸ hid) (hold h hne ▸ hk)

end Books

end State

lemma TimerOp.run_frame (l : Loop Task) (op : TimerOp) :
    (op.run l).pending = l.pending ∧ (op.run l).unrefPending = l.unrefPending ∧
      (op.run l).posts = l.posts := by
  cases op with
  | clearTimer id =>
    obtain ⟨_, _, heq⟩ := l.clearTimer_frame id
    simp [run, heq]
  | setTimerRef id ref =>
    obtain ⟨_, heq⟩ := l.setTimerRef_frame id ref
    simp [run, heq]
  | clearImmediate id =>
    obtain ⟨_, heq⟩ := l.clearImmediate_frame id
    simp [run, heq]
  | _ => exact ⟨rfl, rfl, rfl⟩

open State

variable {s s' : State} {a : Act}

/-! ### A `ref` on its way

The listeners and posts that undo an `unref` stay in their queues until they have run. -/

namespace State

lemma setHandle_setHandle (s : State) (h : ℕ) (x y : Handle) :
    (s.setHandle h x).setHandle h y = s.setHandle h y := by
  simp [State.setHandle]

lemma fireClose_eq {h : ℕ} (harmed : (s.handle h).armed = true) :
    s.fireClose h = { s.setHandle h { s.handle h with armed := false, unreffed := false } with
      loop := if (s.handle h).unreffed then s.loop.ref else s.loop } := by
  unfold fireClose refHandle
  rw [if_pos harmed]
  cases hu : (s.handle h).unreffed with
  | true | false => simp [State.setHandle, hu]

lemma fireClose_of_not_armed {h : ℕ} (harmed : (s.handle h).armed = false) : s.fireClose h = s := by
  simp [fireClose, harmed]

end State

/-- A handle that is unref'd was so before, and if its `ref` was on its way it still is. -/
def Keeps (s s' : State) : Prop :=
  ∀ h, s'.Unreffed h → s.Unreffed h ∧ (s.Undoing h → s'.Undoing h)

/-- The two differ in nothing that an `unref` depends on, but 'end' may have been emitted. -/
def Handle.Alike (x y : Handle) : Prop :=
  x.kind = y.kind ∧ x.unreffed = y.unreffed ∧ x.armed = y.armed ∧
    (y.endEmitted = true → x.endEmitted = true) ∧ x.closeEmitted = y.closeEmitted

namespace Keeps

lemma refl (s : State) : Keeps s s := fun _ hu => ⟨hu, id⟩

lemma trans {s'' : State} (hk : Keeps s s') (hk' : Keeps s' s'') : Keeps s s'' := fun h hu =>
  ⟨(hk h (hk' h hu).1).1, fun hundo => (hk' h hu).2 ((hk h (hk' h hu).1).2 hundo)⟩

lemma of_handle (hhandle : s'.handle = s.handle) (hticks : s.ticks ⊆ s'.ticks)
    (hposts : ∀ h, .stdinEnd h ∈ s.loop.posts → .stdinEnd h ∈ s'.loop.posts)
    (hphase : s.phase = .tasks → ∀ h, .stdinEnd h ∈ s.loop.posts → s'.phase = .tasks) :
    Keeps s s' := by
  refine fun h hu => ⟨by rwa [Unreffed, ← hhandle], ?_⟩
  rintro (⟨harmed, hclose | ⟨hfinish, hend, hemit⟩⟩ | ⟨hp, hpost⟩)
  · exact .inl ⟨hhandle ▸ harmed, .inl (hticks hclose)⟩
  · exact .inl ⟨hhandle ▸ harmed, .inr ⟨hticks hfinish, hhandle ▸ hend, hhandle ▸ hemit⟩⟩
  · exact .inr ⟨hphase hp h hpost, hposts h hpost⟩

variable {h : ℕ} {x : Handle}

lemma setHandle {l : Loop Task} (hposts : l.posts = s.loop.posts)
    (hx : x.unreffed = true → (s.handle h).unreffed = true ∧
      ((s.handle h).armed = true → x.armed = true ∧
        ((s.handle h).endEmitted = true → x.endEmitted = true) ∧
        x.closeEmitted = (s.handle h).closeEmitted)) :
    Keeps s { s.setHandle h x with loop := l } := by
  intro h' hu
  by_cases hh : h' = h
  · subst hh
    simp only [Unreffed, setHandle_handle, Function.update_self] at hu
    obtain ⟨hu', harmed⟩ := hx hu
    refine ⟨hu', ?_⟩
    rintro (⟨ha, hclose | ⟨hfinish, hend, hemit⟩⟩ | hstdin)
    · exact .inl ⟨by simpa using (harmed ha).1, .inl hclose⟩
    · obtain ⟨hxa, hxe, hxc⟩ := harmed ha
      exact .inl ⟨by simpa using hxa, .inr ⟨hfinish, by simpa using hxe hend,
        by simpa [hxc] using hemit⟩⟩
    · right
      simpa [hposts] using hstdin
  · simp only [Unreffed, Undoing, setHandle_handle, setHandle_ticks, setHandle_phase, hposts,
      Function.update_of_ne hh] at hu ⊢
    exact ⟨hu, id⟩

lemma refHandle (s : State) (h : ℕ) : Keeps s (s.refHandle h) := by
  unfold State.refHandle
  split_ifs
  · exact setHandle rfl (by simp)
  · exact refl s

lemma fireClose (hu : x.unreffed = true → (s.handle h).unreffed = true)
    (harmed : x.armed = (s.handle h).armed) : Keeps s ((s.setHandle h x).fireClose h) := by
  cases ha : (s.handle h).armed with
  | true =>
    rw [fireClose_eq (by simp [harmed, ha]), setHandle_setHandle]
    refine setHandle ?_ (by simp)
    split_ifs <;> rfl
  | false =>
    rw [fireClose_of_not_armed (by simp [harmed, ha])]
    exact setHandle (l := s.loop) rfl fun hx => ⟨hu hx, by simp [ha]⟩

lemma fireClose_self (s : State) (h : ℕ) : Keeps s (s.fireClose h) := by
  have hself : s.setHandle h (s.handle h) = s := by simp [State.setHandle]
  have hfire := fireClose (s := s) (h := h) (x := s.handle h) id rfl
  rwa [hself] at hfire

lemma emitClose (s : State) (h : ℕ) : Keeps s (s.emitClose h) := by
  simp only [State.emitClose]
  split_ifs
  · exact fireClose id rfl
  · exact refl s

/-- A tick that undoes an `unref` has done so. -/
lemma runTick {t : Tick} {rest : List Tick} (ht : s.ticks = t :: rest) :
    Keeps s (State.runTick { s with ticks := rest } t) := by
  have htail : ∀ h, s.Undoing h → State.Undoing { s with ticks := rest } h ∨
      (s.handle h).armed = true ∧ (t = .close h ∨
        t = .finish h ∧ (s.handle h).endEmitted = true ∧ (s.handle h).closeEmitted = false) := by
    rintro h (⟨harmed, hclose | ⟨hfinish, hend⟩⟩ | hstdin)
    · rw [ht] at hclose
      rcases mem_cons.mp hclose with rfl | hclose
      · exact .inr ⟨harmed, .inl rfl⟩
      · exact .inl (.inl ⟨harmed, .inl hclose⟩)
    · rw [ht] at hfinish
      rcases mem_cons.mp hfinish with rfl | hfinish
      · exact .inr ⟨harmed, .inr ⟨rfl, hend⟩⟩
      · exact .inl (.inl ⟨harmed, .inr ⟨hfinish, hend⟩⟩)
    · exact .inl (.inr hstdin)
  cases t with
  | close h₀ =>
    intro h hu
    obtain ⟨hu', hundo⟩ := fireClose_self { s with ticks := rest } h₀ h hu
    refine ⟨hu', fun hs => ?_⟩
    rcases htail h hs with hs | ⟨harmed, heq | ⟨heq, -⟩⟩
    · exact hundo hs
    · cases heq
      have hfire := fireClose_eq (s := { s with ticks := rest }) harmed
      simp only [Unreffed, State.runTick, hfire] at hu
      simp at hu
    · cases heq
  | finish h₀ =>
    have hset : Keeps { s with ticks := rest } (State.setHandle { s with ticks := rest } h₀
        { s.handle h₀ with finishEmitted := true }) := setHandle (l := s.loop) rfl (by simp)
    intro h hu
    obtain ⟨hu', hundo⟩ := hset.trans (emitClose _ h₀) h hu
    refine ⟨hu', fun hs => ?_⟩
    rcases htail h hs with hs | ⟨harmed, heq | ⟨heq, hend, hemit⟩⟩
    · exact hundo hs
    · cases heq
    · cases heq
      simp only [Unreffed, State.runTick, State.emitClose, setHandle_handle,
        Function.update_self, hemit, hend, Bool.not_false, Bool.true_or, Bool.and_self,
        if_true] at hu
      rw [fireClose_eq (by simpa using harmed)] at hu
      simp at hu

lemma setHandle_alike (hx : x.Alike (s.handle h)) : Keeps s (s.setHandle h x) :=
  setHandle (l := s.loop) rfl fun hu =>
    ⟨hx.2.1 ▸ hu, fun harmed => ⟨hx.2.2.1.trans harmed, hx.2.2.2⟩⟩

/-- A post that undoes an `unref` has done so. -/
lemma runTask {t : Task} {rest : List Task} (ht : s.loop.posts = t :: rest) :
    Keeps s (State.runTask { s with loop := { s.loop with posts := rest } } t) := by
  have hpop : (∀ h, t ≠ .stdinEnd h) → ∀ h, .stdinEnd h ∈ s.loop.posts → .stdinEnd h ∈ rest := by
    intro hne h hm
    rw [ht] at hm
    exact (mem_cons.mp hm).resolve_left fun heq => hne h heq.symm
  have hkeep : (∀ h, t ≠ .stdinEnd h) →
      Keeps s { s with loop := { s.loop with posts := rest } } := fun hne =>
    of_handle rfl (by simp) (hpop hne) fun hp _ _ => hp
  cases t with
  | dialFailed r | dialAborted r | httpClosed r =>
    exact of_handle rfl (by simp [State.runTask]) (hpop (by simp)) fun hp _ _ => hp
  | connected r | data r => exact hkeep (by simp)
  | ended r live failed =>
    simp only [State.runTask]
    split_ifs
    · exact (hkeep (by simp)).trans (setHandle_alike ⟨rfl, rfl, rfl, id, rfl⟩)
    · exact hkeep (by simp)
  | stdinEnd h₀ =>
    intro h hu
    by_cases hh : h = h₀
    · subst hh
      revert hu
      cases hx : (s.handle h).unreffed <;> simp [State.runTask, State.refHandle, Unreffed, hx]
    · have hhandle : (State.runTask { s with loop := { s.loop with posts := rest } }
          (.stdinEnd h₀)).handle h = s.handle h := by
        simp only [State.runTask, State.refHandle]
        split_ifs <;> simp [hh]
      have hqueues : ∀ t, t = State.runTask { s with loop := { s.loop with posts := rest } }
          (.stdinEnd h₀) → t.ticks = s.ticks ∧ t.phase = s.phase ∧ t.loop.posts = rest := by
        rintro t rfl
        simp only [State.runTask, State.refHandle]
        split_ifs <;> exact ⟨rfl, rfl, rfl⟩
      obtain ⟨hticks, hphase, hposts⟩ := hqueues _ rfl
      have hmem : Task.stdinEnd h ∈ s.loop.posts ↔ Task.stdinEnd h ∈ rest := by
        simp [ht, hh]
      simp only [Unreffed, Undoing, hhandle, hticks, hphase, hposts, hmem] at hu ⊢
      exact ⟨hu, id⟩

end Keeps

namespace State

/-! ### Who holds a pending -/

variable {h r : ℕ}

lemma Holds.of_reg (hh : s.Holds h) (hreg : s'.reg = s.reg) (hregs : s'.regs = s.regs) :
    s'.Holds h := by
  rwa [Holds, hreg, hregs]

lemma Holds.register (hh : s.Holds h) (h' : ℕ) (stage : Stage) : (s.register h' stage).Holds h := by
  obtain ⟨r, hr, ho, hs⟩ := hh
  exact ⟨r, Nat.lt_succ_of_lt hr, by simpa [Nat.ne_of_lt hr] using ho,
    by simpa [Nat.ne_of_lt hr] using hs⟩

lemma Holds.setReg (hh : s.Holds h) {y : Registration} (ho : y.owner = (s.reg r).owner)
    (hy : y.stage = .released → (s.reg r).stage = .released) : (s.setReg r y).Holds h := by
  obtain ⟨r', hr', ho', hs'⟩ := hh
  refine ⟨r', hr', ?_, ?_⟩
  all_goals
    by_cases hne : r' = r
    · subst hne
      simp only [setReg_reg, Function.update_self]
      first
        | exact ho.trans ho'
        | exact fun hy' => hs' (hy hy')
    · simpa [hne] using ‹_›

lemma Holds.setReg_or (hh : s.Holds h) (r : ℕ) (y : Registration) :
    (s.setReg r y).Holds h ∨ (s.reg r).owner = h ∧ s.Last r := by
  obtain ⟨r', hr', ho', hs'⟩ := hh
  by_cases hother : ∃ r'' < s.regs, r'' ≠ r ∧ (s.reg r'').owner = h ∧ (s.reg r'').stage ≠ .released
  · obtain ⟨r'', hr'', hne, ho'', hs''⟩ := hother
    exact .inl ⟨r'', hr'', by simpa [hne] using ho'', by simpa [hne] using hs''⟩
  · have honly : ∀ r'' < s.regs, (s.reg r'').owner = h → (s.reg r'').stage ≠ .released → r'' = r :=
      fun r'' hr'' ho'' hs'' => by_contra fun hne => hother ⟨r'', hr'', hne, ho'', hs''⟩
    obtain rfl := honly r' hr' ho' hs'
    exact .inr ⟨ho', fun r'' hr'' ho'' => honly r'' hr'' (ho''.trans ho')⟩

lemma Holds.release (hh : s.Holds h) (r : ℕ) :
    (s.release r).Holds h ∨ (s.reg r).owner = h ∧ s.Last r :=
  (hh.setReg_or r { s.reg r with stage := .released }).imp_left fun hh' => hh'.of_reg rfl rfl

lemma refHandle_reg (s : State) (h : ℕ) :
    (s.refHandle h).reg = s.reg ∧ (s.refHandle h).regs = s.regs := by
  unfold refHandle
  split_ifs <;> exact ⟨rfl, rfl⟩

lemma fireClose_reg (s : State) (h : ℕ) :
    (s.fireClose h).reg = s.reg ∧ (s.fireClose h).regs = s.regs := by
  unfold fireClose
  split_ifs
  · exact refHandle_reg _ h
  · exact ⟨rfl, rfl⟩

lemma emitClose_reg (s : State) (h : ℕ) :
    (s.emitClose h).reg = s.reg ∧ (s.emitClose h).regs = s.regs := by
  simp only [emitClose]
  split_ifs
  · exact fireClose_reg _ h
  · exact ⟨rfl, rfl⟩

end State

/-! ### Changes -/

/-- A change that keeps the books and the `ref`s on their way. Only the handles in `lost` may lose
their pending. -/
structure Moves (lost : Set ℕ) (s s' : State) : Prop where
  books : Books s'
  keeps : Keeps s s'
  holds : ∀ h, s.Holds h → s'.Holds h ∨ h ∈ lost

namespace Moves

variable {lost : Set ℕ} {h r : ℕ} {x : Handle} {y : Registration} {stage : Stage}

lemma of_reg (hb : Books s') (hk : Keeps s s') (hreg : s'.reg = s.reg) (hregs : s'.regs = s.regs) :
    Moves lost s s' :=
  ⟨hb, hk, fun _ hh => .inl (hh.of_reg hreg hregs)⟩

lemma andThen {s'' : State} (hm : Moves lost s s') (next : Books s' → Moves ∅ s' s'') :
    Moves lost s s'' := by
  obtain ⟨hb, hk, hholds⟩ := next hm.books
  refine ⟨hb, hm.keeps.trans hk, fun h hh => ?_⟩
  rcases hm.holds h hh with hh | hlost
  · exact .inl ((hholds h hh).resolve_right id)
  · exact .inr hlost

lemma mono {lost' : Set ℕ} (hm : Moves lost s s') (hsub : lost ⊆ lost') : Moves lost' s s' :=
  ⟨hm.books, hm.keeps, fun h hh => (hm.holds h hh).imp_right fun hlost => hsub hlost⟩

lemma setReg (hb : Books (s.setReg r y)) (ho : y.owner = (s.reg r).owner)
    (hy : y.stage = .released → (s.reg r).stage = .released) : Moves lost s (s.setReg r y) :=
  ⟨hb, .of_handle rfl (by simp) (by simp) fun hp _ _ => hp, fun _ hh => .inl (hh.setReg ho hy)⟩

lemma setReg_post {t : Task} (hb : Books ((s.setReg r y).post t)) (ho : y.owner = (s.reg r).owner)
    (hy : y.stage ≠ .released) : Moves lost s ((s.setReg r y).post t) :=
  ⟨hb, .of_handle rfl (by simp) (by simp +contextual [Loop.post]) fun hp _ _ => hp,
    fun _ hh => .inl ((hh.setReg ho fun h => absurd h hy).of_reg rfl rfl)⟩

variable (hb : Books s)
include hb

lemma refl : Moves lost s s := of_reg hb (.refl s) rfl rfl

lemma nextTick (t : Tick) : Moves lost s (s.nextTick t) :=
  of_reg (hb.congr rfl rfl rfl) (.of_handle rfl (by simp) (by simp) fun hp _ _ => hp) rfl rfl

lemma setHandle (hx : x.Alike (s.handle h))
    (hid : x.id = (s.handle h).id ∨ x.id = none) : Moves lost s (s.setHandle h x) :=
  of_reg (hb.setHandle hx.2.1 hx.1 hid) (.setHandle_alike hx) rfl rfl

lemma refHandle (h : ℕ) : Moves lost s (s.refHandle h) :=
  of_reg (hb.refHandle h) (.refHandle s h) (refHandle_reg s h).1 (refHandle_reg s h).2

lemma emitClose (h : ℕ) : Moves lost s (s.emitClose h) :=
  of_reg (hb.emitClose h) (.emitClose s h) (emitClose_reg s h).1 (emitClose_reg s h).2

lemma create (k : HandleKind) (allowHalfOpen : Bool) : Moves lost s (s.create k allowHalfOpen) := by
  refine of_reg (hb.create k allowHalfOpen) ?_ rfl rfl
  have hset : Keeps s (s.setHandle s.handles { kind := k, allowHalfOpen := allowHalfOpen }) :=
    .setHandle (l := s.loop) rfl (by simp)
  exact hset.trans
    (.of_handle rfl (by simp [State.create]) (by simp [State.create]) fun hp _ _ => hp)

lemma register (hh : h < s.handles) (hs : stage ∉ [Stage.released, Stage.posted]) :
    Moves lost s (s.register h stage) :=
  ⟨hb.register hh hs, .of_handle rfl (by simp) (by simp [Loop.addPending]) fun hp _ _ => hp,
    fun _ hh' => .inl (hh'.register h stage)⟩

lemma attach (hh : h < s.handles) (hs : stage ∉ [Stage.released, Stage.posted])
    (hk : (s.handle h).kind = .httpServer → stage = .serving) :
    Moves lost s (s.attach h stage) := by
  have hreg : Moves lost s (s.register h stage) := register hb hh hs
  exact ⟨hb.attach hh hs hk, hreg.keeps.trans (.setHandle_alike ⟨rfl, rfl, rfl, id, rfl⟩),
    fun h' hh' => (hreg.holds h' hh').imp_left fun hh' => hh'.of_reg rfl rfl⟩

lemma release (hr : r < s.regs)
    (hs : (s.reg r).stage ∉ [Stage.released, Stage.posted, Stage.serving]) :
    Moves {h | (s.reg r).owner = h ∧ s.Last r} s (s.release r) :=
  ⟨hb.release hr hs, .of_handle rfl (by simp) (by simp [Loop.donePending]) fun hp _ _ => hp,
    fun _ hh => hh.release r⟩

/-- `net_end` and `net_close` release the registration of a half-open connection. -/
lemma release_live (hr : r < s.regs) (hs : (s.reg r).stage = .halfOpen) :
    Moves {h | (s.reg r).stage = .halfOpen ∧ (s.reg r).owner = h ∧ s.Last r} s
      ((s.setReg r { s.reg r with live := false }).release r) := by
  refine ⟨Books.release (hb.setLive hr rfl rfl) hr (by simp [hs]),
    .of_handle rfl (by simp) (by simp [Loop.donePending]) fun hp _ _ => hp, fun h hh => ?_⟩
  rcases hh.setReg_or r { s.reg r with stage := .released, live := false } with hh | hlast
  · exact .inl (hh.of_reg (by simp [State.release, State.setReg]) rfl)
  · exact .inr ⟨hs, hlast⟩

lemma netEnd (hr : r < s.regs) :
    Moves {h | (s.reg r).stage = .halfOpen ∧ (s.reg r).owner = h ∧ s.Last r} s (s.netEnd r) := by
  unfold State.netEnd
  split_ifs with hl hs
  · exact release_live hb hr hs
  · exact setReg (hb.setLive hr rfl rfl) rfl id
  · exact refl hb

lemma netClose (hr : r < s.regs) :
    Moves {h | (s.reg r).stage = .halfOpen ∧ (s.reg r).owner = h ∧ s.Last r} s (s.netClose r) := by
  simp only [State.netClose]
  split_ifs with hs
  · exact release_live hb hr hs
  · exact setReg (hb.setLive hr rfl rfl) rfl id

end Moves

/-- The registration that a step releases. -/
def State.Releases (s : State) (r : ℕ) : Act → Prop
  | .release r' | .fails r' => r = r'
  | .runPost => ∃ t ∈ s.loop.posts.head?, r ∈ t.releases
  | .finish h | .destroy h _ => r ∈ (s.handle h).id ∧ (s.reg r).stage = .halfOpen
  | _ => False

/-- The handles that lose their pending in a step. -/
def State.Loses (s : State) (a : Act) : Set ℕ :=
  {h | ∃ r, s.Releases r a ∧ (s.reg r).owner = h ∧ s.Last r}

namespace Moves

variable {lost : Set ℕ} {h : ℕ}

variable (hb : Books s)
include hb

lemma destroy (h : ℕ) (unhandled : Bool) :
    Moves (s.Loses (.destroy h unhandled)) s (s.destroy h unhandled) := by
  have hrest {t : State} (ht : Moves (s.Loses (.destroy h unhandled)) s t) :
      Moves (s.Loses (.destroy h unhandled)) s (if (s.handle h).destroyed then t else
        let t' := t.setHandle h { t.handle h with destroyed := true }
        if unhandled then t' else t'.emitClose h) := by
    split_ifs
    · exact ht
    · exact ht.andThen fun hb => setHandle hb ⟨rfl, rfl, rfl, id, rfl⟩ (.inl rfl)
    · refine (ht.andThen fun hb => ?_).andThen fun hb => emitClose hb h
      exact setHandle hb ⟨rfl, rfl, rfl, id, rfl⟩ (.inl rfl)
  unfold State.destroy
  cases hid : (s.handle h).id with
  | none => exact hrest (refl hb)
  | some r =>
    refine hrest (((netClose hb (hb.ids h r hid).1).mono ?_).andThen fun hb =>
      setHandle hb ?_ (.inr rfl))
    · exact fun _ ⟨hst, hlast⟩ => ⟨r, ⟨hid, hst⟩, hlast⟩
    · rw [netClose_handle]
      exact ⟨rfl, rfl, rfl, id, rfl⟩

lemma finish (h : ℕ) : Moves (s.Loses (.finish h)) s (s.finish h) := by
  have hrest {t : State} (ht : Moves (s.Loses (.finish h)) s t) : Moves (s.Loses (.finish h)) s
      ((t.setHandle h { t.handle h with finished := true }).nextTick (.finish h)) := by
    refine (ht.andThen fun hb => ?_).andThen fun hb => nextTick hb _
    exact setHandle hb ⟨rfl, rfl, rfl, id, rfl⟩ (.inl rfl)
  unfold State.finish
  cases hid : (s.handle h).id with
  | none => exact hrest (refl hb)
  | some r =>
    refine hrest ((netEnd hb (hb.ids h r hid).1).mono ?_)
    exact fun _ ⟨hst, hlast⟩ => ⟨r, ⟨hid, hst⟩, hlast⟩

lemma close (h : ℕ) : Moves lost s (s.close h) := by
  unfold State.close
  split
  · exact refl hb
  next r hid =>
    obtain ⟨hr, ho⟩ := hb.ids h r hid
    obtain ⟨hreg, hregs⟩ := refHandle_reg s h
    have hnone : Moves lost s
        ((s.refHandle h).setHandle h { (s.refHandle h).handle h with id := none }) :=
      (refHandle hb h).andThen fun hb => setHandle hb ⟨rfl, rfl, rfl, id, rfl⟩ (.inr rfl)
    split
    · refine Moves.andThen ?_ fun hb => nextTick hb _
      exact setHandle hb ⟨rfl, rfl, rfl, id, rfl⟩ (.inr rfl)
    next hk =>
      refine hnone.andThen fun hb' => setReg (hb'.setReg ?_ rfl ?_ ?_ fun h' hid' hk' => ?_) rfl ?_
      · rwa [setHandle_regs, hregs]
      · simp [hreg, hb.serving h r hid hk]
      · simp [hreg, hb.serving h r hid hk]
      · -- no handle has the id of the server that is shut down
        obtain ⟨-, howner⟩ := hb'.ids h' r hid'
        obtain rfl : h = h' := by
          rw [← howner, setHandle_reg, hreg, ho]
        simp at hid'
      · simp
    · exact hnone
    · exact hnone
    · exact refl hb

lemma runTask {t : Task} {rest : List Task} (ht : s.loop.posts = t :: rest) :
    Moves (s.Loses .runPost) s
      (State.runTask { s with loop := { s.loop with posts := rest } } t) := by
  refine ⟨hb.runTask ht, .runTask ht, fun h hh => ?_⟩
  have hpop : State.Holds { s with loop := { s.loop with posts := rest } } h := hh.of_reg rfl rfl
  have hrelease : ∀ r, t.releases = some r →
      (State.release { s with loop := { s.loop with posts := rest } } r).Holds h ∨
        h ∈ s.Loses .runPost := fun r hr =>
    (hpop.release r).imp_right fun hlast => ⟨r, ⟨t, by rw [ht]; rfl, hr⟩, hlast⟩
  cases t with
  | dialFailed r | dialAborted r | httpClosed r => exact hrelease r rfl
  | connected r | data r => exact .inl hpop
  | ended r live failed =>
    simp only [State.runTask]
    split_ifs
    · exact .inl (hpop.of_reg rfl rfl)
    · exact .inl hpop
  | stdinEnd h' => exact .inl (hpop.of_reg (refHandle_reg _ h').1 (refHandle_reg _ h').2)

lemma runTick {t : Tick} {rest : List Tick} (ht : s.ticks = t :: rest) :
    Moves lost s (State.runTick { s with ticks := rest } t) := by
  have hrest : Books { s with ticks := rest } := hb.congr rfl rfl rfl
  have hkeeps := Keeps.runTick ht
  cases t with
  | finish h =>
    refine of_reg (Books.emitClose (hrest.setHandle ?_ ?_ (.inl ?_)) h) hkeeps
      (emitClose_reg _ h).1 (emitClose_reg _ h).2 <;> rfl
  | close h => exact of_reg (hrest.fireClose h) hkeeps (fireClose_reg _ h).1 (fireClose_reg _ h).2

/-- Every step but an `unref`. -/
theorem step (hs : step s a = some s') (ha : ∀ h, a ≠ .unref h) : Moves (s.Loses a) s s' := by
  cases a with
  | create k allowHalfOpen =>
    obtain ⟨-, rfl⟩ := of_not_guard hs
    exact create hb k allowHalfOpen
  | connect h =>
    obtain ⟨⟨hh, hk⟩, rfl⟩ := of_guard hs
    refine attach hb hh (by simp) fun hk' => ?_
    simp [hk', HandleKind.isSocket] at hk
  | accept tls allowHalfOpen =>
    cases hs
    refine (create hb _ allowHalfOpen).andThen fun hb =>
      attach hb (Nat.lt_succ_self _) (by simp) fun hk => ?_
    cases tls <;> simp [State.create] at hk
  | listen h =>
    simp only [Handles.step] at hs
    split_ifs at hs with hh
    split at hs
    all_goals cases hs
    all_goals exact attach hb hh (by simp) (by simp_all)
  | bind h =>
    obtain ⟨⟨hh, hk⟩, rfl⟩ := of_guard hs
    exact attach hb hh (by simp) (by simp [hk])
  | startStdin =>
    simp only [Handles.step] at hs
    split_ifs at hs
    all_goals cases hs
    · exact refl hb
    · refine Moves.andThen ?_ fun hb' => register hb' hb.stdin (by simp)
      exact setHandle hb ⟨rfl, rfl, rfl, id, rfl⟩ (.inl rfl)
    · exact setHandle hb ⟨rfl, rfl, rfl, id, rfl⟩ (.inl rfl)
  | ref h =>
    obtain ⟨-, rfl⟩ := of_guard hs
    exact refHandle hb h
  | unref h => exact absurd rfl (ha h)
  | endWrite h =>
    obtain ⟨-, rfl⟩ := of_guard hs
    exact setHandle hb ⟨rfl, rfl, rfl, id, rfl⟩ (.inl rfl)
  | finish h =>
    obtain ⟨-, rfl⟩ := of_guard hs
    exact finish hb h
  | emitEnd h =>
    obtain ⟨-, rfl⟩ := of_guard hs
    refine Moves.andThen ?_ fun hb => emitClose hb h
    exact setHandle hb ⟨rfl, rfl, rfl, fun _ => rfl, rfl⟩ (.inl rfl)
  | destroy h unhandled =>
    obtain ⟨-, rfl⟩ := of_guard hs
    exact destroy hb h unhandled
  | close h =>
    obtain ⟨-, rfl⟩ := of_guard hs
    exact close hb h
  | dialFail r | shutdownDone r =>
    obtain ⟨⟨hr, hst⟩, rfl⟩ := of_guard hs
    exact setReg_post (hb.post_release hr rfl rfl (by simp [hst]) rfl) rfl (by simp)
  | dialOk r =>
    simp only [Handles.step] at hs
    split_ifs at hs with hr hl
    all_goals cases hs
    · refine setReg_post (Books.post (hb.setStage hr.1 ?_ ?_ ?_) rfl) ?_ ?_ <;> simp [hr.2]
    · exact setReg_post (hb.post_release hr.1 rfl rfl (by simp [hr.2]) rfl) rfl (by simp)
  | readData r =>
    obtain ⟨-, rfl⟩ := of_guard hs
    exact of_reg (hb.post rfl)
      (.of_handle rfl (by simp) (by simp +contextual [Loop.post]) fun hp _ _ => hp) rfl rfl
  | readEof r =>
    simp only [Handles.step] at hs
    split_ifs at hs with hr hl
    all_goals cases hs
    all_goals
      refine setReg_post (Books.post (hb.setStage hr.1 ?_ ?_ ?_) rfl) ?_ ?_ <;> simp [hr.2]
  | readErr r | stdinEof r =>
    obtain ⟨⟨hr, hst⟩, rfl⟩ := of_guard hs
    refine setReg_post (Books.post (hb.setStage hr ?_ ?_ ?_) rfl) ?_ ?_ <;> simp [hst]
  | fails r =>
    obtain ⟨⟨hr, hst⟩, rfl⟩ := of_guard hs
    refine (release hb hr ?_).mono fun _ hlast => ⟨r, rfl, hlast⟩
    rcases hst with hst | hst <;> simp [hst]
  | release r =>
    obtain ⟨⟨hr, hst⟩, rfl⟩ := of_guard hs
    exact (release hb hr (by simp [hst])).mono fun _ hlast => ⟨r, rfl, hlast⟩
  | addOther =>
    cases hs
    refine of_reg { hb with pending := ?_ }
      (.of_handle rfl (by simp) (by simp [Loop.addPending]) fun hp _ _ => hp) rfl rfl
    simp only [Loop.addPending, hb.pending]
    push_cast
    ring
  | doneOther =>
    obtain ⟨hpos, rfl⟩ := of_guard hs
    refine of_reg { hb with pending := ?_ }
      (.of_handle rfl (by simp) (by simp [Loop.donePending]) fun hp _ _ => hp) rfl rfl
    have := hb.pending
    simp only [Loop.donePending]
    omega
  | runPost =>
    simp only [Handles.step] at hs
    split at hs
    next hposts =>
      cases hs
      exact runTask hb hposts
    · cases hs
  | runTick =>
    simp only [Handles.step] at hs
    split at hs
    next hticks =>
      cases hs
      exact runTick hb hticks
    · cases hs
  | postsDone =>
    obtain ⟨⟨-, hposts⟩, rfl⟩ := of_guard hs
    -- there is no post left to run
    refine of_reg (hb.congr rfl rfl rfl) (.of_handle rfl (by simp) (by simp) fun _ h hpost => ?_)
      rfl rfl
    rw [hposts] at hpost
    cases hpost
  | evaluate =>
    obtain ⟨⟨hphase, -⟩, rfl⟩ := of_guard hs
    refine of_reg (hb.congr rfl rfl rfl) (.of_handle rfl (by simp) (by simp) fun hp => ?_) rfl rfl
    rw [hphase] at hp
    cases hp
  | turn =>
    cases hs
    exact of_reg (hb.congr rfl rfl rfl)
      (.of_handle rfl (by simp) (by simp) fun _ _ _ => rfl) rfl rfl
  | timer op =>
    cases hs
    obtain ⟨hpending, hunref, hposts⟩ := op.run_frame s.loop
    exact of_reg (hb.congr hpending hunref hposts)
      (.of_handle rfl (by simp) (by simp [hposts]) fun hp _ _ => hp) rfl rfl

end Moves

theorem State.Books.step (hb : Books s) (hs : step s a = some s') : Books s' := by
  by_cases ha : ∃ h, a = .unref h
  · obtain ⟨h, rfl⟩ := ha
    have hs := of_guard hs
    exact hs.2 ▸ hb.unrefHandle hs.1
  · exact (Moves.step hb hs fun h heq => ha ⟨h, heq⟩).books

/-! ### Runs -/

variable {h : ℕ}

/-- An unref'd handle holds its pending, or its `ref` is on its way. -/
def Fine (s : State) : Prop := ∀ h, s.Unreffed h → s.Holds h ∨ s.Undoing h

lemma fine_init (hasStdin : Bool) : Fine (init hasStdin) := fun _ hu => by
  simp [Unreffed, init] at hu

/-- `unref` of a handle that holds its pending. -/
lemma Fine.unrefHandle (hf : Fine s)
    (hholds : (s.handle h).unreffed = false → (s.handle h).canUnref = true → s.Holds h) :
    Fine (s.unrefHandle h) := by
  simp only [State.unrefHandle]
  split_ifs with hcan
  · simp only [Bool.and_eq_true, Bool.not_eq_true'] at hcan
    intro h' hu
    by_cases hh : h' = h
    · subst hh
      exact .inl ((hholds hcan.1 hcan.2).of_reg rfl rfl)
    · simp only [Unreffed, setHandle_handle, Function.update_of_ne hh] at hu
      refine (hf h' hu).imp (fun hh' => hh'.of_reg rfl rfl) fun hundo => ?_
      simpa [Undoing, hh, Loop.unref] using hundo
  · exact hf

lemma Compensated.undoing (hb : Books s) (hc : Compensated s a) (hs : step s a = some s') {r : ℕ}
    (hr : s.Releases r a) (ho : (s.reg r).owner = h) (hl : s.Last r) (hu : s'.Unreffed h)
    (hk : Keeps s s') : s'.Undoing h := by
  have hu' : s.Unreffed h := (hk h hu).1
  cases a with
  | release r' | fails r' =>
    obtain rfl : r = r' := hr
    exact (hk h hu).2 (ho ▸ hc hl (ho ▸ hu'))
  | runPost =>
    obtain ⟨t, ht, hrt⟩ := hr
    exact (hk h hu).2 (ho ▸ hc t ht r hrt hl (ho ▸ hu'))
  | finish h' =>
    obtain ⟨hid, hst⟩ := hr
    obtain rfl : h' = h := (hb.ids h' r hid).2.symm.trans ho
    obtain ⟨harmed, hend, hemit⟩ := hc r hid hst hl hu'
    obtain ⟨-, rfl⟩ := of_guard hs
    rw [Option.mem_def] at hid
    exact .inl ⟨by simp [State.finish, hid, netEnd_handle, harmed], .inr ⟨by simp [State.finish],
      by simp [State.finish, hid, netEnd_handle, hend],
      by simp [State.finish, hid, netEnd_handle, hemit]⟩⟩
  | destroy h' unhandled =>
    obtain ⟨hid, hst⟩ := hr
    obtain rfl : h' = h := (hb.ids h' r hid).2.symm.trans ho
    obtain ⟨harmed, hdestroyed, hemit, rfl⟩ := hc r hid hst hl hu'
    obtain ⟨-, rfl⟩ := of_guard hs
    -- 'close' has been emitted
    rw [Option.mem_def] at hid
    simp only [Unreffed, State.destroy, hid, hdestroyed, State.emitClose, setHandle_handle,
      Function.update_self, hemit, Bool.not_false, Bool.or_true, Bool.and_self, if_true,
      Bool.false_eq_true, if_false] at hu
    rw [fireClose_eq (by simpa using harmed)] at hu
    simp at hu
  | _ => exact hr.elim

/-- A compensated step keeps the handles fine. -/
theorem Fine.step (hb : Books s) (hf : Fine s) (hc : Compensated s a) (hs : step s a = some s') :
    Fine s' := by
  by_cases ha : ∃ h, a = .unref h
  · obtain ⟨h, rfl⟩ := ha
    obtain ⟨-, rfl⟩ := of_guard hs
    exact hf.unrefHandle hc
  · have hm := Moves.step hb hs fun h heq => ha ⟨h, heq⟩
    intro h hu
    obtain ⟨hu', hundo⟩ := hm.keeps h hu
    rcases hf h hu' with hh | hundoing
    · rcases hm.holds h hh with hh' | ⟨r, hr, ho, hl⟩
      · exact .inl hh'
      · exact .inr (hc.undoing hb hs hr ho hl hu hm.keeps)
    · exact .inr (hundo hundoing)

/-- The count is right exactly if no handle is unref'd that has lost its pending. -/
theorem State.Books.balanced_iff (hb : Books s) :
    s.Balanced ↔ ∀ h, s.Unreffed h → s.Holds h := by
  rw [State.Balanced, hb.unref]
  refine (Counting.count_and_eq_iff (p := s.Unreffed) (q := s.Holds)).trans ?_
  exact ⟨fun hall h hu => hall h (hb.known h hu) hu, fun hall h _ hu => hall h hu⟩

/-- Where the count is right, a loop that goes idle leaves no handle that is ref'd and holds a
pending. -/
theorem State.Books.unreffed_of_idle (hb : Books s) (hbal : s.Balanced) (hidle : s.loop.Idle)
    (hh : s.Holds h) : s.Unreffed h := by
  classical
  by_contra hu
  obtain ⟨r, hr, ho, hs⟩ := hh
  -- the registrations of unref'd handles, and all of them
  let mine := (Finset.range s.regs).filter fun r =>
    (s.reg r).stage ≠ .released ∧ s.Unreffed (s.reg r).owner
  let all := (Finset.range s.regs).filter fun r => (s.reg r).stage ≠ .released
  have hlt : mine.card < all.card := by
    refine Finset.card_lt_card ⟨fun r' hr' => ?_, fun hsub => ?_⟩
    · simp only [mine, all, Finset.mem_filter] at hr' ⊢
      exact ⟨hr'.1, hr'.2.1⟩
    · have := hsub (show r ∈ all by simp [all, hr, hs])
      simp only [mine, Finset.mem_filter, ho] at this
      exact hu this.2.2
  have hle : ((Finset.range s.handles).filter fun h => s.Unreffed h ∧ s.Holds h).card ≤
      mine.card := by
    refine (Finset.card_le_card fun h' hh' => ?_).trans
      (Finset.card_image_le (f := fun r => (s.reg r).owner))
    obtain ⟨-, hu', r', hr', ho', hs'⟩ := Finset.mem_filter.mp hh'
    refine Finset.mem_image.mpr ⟨r', ?_, ho'⟩
    simp only [mine, Finset.mem_filter, Finset.mem_range, ho']
    exact ⟨hr', hs', hu'⟩
  have hunref : s.loop.unrefPending =
      ((Finset.range s.handles).filter fun h => s.Unreffed h ∧ s.Holds h).card := by
    rw [← Nat.count_eq_card_filter_range]
    exact hbal
  have hpending : s.loop.pending = all.card + s.others := by
    rw [hb.pending, Nat.count_eq_card_filter_range]
  have := hidle.2.1
  omega

/-- In a run of compensated steps the count is right whenever the loop looks at it, and the loop
does not go idle over a handle that is ref'd. -/
theorem unrefPending_balanced {hasStdin : Bool} {acts : List Act}
    (hrun : Machine.run step (init hasStdin) acts = some s)
    (hc : Machine.Obeys step Compensated (init hasStdin) acts)
    (heval : step s .evaluate = some s') :
    s.Balanced ∧ (s'.phase = .returned → ∀ h, s.Holds h → s.Unreffed h) := by
  obtain ⟨hb, hf⟩ : Books s ∧ Fine s :=
    run_invariant (I := fun s => Books s ∧ Fine s)
      (fun _ _ _ hI hc hs => ⟨hI.1.step hs, hI.2.step hI.1 hc hs⟩)
      ⟨books_init hasStdin, fine_init hasStdin⟩ hc hrun
  obtain ⟨⟨hphase, hticks⟩, rfl⟩ := of_guard heval
  have hbal : s.Balanced := hb.balanced_iff.mpr fun h hu => by
    refine (hf h hu).resolve_right ?_
    rintro (⟨-, hclose | ⟨hfinish, -⟩⟩ | ⟨htasks, -⟩)
    · simp [hticks] at hclose
    · simp [hticks] at hfinish
    · simp [hphase] at htasks
  refine ⟨hbal, fun hret h hh => hb.unreffed_of_idle hbal ?_ hh⟩
  by_contra hidle
  simp [hidle] at hret

/-- A socket and a datagram socket are unref'd and closed in time; a server keeps the loop alive. -/
def tidyRun : List Act :=
  [.create .netServer false, .listen 1, .create .socket false, .connect 2, .create .dgram false,
    .bind 3, .unref 2, .unref 3, .dialOk 1, .runPost, .readEof 1, .runPost, .emitEnd 2, .finish 2,
    .runTick, .close 3, .fails 2, .runTick, .postsDone]

theorem tidyRun_balanced : ∃ s s', Machine.run step (init false) tidyRun = some s ∧
    step s .evaluate = some s' ∧ s.Balanced ∧ s'.phase = .tasks := by
  obtain ⟨s, hrun, hs⟩ := (Option.any_eq_true
    (fun s : State => (step s .evaluate).any fun s' : State => decide (s'.phase = .tasks))
    (Machine.run step (init false) tidyRun)).mp (by decide)
  obtain ⟨s', heval, hphase⟩ := (Option.any_eq_true _ _).mp hs
  have hc : Machine.Obeys step Compensated (init false) tidyRun := by decide
  exact ⟨s, s', hrun, heval, (unrefPending_balanced hrun hc heval).1, of_decide_eq_true hphase⟩

/-- A socket is unref'd while its dial is in flight, and the dial fails. Nobody destroys the
socket. -/
def failedDial : List Act :=
  [.create .netServer false, .listen 1, .create .socket false, .connect 2, .unref 2, .dialFail 1,
    .runPost, .postsDone]

/-- The loop goes idle while the server listens. -/
theorem failedDial_unbalanced : ∃ s s', Machine.run step (init false) failedDial = some s ∧
    step s .evaluate = some s' ∧ ¬ s.Balanced ∧
      s'.phase = .returned ∧ s.Holds 1 ∧ ¬ s.Unreffed 1 := by
  obtain ⟨s, hrun, hs⟩ := (Option.any_eq_true
    (fun s : State => (step s .evaluate).any fun s' : State =>
      decide (¬ s.Balanced ∧ s'.phase = .returned ∧
      s.Holds 1 ∧ ¬ s.Unreffed 1))
    (Machine.run step (init false) failedDial)).mp (by decide)
  obtain ⟨s', heval, hbad⟩ := (Option.any_eq_true _ _).mp hs
  exact ⟨s, s', hrun, heval, of_decide_eq_true hbad⟩

end GoSpidermonkey.Nodejs.Handles
