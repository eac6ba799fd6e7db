import GoSpidermonkey.Nodejs.Stream

/-!
# The life of a stream

What decides the order of the events of a stream is little: which flags are set, and what is already
on its way. `'end'` is on its way while `_flowNow` is past its last look at `destroyed`; `'finish'`
once `_maybeFinish` has committed to it; `'drain'` while a write is to be completed and the stream
has asked its writer to wait.

A `Move` is what one piece of the code does to that. A stream that is destroyed only when nothing is
on its way (`Settled`) emits nothing after `'close'`.
-/

namespace GoSpidermonkey.Nodejs.Stream

inductive Sign
  | data | readable | end | finish | drain | close
deriving DecidableEq

/-- What there is of a stream. A half that the stream does not have counts as ended. -/
structure Life where
  signs : List Sign
  destroyed : Bool
  closed : Bool
  readDestroyed : Bool
  writeDestroyed : Bool
  ended : Bool
  endEmitted : Bool
  stocked : Bool
  task : Option Task
  ending : Bool
  finished : Bool
  finishEmitted : Bool
  needDrain : Bool
  /-- How often `'finish'` will be emitted. -/
  finishes : ℕ
  completes : ℕ
  /-- How many calls of `write` have not returned. -/
  returns : ℕ
  /-- How often `destroy` will close the stream. -/
  closes : ℕ

namespace Life

variable {strict : Prop} {l l' : Life}

/-- `'end'` is on its way. -/
def EndDue (l : Life) : Prop :=
  l.task = some .flowEnd ∨ l.task = some .flowRead ∧ l.ended = true

/-- No `'drain'` is on its way. -/
def Drained (l : Life) : Prop :=
  l.ending = true ∨ (l.needDrain = false ∧ l.returns = 0) ∨ l.completes = 0

/-- Nothing is on its way. -/
def Settled (l : Life) : Prop := ¬ l.EndDue ∧ l.finishes = 0 ∧ l.Drained

instance : Decidable l.EndDue := inferInstanceAs (Decidable (_ ∨ _))

instance : Decidable l.Drained := inferInstanceAs (Decidable (_ ∨ _))

instance : Decidable l.Settled := inferInstanceAs (Decidable (_ ∧ _))

/-- What is on its way has become less: frames have run, or there was an exception. -/
structure Drops (l l' : Life) : Prop where
  same : l' = { l with
    task := l'.task
    finishes := l'.finishes
    completes := l'.completes
    returns := l'.returns
    closes := l'.closes }
  task : l'.task = l.task ∨ l'.task ≠ some .flowEnd ∧ l'.task ≠ some .flowRead
  finishes : l'.finishes ≤ l.finishes
  completes : l'.completes ≤ l.completes
  returns : l'.returns ≤ l.returns
  closes : l'.closes ≤ l.closes

/-- What pieces of the code do. A strict life obeys the condition on the steps. -/
inductive Move (strict : Prop) (l : Life) : Life → Prop
  | drop {l' : Life} (h : Drops l l') : Move strict l l'
  | push (hd : l.readDestroyed = false) (he : l.ended = false) (more : List Sign)
      (hmore : more = [] ∨ more = [.readable]) :
      Move strict l { l with stocked := true, signs := l.signs ++ more }
  | unshift (h : strict → l.endEmitted = false) : Move strict l { l with stocked := true }
  | pushEnd (hd : l.readDestroyed = false) : Move strict l { l with ended := true }
  | take (stocked : Bool) (h : stocked = true → l.stocked = true) : Move strict l { l with stocked }
  | readable (hd : l.readDestroyed = false) (he : l.endEmitted = false) :
      Move strict l { l with signs := l.signs ++ [.readable] }
  | data (hd : l.readDestroyed = false) (h : l.stocked = true) (stocked : Bool) :
      Move strict l { l with stocked, task := some .flowLoop, signs := l.signs ++ [.data] }
  | callRead (hd : l.readDestroyed = false) : Move strict l { l with task := some .flowRead }
  /-- `_flowNow` gets to the end, which the decoder may put off. -/
  | reachEnd (h : l.task = some .flowRead ∨ l.readDestroyed = false) (hended : l.ended = true)
      (hstock : l.stocked = false) (hemitted : l.endEmitted = false) (sign : Sign) (task : Task)
      (hsign : sign = .end ∧ task = .emitClose ∨ sign = .data ∧ task = .flowEnd) :
      Move strict l { l with endEmitted := true, task := some task, signs := l.signs ++ [sign] }
  | end (h : l.task = some .flowEnd) :
      Move strict l { l with task := some .emitClose, signs := l.signs ++ [.end] }
  | write (hd : l.writeDestroyed = false) : Move strict l { l with returns := l.returns + 1 }
  | process (hd : l.writeDestroyed = false) : Move strict l { l with completes := l.completes + 1 }
  | askToWait (h : 0 < l.returns) : Move strict l { l with needDrain := true }
  | drain (h : 0 < l.completes) (hneed : l.needDrain = true) (he : l.ending = false) :
      Move strict l { l with needDrain := false, signs := l.signs ++ [.drain] }
  | endWrites : Move strict l { l with ending := true }
  | commit (hd : l.writeDestroyed = false) (he : l.ending = true) (hf : l.finished = false) :
      Move strict l { l with finished := true, finishes := l.finishes + 1 }
  | finish (h : 0 < l.finishes) :
      Move strict l { l with
        finishEmitted := true
        finishes := l.finishes - 1
        task := some .emitClose
        signs := l.signs ++ [.finish] }
  | destroy (h : strict → l.destroyed = false → l.Settled) :
      Move strict l { l with
        destroyed := true
        readDestroyed := true
        writeDestroyed := true
        closes := l.closes + 1 }
  | close (h : 0 < l.closes ∨ l.task = some .emitClose) (hc : l.closed = false)
      (hr : l.endEmitted = true ∨ l.readDestroyed = true)
      (hw : l.finishEmitted = true ∨ l.writeDestroyed = true) :
      Move strict l { l with closed := true, signs := l.signs ++ [.close] }

abbrev Moves (strict : Prop) : Life → Life → Prop := Relation.ReflTransGen (Move strict)

lemma Move.moves (h : Move strict l l') : Moves strict l l' := .single h

/-- Nothing gets on its way with `'close'`. -/
lemma Drops.close (h : Drops l l') :
    Drops { l with closed := true, signs := l.signs ++ [.close] }
      { l' with closed := true, signs := l'.signs ++ [.close] } where
  __ := h
  same := by
    rw [h.same]

/-- Nothing gets on its way with `'drain'`, or when the stream asks for it. -/
lemma Drops.needDrain (h : Drops l l') (needDrain : Bool) (more : List Sign) :
    Drops { l with needDrain, signs := l.signs ++ more }
      { l' with needDrain, signs := l'.signs ++ more } where
  __ := h
  same := by
    rw [h.same]

/-! ### `'close'` is emitted once -/

/-- `closed` counts the `'close'`s. -/
def Counted (l : Life) : Prop := l.signs.count .close = l.closed.toNat

lemma Counted.move (h : l.Counted) (hm : Move strict l l') : l'.Counted := by
  unfold Counted at h ⊢
  cases hm with
  | drop hdrop =>
    rw [hdrop.same]
    exact h
  | push _ _ more hmore => rcases hmore with rfl | rfl <;> simpa using h
  | reachEnd _ _ _ _ sign task hsign =>
    rcases hsign with ⟨rfl, rfl⟩ | ⟨rfl, rfl⟩ <;> simpa using h
  | close _ hc =>
    rw [hc] at h
    simpa using h
  | readable | data | «end» | drain | finish => simpa using h
  | _ => exact h

lemma Counted.moves (h : l.Counted) (hm : Moves strict l l') : l'.Counted := by
  induction hm with
  | refl => exact h
  | tail _ hmove ih => exact ih.move hmove

/-! ### `'close'` is emitted last -/

/-- What holds in a strict life. -/
structure Orderly (l : Life) : Prop where
  readMarked : l.readDestroyed = l.destroyed
  writeMarked : l.writeDestroyed = l.destroyed
  ended : l.endEmitted = true → l.ended = true ∧ (l.destroyed = true ∨ l.stocked = false)
  ending : l.finished = true → l.ending = true
  finished : l.finishEmitted = true → l.finished = true
  /-- `'finish'` is on its way at most once, and only before it is emitted. -/
  finishes : l.finishes ≤ 1
  finishing : 0 < l.finishes → l.finished = true ∧ l.finishEmitted = false
  settled : l.destroyed = true → l.Settled
  closes : 0 < l.closes → l.destroyed = true
  closed : l.closed = true →
    l.destroyed = true ∨ l.endEmitted = true ∧ l.finishEmitted = true ∧ l.task ≠ some .flowEnd
  sign : .close ∈ l.signs → l.closed = true
  last : .close ∉ l.signs.dropLast

lemma Settled.drop (h : l.Settled) (hdrop : Drops l l') : l'.Settled := by
  obtain ⟨hend, hfinishes, hdrained⟩ := h
  refine ⟨?_, Nat.le_zero.mp (hfinishes ▸ hdrop.finishes), ?_⟩
  · have hended : l'.ended = l.ended := by rw [hdrop.same]
    rw [EndDue, hended]
    rcases hdrop.task with heq | ⟨hne, hne'⟩
    · rw [heq]
      exact hend
    · simp [hne, hne']
  · have hending : l'.ending = l.ending := by rw [hdrop.same]
    have hneed : l'.needDrain = l.needDrain := by rw [hdrop.same]
    rw [Drained, hending, hneed]
    rcases hdrained with he | ⟨hn, hret⟩ | hcomp
    · exact .inl he
    · exact .inr (.inl ⟨hn, Nat.le_zero.mp (hret ▸ hdrop.returns)⟩)
    · exact .inr (.inr (Nat.le_zero.mp (hcomp ▸ hdrop.completes)))

namespace Orderly

variable (h : l.Orderly)
include h

/-- A stream that has its `'end'` or its `'finish'` still to come is not closed unless it is
destroyed. -/
lemma not_closed (hd : l.destroyed = false)
    (hopen : l.endEmitted = false ∨ l.finishEmitted = false ∨ l.task = some .flowEnd) :
    l.closed = false := by
  by_contra hc
  rcases h.closed (by simpa using hc) with hd' | ⟨he, hf, ht⟩
  · simp [hd] at hd'
  · simp [he, hf, ht] at hopen

lemma not_destroyed (hdue : ¬ l.Settled) : l.destroyed = false := by
  by_contra hd
  exact hdue (h.settled (by simpa using hd))

lemma emit (hc : l.closed = false) {e : Sign} (he : e ≠ .close) :
    Orderly { l with signs := l.signs ++ [e] } where
  __ := h
  sign := by
    intro hmem
    rcases List.mem_append.mp hmem with hmem | hmem
    · exact h.sign hmem
    · exact absurd (List.mem_singleton.mp hmem).symm he
  last := by
    rw [List.dropLast_concat]
    intro hmem
    simp [h.sign hmem] at hc

omit h in
/-- A stream with something on its way is not destroyed, so what settles it does not matter. -/
lemma settled_of_open (hd : l.destroyed = false) : l.destroyed = true → l'.Settled := by
  simp [hd]

lemma drop (hdrop : Drops l l') : l'.Orderly := by
  rw [hdrop.same]
  exact { h with
    finishes := hdrop.finishes.trans h.finishes
    finishing := fun hpos => h.finishing (hpos.trans_le hdrop.finishes)
    settled := by
      intro hd
      rw [← hdrop.same]
      exact (h.settled hd).drop hdrop
    closes := fun hpos => h.closes (hpos.trans_le hdrop.closes)
    closed := by
      intro hclosed
      refine (h.closed hclosed).imp_right fun ⟨he, hfin, ht⟩ => ⟨he, hfin, ?_⟩
      rcases hdrop.task with heq | ⟨hne, -⟩
      · exact heq ▸ ht
      · exact hne }

lemma reachEnd (hflow : l.task = some .flowRead ∨ l.readDestroyed = false)
    (hended : l.ended = true) (hstock : l.stocked = false) (hemitted : l.endEmitted = false)
    {sign : Sign} (hsign : sign ≠ .close) {task : Task} :
    Orderly { l with endEmitted := true, task := some task, signs := l.signs ++ [sign] } := by
  have hd : l.destroyed = false := by
    rcases hflow with ht | hd
    · exact h.not_destroyed fun hs => hs.1 (.inr ⟨ht, hended⟩)
    · exact h.readMarked ▸ hd
  have hc := h.not_closed hd (.inl hemitted)
  exact { h.emit hc hsign with
    ended := fun _ => ⟨hended, .inr hstock⟩
    settled := settled_of_open hd
    closed := by simp [hc] }

lemma end_ (ht : l.task = some .flowEnd) :
    Orderly { l with task := some .emitClose, signs := l.signs ++ [.end] } := by
  have hd := h.not_destroyed fun hs => hs.1 (.inl ht)
  have hc := h.not_closed hd (.inr (.inr ht))
  exact { h.emit hc (e := .end) (by simp) with
    settled := settled_of_open hd
    closed := by simp [hc] }

lemma drain (hcomp : 0 < l.completes) (hneed : l.needDrain = true) (he : l.ending = false) :
    Orderly { l with needDrain := false, signs := l.signs ++ [.drain] } := by
  have hdue : ¬ l.Settled := by
    rintro ⟨-, -, hend | ⟨hn, -⟩ | hcomp'⟩
    · simp [he] at hend
    · simp [hneed] at hn
    · omega
  have hd := h.not_destroyed hdue
  have hfin : l.finishEmitted = false := by
    by_contra hf
    have := h.ending (h.finished (by simpa using hf))
    simp [he] at this
  have hc := h.not_closed hd (.inr (.inl hfin))
  exact { h.emit hc (e := .drain) (by simp) with settled := settled_of_open hd }

lemma finish (hpos : 0 < l.finishes) :
    Orderly { l with
      finishEmitted := true
      finishes := l.finishes - 1
      task := some .emitClose
      signs := l.signs ++ [.finish] } := by
  have hd := h.not_destroyed fun hs => by
    have := hs.2.1
    omega
  obtain ⟨hfin, hemitted⟩ := h.finishing hpos
  have hc := h.not_closed hd (.inr (.inl hemitted))
  have hone := h.finishes
  exact { h.emit hc (e := .finish) (by simp) with
    finished := fun _ => hfin
    finishes := (Nat.sub_le _ _).trans hone
    finishing := by
      intro hpos'
      simp only at hpos'
      omega
    settled := settled_of_open hd
    closed := by simp [hc] }

lemma close (hby : 0 < l.closes ∨ l.task = some .emitClose)
    (hc : l.closed = false) (hr : l.endEmitted = true ∨ l.readDestroyed = true)
    (hw : l.finishEmitted = true ∨ l.writeDestroyed = true) :
    Orderly { l with closed := true, signs := l.signs ++ [.close] } where
  __ := h
  closed := by
    intro _
    rcases hby with hk | ht
    · exact .inl (h.closes hk)
    · rw [h.readMarked] at hr
      rw [h.writeMarked] at hw
      rcases hr with hr | hd
      · rcases hw with hw | hd
        · exact .inr ⟨hr, hw, by simp [ht]⟩
        · exact .inl hd
      · exact .inl hd
  sign := fun _ => rfl
  last := by
    rw [List.dropLast_concat]
    intro hmem
    simp [h.sign hmem] at hc

lemma move (hm : Move True l l') : l'.Orderly := by
  cases hm with
  | drop hdrop => exact h.drop hdrop
  | push hd he more hmore =>
    rw [h.readMarked] at hd
    have hemitted : l.endEmitted = false := by
      by_contra hem
      have := (h.ended (by simpa using hem)).1
      simp [he] at this
    have h' : Orderly { l with stocked := true } :=
      { h with ended := by simp [hemitted] }
    rcases hmore with rfl | rfl
    · simpa using h'
    · exact h'.emit (h.not_closed hd (.inl hemitted)) (by simp)
  | unshift hem => exact { h with ended := by simp [hem trivial] }
  | pushEnd hd =>
    rw [h.readMarked] at hd
    exact { h with
      ended := fun hem => ⟨rfl, (h.ended hem).2⟩
      settled := settled_of_open hd }
  | take stocked hst =>
    refine { h with ended := fun hem => ⟨(h.ended hem).1, (h.ended hem).2.imp_right fun hno => ?_⟩ }
    simpa [hno] using hst
  | readable hd he =>
    rw [h.readMarked] at hd
    exact h.emit (h.not_closed hd (.inl he)) (by simp)
  | data hd hst stocked =>
    rw [h.readMarked] at hd
    have hemitted : l.endEmitted = false := by
      by_contra hem
      rcases (h.ended (by simpa using hem)).2 with hd' | hst'
      · simp [hd] at hd'
      · simp [hst] at hst'
    have hc := h.not_closed hd (.inl hemitted)
    exact { h.emit hc (e := .data) (by simp) with
      ended := by simp [hemitted]
      settled := settled_of_open hd
      closed := by simp [hc] }
  | callRead hd =>
    rw [h.readMarked] at hd
    exact { h with
      settled := settled_of_open hd
      closed := fun hc => (h.closed hc).imp_right fun ⟨he, hf, _⟩ => ⟨he, hf, by simp⟩ }
  | reachEnd hflow hended hstock hemitted sign task hsign =>
    refine h.reachEnd hflow hended hstock hemitted ?_
    rcases hsign with ⟨rfl, -⟩ | ⟨rfl, -⟩ <;> simp
  | «end» ht => exact h.end_ ht
  | write hd | process hd =>
    rw [h.writeMarked] at hd
    exact { h with settled := settled_of_open hd }
  | askToWait hpos =>
    refine { h with settled := fun hd => ?_ }
    obtain ⟨hend, hf, hdrained⟩ := h.settled hd
    refine ⟨hend, hf, hdrained.imp_right fun hor => .inr ?_⟩
    rcases hor with ⟨-, hret⟩ | hcomp
    · omega
    · exact hcomp
  | drain hcomp hneed he => exact h.drain hcomp hneed he
  | endWrites =>
    exact { h with
      ending := fun _ => rfl
      settled := fun hd => ⟨(h.settled hd).1, (h.settled hd).2.1, .inl rfl⟩ }
  | commit hd he hf =>
    rw [h.writeMarked] at hd
    have hzero : l.finishes = 0 := by
      by_contra hpos
      have := (h.finishing (Nat.pos_of_ne_zero hpos)).1
      simp [hf] at this
    have hemitted : l.finishEmitted = false := by
      by_contra hem
      have := h.finished (by simpa using hem)
      simp [hf] at this
    exact { h with
      ending := fun _ => he
      finished := fun _ => rfl
      finishes := by simp [hzero]
      finishing := fun _ => ⟨rfl, hemitted⟩
      settled := settled_of_open hd }
  | finish hpos => exact h.finish hpos
  | destroy hs =>
    exact { h with
      readMarked := rfl
      writeMarked := rfl
      ended := fun hem => ⟨(h.ended hem).1, .inl rfl⟩
      settled := by
        intro _
        cases hd : l.destroyed with
        | false => exact hs trivial hd
        | true => exact h.settled hd
      closes := fun _ => rfl
      closed := fun _ => .inl rfl }
  | close hby hc hr hw => exact h.close hby hc hr hw

lemma moves (hm : Moves True l l') : l'.Orderly := by
  induction hm with
  | refl => exact h
  | tail _ hmove ih => exact ih.move hmove

end Orderly

end Life

end GoSpidermonkey.Nodejs.Stream
