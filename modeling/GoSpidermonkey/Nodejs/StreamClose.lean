import GoSpidermonkey.Nodejs.StreamLife

/-!
# `'close'` is the last event of a stream

`State.life` says what of a state decides the order of its events. Every step is a few moves of that
life (`step_moves`), function by function, so what moves preserve holds in every run.

Some events are emitted without another look at `destroyed`. So `'close'` is not the last event
where the stream is destroyed while such an event is on its way (`destroyed_too_early`).
-/

namespace GoSpidermonkey.Nodejs.Stream

open List Option

variable {ω : Type}

/-! ### The life of a state -/

def Event.sign : Event ω → Option Sign
  | .data _ => some .data
  | .readable => some .readable
  | .end => some .end
  | .finish => some .finish
  | .drain => some .drain
  | .close => some .close
  | .error _ | .resume | .pause => none

def Output.sign : Output ω → Option Sign
  | .event e => e.sign
  | .returned _ | .callback _ => none

/-- The frame emits `'finish'`, unless there is an exception. -/
def Frame.finishes : Frame ω → Bool
  | .finalCallback none => true
  | _ => false

def Frame.completes : Frame ω → Bool
  | .writeCallback _ none | .afterWrite => true
  | _ => false

/-- The frame is a `write` before its return. -/
def Frame.returns : Frame ω → Bool
  | .writeRest => true
  | _ => false

/-- The frame closes the stream for `destroy`. -/
def Frame.closes : Frame ω → Bool
  | .callDestroy _ | .emitClose => true
  | _ => false

namespace State

variable (s : State ω)

def signs : List Sign := s.log.filterMap Output.sign

def life : Life where
  signs := s.signs
  destroyed := s.destroyed
  closed := s.closeEmitted
  readDestroyed := (s.rs.map ReadableState.destroyed).getD s.destroyed
  writeDestroyed := (s.ws.map WritableState.destroyed).getD s.destroyed
  ended := s.rs.all ReadableState.ended
  endEmitted := s.rs.all ReadableState.endEmitted
  stocked := s.rs.any fun st => st.buffer ≠ []
  task := s.task
  ending := s.ws.all WritableState.ending
  finished := s.ws.all WritableState.finished
  finishEmitted := s.ws.all WritableState.finishEmitted
  needDrain := s.ws.any WritableState.needDrain
  finishes := s.ticks.count .finish + s.finalCb.toNat + s.stack.countP Frame.finishes
  completes := s.writeCb.isSome.toNat + s.stack.countP Frame.completes
  returns := s.stack.countP Frame.returns
  closes := s.destroyCb.toNat + s.stack.countP Frame.closes

/-! ### What the small operations do to a life -/

attribute [local simp] Event.sign Output.sign Frame.finishes Frame.completes Frame.returns
  Frame.closes List.countP_cons

@[simp] lemma life_callGuest : s.callGuest.life = s.life := by simp [life, signs]

@[simp] lemma life_returned (v : Value ω) : (s.record (.returned v)).life = s.life := by
  simp [life, signs]

@[simp] lemma life_callCallback (w : Write ω) (err : Option Error) :
    (s.callCallback w err).life = s.life := by
  unfold callCallback
  split
  · simp [life, signs]
  · rfl

@[simp] lemma life_emit (e : Event ω) :
    (s.emit e).life = { s.life with signs := s.life.signs ++ e.sign.toList } := by
  cases e <;> simp [life, signs]

lemma life_emit_error (e : Error) : (s.emit (.error e)).life = s.life := by simp [life, signs]

@[simp] lemma life_thenTask (t : Task) : (s.thenTask t).life = { s.life with task := some t } := rfl

@[simp] lemma life_scheduleFlow : s.scheduleFlow.life = s.life := by
  unfold scheduleFlow
  split
  · rfl
  · next st hrs =>
    split
    · rfl
    · simp [life, signs, hrs]

lemma life_nextTick {t : Tick} (h : t ≠ .finish) : (s.nextTick t).life = s.life := by
  simp [life, signs, h]

@[simp] lemma life_callRead : s.callRead.life = s.life := by simp [callRead, life, signs]

lemma life_setReadable {st st' : ReadableState ω} (hrs : s.rs = some st)
    (hd : st'.destroyed = st.destroyed) (hem : st'.endEmitted = st.endEmitted) :
    (s.setReadable st').life =
      { s.life with ended := st'.ended, stocked := st'.buffer ≠ [] } := by
  simp [life, signs, hrs, hd, hem]

lemma life_frames {fs : List (Frame ω)}
    (h : ∀ f ∈ fs, !f.finishes && !f.completes && !f.returns && !f.closes) :
    (s.frames fs).life = s.life := by
  have hcount : ∀ p : Frame ω → Bool, (∀ f ∈ fs, p f = false) → fs.countP p = 0 := by
    intro p hp
    simpa [countP_eq_zero] using hp
  simp only [Bool.and_eq_true, Bool.not_eq_true'] at h
  simp [life, signs, hcount _ fun f hf => (h f hf).1.1.1, hcount _ fun f hf => (h f hf).1.1.2,
    hcount _ fun f hf => (h f hf).1.2, hcount _ fun f hf => (h f hf).2]

variable {s} {strict : Prop} {l : Life}

lemma moves_of_eq {l l' l'' : Life} (hm : Life.Moves strict l l'') (heq : l' = l'') :
    Life.Moves strict l l' := heq ▸ hm

lemma drops_stack {stack : List (Frame ω)} (hsub : stack.Sublist s.stack) {task : Option Task}
    (htask : task = s.task ∨ task = none) : s.life.Drops { s with stack, task }.life where
  same := rfl
  task := htask.imp id fun h => by simp [life, h]
  finishes := Nat.add_le_add_left hsub.countP_le _
  completes := Nat.add_le_add_left hsub.countP_le _
  returns := hsub.countP_le
  closes := Nat.add_le_add_left hsub.countP_le _

/-! ### Closing and destroying -/

lemma emitClose_moves (hdrop : l.Drops s.life) (hby : 0 < l.closes ∨ l.task = some .emitClose) :
    Life.Moves strict l s.emitClose.life := by
  unfold emitClose
  split_ifs with hclosed hdone
  · exact (Life.Move.drop hdrop).moves
  · simp only [readDone, writeDone, Bool.and_eq_true] at hdone
    have hc : s.life.closed = l.closed := by rw [hdrop.same]
    have he : s.life.endEmitted = l.endEmitted := by rw [hdrop.same]
    have hr : s.life.readDestroyed = l.readDestroyed := by rw [hdrop.same]
    have hf : s.life.finishEmitted = l.finishEmitted := by rw [hdrop.same]
    have hw : s.life.writeDestroyed = l.writeDestroyed := by rw [hdrop.same]
    have hclose : Life.Move strict l { l with closed := true, signs := l.signs ++ [.close] } := by
      refine .close hby ?_ ?_ ?_
      · rw [← hc]
        simpa [life] using hclosed
      · rw [← he, ← hr]
        cases hrs : s.rs with
        | none => simp [life, hrs]
        | some st => simpa [life, hrs] using hdone.1
      · rw [← hf, ← hw]
        cases hws : s.ws with
        | none => simp [life, hws]
        | some st => simpa [life, hws] using hdone.2
    refine hclose.moves.tail (.drop ?_)
    rw [life_emit]
    exact hdrop.close
  · exact (Life.Move.drop hdrop).moves

/-- The function `done` of `destroy` was going to be called. -/
lemma destroyDone_moves (hdrop : l.Drops s.life) (hpos : s.life.closes < l.closes)
    (e : Option Error) : Life.Moves strict l (s.destroyDone e).life := by
  cases e with
  | none => exact emitClose_moves hdrop (.inl (by omega))
  | some e =>
    have hlife : ((s.frames [.emitClose]).emit (.error e)).life =
        { s.life with closes := s.life.closes + 1 } := by
      simp [life, signs, Nat.add_assoc]
    refine (Life.Move.drop ?_).moves
    rw [destroyDone, hlife]
    exact { hdrop with
      same := by rw [hdrop.same]
      closes := hpos }

lemma callDestroy_moves (err : Option Error) :
    Life.Moves strict (s.frames [.callDestroy err]).life (s.callDestroy err).life := by
  have hdrop : (s.frames [.callDestroy err]).life.Drops s.life :=
    drops_stack (by simp) (.inl rfl)
  have hpos : (s.frames [.callDestroy err]).life.closes = s.life.closes + 1 := by
    simp [life, Nat.add_assoc]
  unfold callDestroy
  split
  · refine (Life.Move.drop ?_).moves
    rw [life_callGuest]
    refine { hdrop with same := ?_, closes := ?_ }
    · simp [life, signs]
    · rw [hpos]
      simp only [life, Bool.toNat_true]
      omega
  · exact destroyDone_moves hdrop (by omega) err

/-- A step destroys the stream only when it is settled. -/
def Allowed (strict : Prop) (s s' : State ω) : Prop :=
  strict → s.destroyed = false → s'.destroyed = true → s.life.Settled

lemma destroy_moves {err : Option Error} (h : Allowed strict s (s.destroy err)) :
    Life.Moves strict s.life (s.destroy err).life := by
  unfold destroy at h ⊢
  split_ifs at h ⊢ with hany
  · exact .refl
  · have hd : strict → s.life.destroyed = false → s.life.Settled := by
      intro hs hnot
      refine h hs hnot ?_
      simp only [failWriteQueue]
      split <;> rfl
    refine moves_of_eq (Life.Move.destroy hd).moves ?_
    cases hrs : s.rs <;> cases hws : s.ws <;>
      simp [life, signs, hrs, hws, failWriteQueue, Nat.add_assoc]

/-! ### The readable half -/

lemma pushEnd_moves {st : ReadableState ω} (hrs : s.rs = some st) (hd : st.destroyed = false) :
    Life.Moves strict s.life (s.pushEnd st).life := by
  refine moves_of_eq (Life.Move.pushEnd (by simpa [life, hrs] using hd)).moves ?_
  have hended : (s.setReadable { st with ended := true }).life = { s.life with ended := true } := by
    simp [life, signs, hrs]
  simp only [pushEnd]
  rw [life_returned, life_scheduleFlow]
  split_ifs
  · rw [life_nextTick _ (by simp), hended]
  · exact hended

lemma push_moves {c : Option (Chunk ω)} (h : Allowed strict s (s.push c)) :
    Life.Moves strict s.life (s.push c).life := by
  unfold push at h ⊢
  cases hrs : s.rs with
  | none => exact .refl
  | some st =>
    simp only [hrs] at h ⊢
    by_cases hd : st.destroyed = true
    · rw [if_pos hd, life_returned]
    · rw [if_neg hd] at h ⊢
      have hmark : s.life.readDestroyed = false := by simpa [life, hrs] using hd
      cases c with
      | none => exact pushEnd_moves hrs (by simpa using hd)
      | some item =>
        simp only at h ⊢
        by_cases hended : st.ended = true
        · rw [if_pos hended] at h ⊢
          have hlife : (s.frames [.ret (.bool false)]).life = s.life := life_frames s (by simp)
          rw [← hlife]
          exact destroy_moves fun hs hnot hdone => hlife.symm ▸ h hs hnot hdone
        · rw [if_neg hended]
          have hopen : s.life.ended = false := by simpa [life, hrs] using hended
          split_ifs
          · refine moves_of_eq (Life.Move.push hmark hopen [] (.inl rfl)).moves ?_
            rw [life_scheduleFlow]
            simp [life, signs, hrs]
          · refine moves_of_eq (Life.Move.push hmark hopen [.readable] (.inr rfl)).moves ?_
            simp [life, signs, hrs]

lemma unshift_moves {c : Chunk ω} (h : strict → s.life.endEmitted = false) :
    Life.Moves strict s.life (s.unshift c).life := by
  unfold unshift
  split
  · exact .refl
  · next st hrs =>
    refine moves_of_eq (Life.Move.unshift h).moves ?_
    simp [life, signs, hrs]

/-- `read` hands out a part of the buffer. -/
lemma readOut_moves {st st' : ReadableState ω} (hrs : s.rs = some st)
    (hd : st'.destroyed = st.destroyed) (hem : st'.endEmitted = st.endEmitted)
    (hended : st'.ended = st.ended) (hbuf : st.buffer = [] → st'.buffer = []) (out : Chunk ω) :
    Life.Moves strict s.life (s.readOut st' out).life := by
  have hstock : decide (st'.buffer ≠ []) = true → s.life.stocked = true := by
    simpa [life, hrs] using mt hbuf
  refine moves_of_eq (Life.Move.take _ hstock).moves ?_
  have hsame : s.life.ended = st'.ended := by simp [life, hrs, hended]
  simp only [readOut]
  split_ifs
  · rw [life_returned, life_scheduleFlow, life_setReadable s hrs hd hem, ← hsame]
  · rw [life_returned, life_setReadable s hrs hd hem, ← hsame]

lemma decode_same (st : ReadableState ω) (out : Chunk ω) :
    (s.decode st out).1.destroyed = st.destroyed ∧
      (s.decode st out).1.endEmitted = st.endEmitted ∧
      (s.decode st out).1.ended = st.ended ∧ (s.decode st out).1.buffer = st.buffer := by
  unfold decode
  split <;> simp

lemma readAll_moves {st : ReadableState ω} (hrs : s.rs = some st) :
    Life.Moves strict s.life (s.readAll st).life := by
  have hsame := s.decode_same { st with buffer := [], length := 0 }
  exact readOut_moves hrs (hsame _).1 (hsame _).2.1 (hsame _).2.2.1 (fun _ => (hsame _).2.2.2) _

lemma readBuffered_moves {st : ReadableState ω} (hrs : s.rs = some st) (size : Option ℕ) :
    Life.Moves strict s.life (s.readBuffered st size).life := by
  unfold readBuffered
  split
  · split
    · exact .refl
    · next out rest hbuf =>
      refine readOut_moves hrs ?_ ?_ ?_ ?_ _
      · rfl
      · rfl
      · rfl
      · simp [hbuf]
  · split
    · exact readAll_moves hrs
    · next n =>
      simp only
      split_ifs with hmore hall
      · rw [life_callRead, life_frames s (by simp)]
      · exact readAll_moves hrs
      · obtain ⟨hd, hem, hended, hbuf⟩ := s.decode_same
          { st with
            buffer := [.bytes ((concat st.buffer).drop n)]
            length := (concat st.buffer).length - n }
          (.bytes ((concat st.buffer).take n))
        refine readOut_moves hrs hd hem hended ?_ _
        -- an empty buffer is handed out as a whole
        intro hnil
        simp [hnil, totalLength] at hall

lemma readRest_moves (size : Option ℕ) : Life.Moves strict s.life (s.readRest size).life := by
  unfold readRest
  split
  · exact .refl
  · next st hrs =>
    split_ifs
    · rw [life_returned]
    · exact readBuffered_moves hrs size

lemma read_moves (size : Option ℕ) : Life.Moves strict s.life (s.read size).life := by
  unfold read
  split
  · exact .refl
  · next st hrs =>
    have hlife : (s.setReadable { st with consumed := true }).life = s.life := by
      simp [life, signs, hrs]
    split_ifs
    · rw [life_returned]
    · simp only
      split_ifs
      · rw [life_returned, life_scheduleFlow, hlife]
      · rw [life_callRead, life_frames _ (by simp), hlife]
      · rw [← hlife]
        exact readBuffered_moves rfl size

lemma setEncoding_life (e : Encoding) : (s.setEncoding e).life = s.life := by
  unfold setEncoding
  split
  · rfl
  · next st hrs => simp [life, signs, hrs]

lemma resume_life : s.resume.life = s.life := by
  unfold resume
  split
  · rfl
  · next st hrs =>
    split_ifs
    · rfl
    · simp [life, signs, hrs]

lemma pause_life : s.pause.life = s.life := by
  unfold pause
  split
  · rfl
  · next st hrs =>
    split_ifs
    · rfl
    · simp [life, signs, hrs]

lemma onData_life : s.onData.life = s.life := by
  unfold onData
  split
  · rfl
  · split_ifs
    · exact resume_life
    · rfl

lemma pushRest_life : s.pushRest.life = s.life := by
  unfold pushRest
  split
  · rfl
  · exact life_returned ..

/-- A callback of `process.nextTick` has nothing more to do. -/
lemma drops_task (hl : s.life = { l with task := none }) : l.Drops s.life where
  same := by simp [hl]
  task := by simp [hl]
  finishes := by simp [hl]
  completes := by simp [hl]
  returns := by simp [hl]
  closes := by simp [hl]

/-- `_flowNow` emits the last `'data'`, or `'end'`. -/
lemma life_reachEnd (hl : s.life = { l with task := none }) {st : ReadableState ω}
    (hrs : s.rs = some st) (d : Option StringDecoder) (t : Task) (e : Event ω) :
    (((s.setReadable { st with endEmitted := true, decoder := d }).thenTask t).emit e).life =
      { l with endEmitted := true, task := some t, signs := l.signs ++ e.sign.toList } := by
  have hset : (s.setReadable { st with endEmitted := true, decoder := d }).life =
      { s.life with endEmitted := true } := by
    simp [life, signs, hrs]
  rw [life_emit, life_thenTask, hset, hl]

/-- `_flowNow` after `_callRead`, or after its last look at `destroyed`. -/
lemma flowRead_moves (hl : s.life = { l with task := none })
    (h : l.task = some .flowRead ∨ l.readDestroyed = false) :
    Life.Moves strict l s.flowRead.life := by
  unfold flowRead
  split
  · exact (Life.Move.drop (drops_task hl)).moves
  · next st hrs =>
    split_ifs with hend
    · obtain ⟨hended, hbuf, hem, -⟩ := hend
      have hended' : l.ended = true := by
        simpa [life, hrs, hended] using (congrArg Life.ended hl).symm
      have hstock : l.stocked = false := by
        simpa [life, hrs, hbuf] using (congrArg Life.stocked hl).symm
      have hem' : l.endEmitted = false := by
        simpa [life, hrs, hem] using (congrArg Life.endEmitted hl).symm
      have hend : Life.Move strict l _ :=
        .reachEnd h hended' hstock hem' .end .emitClose (.inl ⟨rfl, rfl⟩)
      simp only
      split
      · next hdec =>
        exact moves_of_eq hend.moves (life_reachEnd hl hrs st.decoder .emitClose .end)
      · next d hdec =>
        split_ifs
        · exact moves_of_eq hend.moves (life_reachEnd hl hrs _ .emitClose .end)
        · have hdata : Life.Move strict l _ :=
            .reachEnd h hended' hstock hem' .data .flowEnd (.inr ⟨rfl, rfl⟩)
          exact moves_of_eq hdata.moves (life_reachEnd hl hrs _ .flowEnd (.data _))
    · exact (Life.Move.drop (drops_task hl)).moves

/-- `_flowNow` emits a chunk of the buffer. -/
lemma flowData_moves (hl : s.life = { l with task := none }) {st : ReadableState ω}
    (hrs : s.rs = some st) (hmark : l.readDestroyed = false) (hbuf : st.buffer ≠ [])
    (r : ReadableState ω × Chunk ω) (hd : r.1.destroyed = st.destroyed)
    (hem : r.1.endEmitted = st.endEmitted) (hended : r.1.ended = st.ended) :
    Life.Moves strict l (((s.setReadable r.1).thenTask .flowLoop).emit (.data r.2)).life := by
  have hstock : l.stocked = true := by
    simpa [life, hrs, hbuf] using (congrArg Life.stocked hl).symm
  refine moves_of_eq (Life.Move.data hmark hstock (r.1.buffer ≠ [])).moves ?_
  have hsame : s.life.ended = r.1.ended := by simp [life, hrs, hended]
  rw [life_emit, life_thenTask, life_setReadable s hrs hd hem, ← hsame, hl]
  rfl

lemma flowLoop_moves (hl : s.life = { l with task := none }) :
    Life.Moves strict l s.flowLoop.life := by
  unfold flowLoop
  split
  · exact (Life.Move.drop (drops_task hl)).moves
  · next st hrs =>
    by_cases hd : st.destroyed = true
    · rw [if_pos hd]
      exact (Life.Move.drop (drops_task hl)).moves
    · rw [if_neg hd]
      have hmark : l.readDestroyed = false := by
        simpa [life, hrs, hd] using (congrArg Life.readDestroyed hl).symm
      by_cases hflowing : st.flowing = some true
      · rw [if_pos hflowing]
        split
        · next chunk rest hbuf =>
          obtain ⟨hd', hem, hended, -⟩ := s.decode_same
            { st with buffer := rest, length := st.length - chunkSize st chunk } chunk
          have hne : st.buffer ≠ [] := by simp [hbuf]
          simp only
          split_ifs
          · exact flowData_moves hl hrs hmark hne _ rfl rfl rfl
          · exact flowData_moves hl hrs hmark hne _ hd' hem hended
        · split_ifs
          · exact flowRead_moves hl (.inr hmark)
          · refine moves_of_eq (Life.Move.callRead hmark).moves ?_
            rw [life_callRead, life_thenTask, hl]
      · rw [if_neg hflowing]
        exact flowRead_moves hl (.inr hmark)

/-! ### The writable half -/

lemma processWriteQueue_moves : Life.Moves strict s.life s.processWriteQueue.life := by
  unfold processWriteQueue
  split
  · exact .refl
  · next st hws =>
    split_ifs with hbusy
    · exact .refl
    · simp only [Bool.or_eq_true, not_or] at hbusy
      split
      · exact .refl
      · next w rest hqueue =>
        have hmark : s.life.writeDestroyed = false := by simpa [life, hws] using hbusy.2
        refine (Life.Move.process hmark).moves.tail (.drop ?_)
        rw [life_callGuest]
        exact
          { same := by simp [life, signs, hws]
            task := .inl rfl
            finishes := le_rfl
            completes := by
              simp only [life, isSome_some, Bool.toNat_true, setWritable_stack]
              omega
            returns := le_rfl
            closes := le_rfl }

lemma write_moves (c : Chunk ω) (callback : Bool) :
    Life.Moves strict s.life (s.write c callback).life := by
  unfold write
  split
  · exact .refl
  · next st hws =>
    by_cases hclosed : (st.ending || st.destroyed) = true
    · rw [if_pos hclosed, life_returned, life_nextTick _ (by simp)]
    · rw [if_neg hclosed]
      simp only [Bool.or_eq_true, not_or] at hclosed
      have hmark : s.life.writeDestroyed = false := by simpa [life, hws] using hclosed.2
      refine .head (Life.Move.write hmark) ?_
      refine Eq.subst (motive := fun l => Life.Moves strict l _) ?_ processWriteQueue_moves
      simp [life, signs, hws, Nat.add_comm]

lemma drops_frame (f : Frame ω) : (s.frames [f]).life.Drops s.life :=
  drops_stack (s := s.frames [f]) (by simp) (.inl rfl)

lemma writeRest_moves : Life.Moves strict (s.frames [.writeRest]).life s.writeRest.life := by
  have hdrop := s.drops_frame .writeRest
  unfold writeRest
  split
  · exact (Life.Move.drop hdrop).moves
  · next st hws =>
    split_ifs
    · have hpos : 0 < (s.frames [.writeRest]).life.returns := by simp [life]
      refine (Life.Move.askToWait hpos).moves.tail (.drop ?_)
      have hlife : (s.setWritable { st with needDrain := true }).life =
          { s.life with needDrain := true } := by
        simp [life, signs, hws]
      rw [life_returned, hlife]
      simpa using hdrop.needDrain true []
    · rw [life_returned]
      exact (Life.Move.drop hdrop).moves

lemma life_counted {st : WritableState ω} (hws : s.ws = some st) (writing : Bool)
    (pending buffered : ℤ) :
    (s.setWritable { st with writing, pending, buffered }).life = s.life := by
  simp [life, signs, hws]

lemma writeCallback_moves (w : Write ω) (err : Option Error) :
    Life.Moves strict (s.frames [.writeCallback w err]).life (s.writeCallback w err).life := by
  unfold writeCallback
  split
  · exact (Life.Move.drop (drops_frame _)).moves
  · next st hws =>
    cases err with
    | none | some e =>
      refine moves_of_eq .refl ?_
      simp only [life_callCallback]
      simp [life, signs, hws]

lemma afterWrite_moves : Life.Moves strict (s.frames [.afterWrite]).life s.afterWrite.life := by
  have hdrop := s.drops_frame .afterWrite
  unfold afterWrite
  split
  · exact (Life.Move.drop hdrop).moves
  · next st hws =>
    have hlife : (s.frames [.maybeFinish, .processWriteQueue]).life = s.life :=
      life_frames s (by simp)
    split_ifs with hdrain
    · have hpos : 0 < (s.frames [.afterWrite]).life.completes := by simp [life]
      refine .tail (Life.Move.drain hpos ?_ ?_).moves (.drop ?_)
      · simpa [life, hws] using hdrain.1
      · simpa [life, hws] using hdrain.2.2
      · have hset : ((s.frames [.maybeFinish, .processWriteQueue]).setWritable
            { st with needDrain := false }).life = { s.life with needDrain := false } := by
          simp [life, signs, hws]
        rw [life_emit, hset]
        exact hdrop.needDrain false [.drain]
    · rw [hlife]
      exact (Life.Move.drop hdrop).moves

lemma failWriteQueue_life (err : Error) : (s.failWriteQueue err).life = s.life := by
  unfold failWriteQueue
  split
  · rfl
  · next st hws => simp [life, signs, hws]

lemma failWrites_life (err : Error) (items : List (Write ω)) :
    (s.failWrites err items).life = s.life := by
  unfold failWrites
  split
  · next st w rest hws =>
    rw [life_callCallback, life_frames _ (by simp)]
    exact life_counted hws st.writing _ _
  · rfl

lemma writeFailed_life (err : Error) : (s.writeFailed err).life = s.life := by
  rw [writeFailed, failWriteQueue_life, life_frames s (by simp)]

lemma maybeFinish_moves : Life.Moves strict s.life s.maybeFinish.life := by
  unfold maybeFinish
  split
  · exact .refl
  · next st hws =>
    by_cases hnot : st.ending = false ∨ st.finished ∨ 0 < st.pending ∨ st.destroyed
    · rw [if_pos hnot]
    · rw [if_neg hnot]
      simp only [not_or, Bool.not_eq_false, Bool.not_eq_true] at hnot
      obtain ⟨hending, hfin, -, hmark⟩ := hnot
      have hcommit : Life.Move strict s.life _ := .commit (by simpa [life, hws] using hmark)
        (by simpa [life, hws] using hending) (by simpa [life, hws] using hfin)
      simp only
      split_ifs
      · refine hcommit.moves.tail (.drop ?_)
        rw [life_callGuest]
        exact
          { same := by simp [life, signs, hws]
            task := .inl rfl
            finishes := by
              simp only [life, Bool.toNat_true, setWritable_stack, setWritable_ticks]
              omega
            completes := le_rfl
            returns := le_rfl
            closes := le_rfl }
      · refine moves_of_eq hcommit.moves ?_
        simp [life, signs, hws, Nat.add_assoc]
      · refine moves_of_eq hcommit.moves ?_
        simp [life, signs, hws]
        omega

lemma finalCallback_moves {err : Option Error}
    (h : Allowed strict (s.frames [.finalCallback err]) (s.finalCallback err)) :
    Life.Moves strict (s.frames [.finalCallback err]).life (s.finalCallback err).life := by
  cases err with
  | none =>
    refine moves_of_eq .refl ?_
    simp [finalCallback, life, signs]
    omega
  | some e =>
    have hlife : (s.frames [.finalCallback (some e)]).life = s.life := life_frames s (by simp)
    rw [hlife]
    exact destroy_moves fun hs hnot hdone => hlife ▸ h hs hnot hdone

lemma endRest_moves : Life.Moves strict s.life s.endRest.life := by
  unfold endRest
  split
  · exact .refl
  · next st hws =>
    refine .head Life.Move.endWrites ?_
    refine Eq.subst (motive := fun l => Life.Moves strict l _) ?_ maybeFinish_moves
    simp [life, signs, hws]

lemma end_moves (c : Option (Chunk ω)) : Life.Moves strict s.life (s.end_ c).life := by
  cases c with
  | none => exact endRest_moves
  | some c =>
    have hlife : (s.frames [.endRest]).life = s.life := life_frames s (by simp)
    rw [← hlife]
    exact write_moves c false

/-! ### The functions handed to the guest -/

lemma life_pushes (out : Option (Chunk ω)) (fs : List (Frame ω)) :
    (s.frames ((out.toList.map fun c => .push (some c)) ++ fs)).life = (s.frames fs).life := by
  cases out <;> simp [life, signs]

lemma completeWrite_moves {w : Write ω} (hw : s.writeCb = some w) (err : Option Error)
    (out : Option (Chunk ω)) :
    Life.Moves strict s.life ({ s with writeCb := none }.completeWrite w err out).life := by
  have hdrop : ∀ err, s.life.Drops
      ({ s with writeCb := none }.frames [.writeCallback w err]).life := by
    intro err
    refine ⟨?_, .inl rfl, ?_, ?_, ?_, ?_⟩ <;> cases err <;> simp [life, signs, hw]
  unfold completeWrite
  split_ifs
  · rw [life_pushes]
    exact (Life.Move.drop (hdrop none)).moves
  · exact (Life.Move.drop (hdrop err)).moves

lemma completeFinal_moves (hf : s.finalCb = true) (err : Option Error) (out : Option (Chunk ω)) :
    Life.Moves strict s.life ({ s with finalCb := false }.completeFinal err out).life := by
  have hdrop : s.life.Drops ({ s with finalCb := false }.frames [.finalCallback err]).life := by
    refine ⟨?_, .inl rfl, ?_, ?_, ?_, ?_⟩
    · cases err <;> simp [life, signs]
    · cases err
      · simp [life, hf]
        omega
      · simp [life, hf]
    · cases err <;> simp [life]
    · cases err <;> simp [life]
    · cases err <;> simp [life]
  have hpush : ({ s with finalCb := false }.frames [.push none, .finalCallback err]).life =
      ({ s with finalCb := false }.frames [.finalCallback err]).life := by
    simp [life, signs]
  unfold completeFinal
  split_ifs
  · rw [life_pushes, hpush]
    exact (Life.Move.drop hdrop).moves
  · exact (Life.Move.drop hdrop).moves

/-! ### Every step is a few moves -/

lemma exec_moves {f : Frame ω} (h : Allowed strict (s.frames [f]) (s.exec f)) :
    Life.Moves strict (s.frames [f]).life (s.exec f).life := by
  have hsilent : (!f.finishes && !f.completes && !f.returns && !f.closes) = true →
      (s.frames [f]).life = s.life := fun hf => life_frames s (by simpa using hf)
  have hallowed : (s.frames [f]).life = s.life → Allowed strict s (s.exec f) :=
    fun hlife hs hnot hdone => hlife ▸ h hs hnot hdone
  cases f with
  | guest | tryRead => rw [hsilent rfl]; exact .refl
  | ret v => rw [hsilent rfl, exec, life_returned]
  | readRest size => rw [hsilent rfl]; exact readRest_moves size
  | scheduleFlow => rw [hsilent rfl, exec, life_scheduleFlow]
  | push c => rw [hsilent rfl]; exact push_moves (hallowed (hsilent rfl))
  | pushRest => rw [hsilent rfl, exec, pushRest_life]
  | writeRest => exact writeRest_moves
  | endRest => rw [hsilent rfl]; exact endRest_moves
  | writeCallback w err => exact writeCallback_moves w err
  | afterWrite => exact afterWrite_moves
  | writeFailed err => rw [hsilent rfl, exec, writeFailed_life]
  | maybeFinish => rw [hsilent rfl]; exact maybeFinish_moves
  | processWriteQueue => rw [hsilent rfl]; exact processWriteQueue_moves
  | failWrites err items => rw [hsilent rfl, exec, failWrites_life]
  | finalCallback err => exact finalCallback_moves h
  | destroy err => rw [hsilent rfl]; exact destroy_moves (hallowed (hsilent rfl))
  | callDestroy err => exact callDestroy_moves err
  | emitClose => exact emitClose_moves (drops_frame _) (.inl (by simp [life]))

lemma execTask_moves {t : Task} (ht : s.task = some t) :
    Life.Moves strict s.life ({ s with task := none }.execTask t).life := by
  have hl : { s with task := none }.life = { s.life with task := none } := rfl
  cases t with
  | flowLoop => exact flowLoop_moves hl
  | flowRead => exact flowRead_moves hl (.inl ht)
  | flowEnd =>
    refine moves_of_eq (Life.Move.end ht).moves ?_
    simp [execTask, State.flowEnd, hl]
  | emitClose => exact emitClose_moves (drops_task hl) (.inr ht)
  | emitError =>
    refine (Life.Move.drop ?_).moves
    simpa [execTask] using drops_task hl

lemma runTick_moves {t : Tick} {rest : List Tick} (ht : s.ticks = t :: rest)
    (htask : s.task = none) :
    Life.Moves strict s.life ({ s with ticks := rest }.runTick t).life := by
  have hkeep : t ≠ .finish → { s with ticks := rest }.life = s.life := by
    intro hne
    simp [life, signs, ht, hne]
  cases t with
  | flow =>
    simp only [runTick]
    split
    · rw [hkeep (by simp)]
    · next st hrs =>
      refine flowLoop_moves ?_
      have hlife : ({ s with ticks := rest }.setReadable { st with flowScheduled := false }).life =
          { s with ticks := rest }.life := by
        have hrs' : s.rs = some st := hrs
        simp [life, signs, hrs']
      rw [hlife, hkeep (by simp), ← htask]
      rfl
  | readable =>
    simp only [runTick]
    split
    · rw [hkeep (by simp)]
    · next st hrs =>
      have hrs' : s.rs = some st := hrs
      split_ifs with hdone
      · rw [hkeep (by simp)]
      · simp only [Bool.or_eq_true, not_or] at hdone
        refine moves_of_eq (Life.Move.readable ?_ ?_).moves ?_
        · simpa [life, hrs'] using hdone.2
        · simpa [life, hrs'] using hdone.1
        · rw [life_emit, hkeep (by simp)]
          rfl
  | finish =>
    simp only [runTick]
    split
    · have hdrop : s.life.Drops { s with ticks := rest }.life :=
        { same := rfl, task := .inl rfl, finishes := by simp [life, ht]
          completes := le_rfl, returns := le_rfl, closes := le_rfl }
      exact (Life.Move.drop hdrop).moves
    · next st hws =>
      have hws' : s.ws = some st := hws
      refine moves_of_eq (Life.Move.finish (by simp [life, ht])).moves ?_
      simp [life, signs, hws', ht]
      omega
  | writeError callback =>
    simp only [runTick]
    split_ifs
    · have hlife : (({ s with ticks := rest }.thenTask .emitError).record
          (.callback (some .writeAfterEnd))).life = { s.life with task := some .emitError } := by
        rw [← hkeep (by simp)]
        simp [life, signs]
      refine (Life.Move.drop ?_).moves
      rw [life_callGuest, hlife]
      exact ⟨rfl, .inr (by simp), le_rfl, le_rfl, le_rfl, le_rfl⟩
    · rw [life_emit_error, hkeep (by simp)]

lemma throw_moves {e : Error} (h : Allowed strict s (s.throw e)) :
    Life.Moves strict s.life (s.throw e).life := by
  have hsub : (catcher s.stack.tail).Sublist s.stack :=
    (dropWhile_sublist _).trans (tail_sublist _)
  unfold throw at h ⊢
  split
  · exact (Life.Move.drop (drops_stack (nil_sublist _) (.inr rfl))).moves
  · next rest hcatch =>
    rw [hcatch] at h hsub
    have hdrop : s.life.Drops { s with stack := rest }.life :=
      drops_stack ((sublist_cons_self _ _).trans hsub) (.inl rfl)
    refine .head (.drop hdrop) (destroy_moves fun hs hnot hdone => ?_)
    exact (h hs hnot hdone).drop hdrop
  · exact (Life.Move.drop (drops_stack hsub (.inl rfl))).moves

lemma call_moves {c : Call ω} {s' : State ω} (hcall : s.call c = some s') (h : Allowed strict s s')
    (hunshift : strict → (∃ item, c = .unshift item) → s.life.endEmitted = false) :
    Life.Moves strict s.life s'.life := by
  cases c with
  | push c =>
    obtain ⟨-, -, rfl⟩ := map_eq_some_iff.mp hcall
    exact push_moves h
  | unshift c =>
    obtain ⟨-, -, rfl⟩ := map_eq_some_iff.mp hcall
    exact unshift_moves fun hs => hunshift hs ⟨c, rfl⟩
  | read size =>
    obtain ⟨-, -, rfl⟩ := map_eq_some_iff.mp hcall
    exact read_moves size
  | setEncoding e =>
    obtain ⟨-, -, rfl⟩ := map_eq_some_iff.mp hcall
    rw [setEncoding_life]
  | onData =>
    obtain ⟨-, -, rfl⟩ := map_eq_some_iff.mp hcall
    rw [onData_life]
  | resume =>
    obtain ⟨-, -, rfl⟩ := map_eq_some_iff.mp hcall
    rw [resume_life]
  | pause =>
    obtain ⟨-, -, rfl⟩ := map_eq_some_iff.mp hcall
    rw [pause_life]
  | write c callback =>
    obtain ⟨-, -, rfl⟩ := map_eq_some_iff.mp hcall
    exact write_moves c callback
  | «end» c =>
    obtain ⟨-, -, rfl⟩ := map_eq_some_iff.mp hcall
    exact end_moves c
  | destroy err =>
    cases hcall
    exact destroy_moves h
  | writeCallback err out =>
    obtain ⟨w, hw, rfl⟩ := map_eq_some_iff.mp hcall
    exact completeWrite_moves hw err out
  | finalCallback err out =>
    obtain ⟨hf, heq⟩ := ite_none_right_eq_some.mp hcall
    cases heq
    exact completeFinal_moves hf err out
  | destroyCallback err =>
    obtain ⟨hd, heq⟩ := ite_none_right_eq_some.mp hcall
    cases heq
    have hpos : { s with destroyCb := false }.life.closes < s.life.closes := by simp [life, hd]
    have hdrop : s.life.Drops { s with destroyCb := false }.life :=
      ⟨rfl, .inl rfl, le_rfl, le_rfl, le_rfl, hpos.le⟩
    exact destroyDone_moves hdrop hpos err
  | ret =>
    cases hcall
    exact (Life.Move.drop (drops_stack (tail_sublist _) (.inl rfl))).moves
  | throw e =>
    cases hcall
    exact throw_moves h

end State

/-! ### The order of the events -/

def Act.unshifts : Act ω → Bool
  | .guest (.unshift _) => true
  | _ => false

/-- The step destroys the stream. -/
def Destroys (s : State ω) (a : Act ω) : Prop :=
  s.destroyed = false ∧ (step s a).any (·.destroyed) = true

instance (s : State ω) (a : Act ω) : Decidable (Destroys s a) :=
  inferInstanceAs (Decidable (_ ∧ _))

/-- A step destroys the stream only when no event is on its way, and puts nothing back after the
end. -/
def Considerate (s : State ω) (a : Act ω) : Prop :=
  (Destroys s a → s.life.Settled) ∧ (a.unshifts = true → s.life.endEmitted = false)

instance (s : State ω) (a : Act ω) : Decidable (Considerate s a) :=
  inferInstanceAs (Decidable (_ ∧ _))

lemma step_moves {strict : Prop} {s s' : State ω} {a : Act ω} (hstep : step s a = some s')
    (h : strict → Considerate s a) : Life.Moves strict s.life s'.life := by
  have hallowed : State.Allowed strict s s' := by
    intro hs hnot hdone
    exact (h hs).1 ⟨hnot, by simp [hstep, hdone]⟩
  unfold step at hstep
  cases a with
  | guest c =>
    simp only at hstep
    split at hstep
    · refine State.call_moves hstep hallowed ?_
      rintro hs ⟨item, rfl⟩
      exact (h hs).2 rfl
    · cases hstep
  | code =>
    simp only at hstep
    split at hstep
    · cases hstep
    · next _ f rest _ hstack =>
      cases hstep
      have heq : s = ({ s with stack := rest } : State ω).frames [f] := by
        rw [State.frames, singleton_append, ← hstack]
      generalize ({ s with stack := rest } : State ω) = r at heq hallowed
      subst heq
      exact State.exec_moves hallowed
    · next t _ htask =>
      cases hstep
      exact State.execTask_moves htask
    · cases hstep
  | tick =>
    simp only at hstep
    split at hstep
    · next t rest ht =>
      obtain ⟨hidle, heq⟩ := ite_none_right_eq_some.mp hstep
      cases heq
      exact State.runTick_moves ht hidle.2
    · cases hstep
  | macrotask =>
    obtain ⟨-, heq⟩ := ite_none_right_eq_some.mp hstep
    cases heq
    rw [State.life_callGuest]

lemma start_counted (o : Setup) : (start ω o).life.Counted := by
  simp [Life.Counted, State.life, State.signs, start]

lemma start_orderly (o : Setup) : (start ω o).life.Orderly where
  readMarked := by
    simp only [State.life, start]
    split <;> rfl
  writeMarked := by
    simp only [State.life, start]
    split <;> rfl
  ended := by
    simp only [State.life, start]
    split <;> simp [Setup.initReadable]
  ending := by
    simp only [State.life, start]
    split <;> simp [Setup.initWritable]
  finished := by
    simp only [State.life, start]
    split <;> simp [Setup.initWritable]
  finishes := by simp [State.life, start]
  finishing := by simp [State.life, start]
  settled := by simp [State.life, start]
  closes := by simp [State.life, start]
  closed := by simp [State.life, start]
  sign := by simp [State.life, State.signs, start]
  last := by simp [State.life, State.signs, start]

/-- `'close'` is emitted at most once, and last if the stream is destroyed only when no event is on
its way. -/
theorem close_is_last (o : Setup) (acts : List (Act ω)) (s : State ω)
    (hrun : Machine.run step (start ω o) acts = some s) :
    s.signs.count .close ≤ 1 ∧
      (Machine.Obeys step Considerate (start ω o) acts → .close ∉ s.signs.dropLast) := by
  constructor
  · have hstep : ∀ (t : State ω) (a : Act ω) (t' : State ω), t.life.Counted →
        step t a = some t' → t'.life.Counted := by
      intro t a t' h hstep
      have hmoves : Life.Moves False t.life t'.life := step_moves hstep False.elim
      exact h.moves hmoves
    have hcounted := Machine.run_invariant_all hstep (start_counted o) hrun
    calc s.signs.count .close = s.closeEmitted.toNat := hcounted
      _ ≤ 1 := Bool.toNat_le _
  · intro hobeys
    have hstep : ∀ (t : State ω) (a : Act ω) (t' : State ω), t.life.Orderly → Considerate t a →
        step t a = some t' → t'.life.Orderly :=
      fun t a t' h hG hstep => h.moves (step_moves hstep fun _ => hG)
    have horderly := Machine.run_invariant hstep (start_orderly o) hobeys hrun
    exact horderly.last

def fullLife : List (Act Unit) :=
  [.macrotask, .guest (.write (.bytes [1]) true), .guest (.writeCallback none (some (.bytes [2]))),
    .code, .guest (.read none), .guest .ret, .code, .code, .guest .ret, .code, .code, .code,
    .guest .ret, .code, .guest (.end none), .code, .code, .guest .ret,
    .tick, .guest .ret, .code, .tick, .guest .ret, .code, .guest .ret,
    .macrotask, .guest (.destroy none), .code, .code, .guest .ret]

def plainTransform : Setup := { cls := .transform, toText := fun _ _ => [0x3f] }

theorem fullLife_closes_last :
    ∃ s, Machine.run step (start Unit plainTransform) fullLife = some s ∧
      s.signs = [.readable, .end, .finish, .close] ∧ .close ∉ s.signs.dropLast := by
  have hsigns : (Machine.run step (start Unit plainTransform) fullLife).map State.signs =
      some [.readable, .end, .finish, .close] := by decide +kernel
  obtain ⟨s, hrun, hs⟩ := map_eq_some_iff.mp hsigns
  exact ⟨s, hrun, hs, (close_is_last plainTransform fullLife s hrun).2 (by decide +kernel)⟩

/-- The stream is destroyed while `'finish'`, `'drain'` or `'end'` is on its way. -/
theorem destroyed_too_early :
    (Machine.run step (start Unit { cls := .writable, toText := fun _ _ => [0x3f] })
      [.macrotask, .guest (.end none), .guest (.destroy none), .code, .code, .guest .ret,
        .guest .ret, .tick]).map State.signs = some [.close, .finish] ∧
    (Machine.run step
      (start Unit { cls := .writable, highWaterMark := some 1, toText := fun _ _ => [0x3f] })
      [.macrotask, .guest (.write (.bytes [1]) false), .guest .ret, .code, .guest (.destroy none),
        .code, .code, .guest .ret, .guest .ret, .macrotask, .guest (.writeCallback none none),
        .code, .code]).map State.signs = some [.close, .drain] ∧
    (Machine.run step
      (start Unit { cls := .readable, encoding := some .utf8, toText := fun _ _ => [0x3f] })
      [.macrotask, .guest .resume, .guest .ret, .code, .guest (.push (some (.bytes [0xe2]))), .code,
        .guest (.push none), .guest .ret, .tick, .guest .ret, .code, .guest (.destroy none), .code,
        .guest .ret, .guest .ret, .code]).map State.signs = some [.data, .data, .close, .end] := by
  decide +kernel

end GoSpidermonkey.Nodejs.Stream
