import GoSpidermonkey.Workers.Serve

/-!
# Counting `waitUntil` promises

The host reads `state.waiting` while it serves a request: to decide whether the response is flushed
at once, and to end the drain after it. The count should be the number of promises the request has
registered that have not settled. The glue starts each request at zero but keeps one `finally`
closure per promise alive, and these closures do not know which request they belong to. So the count
is right exactly as long as nothing of another request is registered or settles while a request is
served.
-/

namespace GoSpidermonkey.Workers

open Machine List

def Phase.counted : Phase → Option ℕ
  | .running k _ | .streaming k | .draining k => some k
  | .pooled | .resetting _ => none

/-- What the host relies on when it reads the counter. -/
structure Accounted (s : Instance) : Prop where
  /-- The counter is the number of outstanding promises of the request being served. -/
  count : ∀ k, s.phase.counted = some k → s.glue.waiting = s.tracked.count k
  drain : ∀ k, s.phase = .draining k → s.glue.waiting = 0 → k ∉ s.tracked

/-- Only the request being served registers `waitUntil` promises or has one settle. -/
def OwnWaitUntil (s : Instance) : Act → Prop
  | .waitUntil i | .waitSettled i => ∀ k ∈ s.phase.counted, i = k
  | _ => True

instance (s : Instance) (a : Act) : Decidable (OwnWaitUntil s a) := by
  apply @Act.casesOn (Decidable <| OwnWaitUntil s ·)
  case waitUntil | waitSettled => exact fun _ => inferInstanceAs
    (Decidable (∀ k ∈ s.phase.counted, _))
  all_goals intros; exact isTrue trivial

lemma accounted_iff (s : Instance) :
    Accounted s ↔ ∀ k, s.phase.counted = some k → s.glue.waiting = s.tracked.count k := by
  refine ⟨Accounted.count, fun h => ⟨h, fun k hk hzero hmem => ?_⟩⟩
  have hpos : 0 < s.tracked.count k := count_pos_iff.mpr hmem
  have hcount := h k (by simp [hk, Phase.counted])
  omega

/-- Promises belong to requests that have been taken. -/
def Known (s : Instance) : Prop := ∀ i ∈ s.tracked, i < s.next

lemma known_boot (e : Exports) : Known (boot e) := by simp [Known, boot]

lemma accounted_boot (e : Exports) : Accounted (boot e) := by
  simp [accounted_iff, boot, Phase.counted]

/-! ### Steps that leave the promises alone -/

/-- From `s` to `t` no promise is registered or settles and no request is started. -/
structure Quiet (s t : Instance) : Prop where
  waiting : t.glue.waiting = s.glue.waiting
  tracked : t.tracked = s.tracked
  next : s.next ≤ t.next
  counted : ∀ k, t.phase.counted = some k → s.phase.counted = some k

variable {s t : Instance} {a : Act}

lemma Quiet.known (h : Quiet s t) (hs : Known s) : Known t := by
  intro i hi
  rw [h.tracked] at hi
  exact (hs i hi).trans_le h.next

lemma Quiet.accounted (h : Quiet s t) (hs : Accounted s) : Accounted t := by
  rw [accounted_iff] at hs ⊢
  intro k hk
  rw [h.waiting, h.tracked]
  exact hs k (h.counted k hk)

/-- The reply to request `k` keeps its count or ends it. -/
lemma counted_afterReply {k j : ℕ} {r : Reply} (h : (afterReply k r).counted = some j) : k = j := by
  cases r <;> simp_all [afterReply, Phase.counted]

lemma quiet_finish {k : ℕ} {kind : Kind} (hp : s.phase = .running k kind) :
    Quiet s (s.finish k kind) := by
  have hcounted : s.phase.counted = some k := by rw [hp]; rfl
  have hrespond : ∀ r slot, Quiet s (s.respond k r slot) := by
    intro r slot
    refine ⟨rfl, rfl, le_rfl, fun j hj => ?_⟩
    rw [hcounted, counted_afterReply hj]
  unfold Instance.finish
  cases hr : s.glue.result with
  | none => exact ⟨rfl, rfl, le_rfl, fun j hj => by cases hj⟩
  | some slot =>
    cases kind with
    | fetch =>
      dsimp only
      cases ho : readFetch s.glue.waiting slot.value with
      | reply r => exact hrespond r slot
      | stream m =>
        refine ⟨rfl, rfl, le_rfl, fun j hj => ?_⟩
        rw [hcounted]
        exact hj
    | scheduled | queue => exact hrespond _ slot

/-- What a step can do to the promises: start a request, register one, settle one, or nothing. -/
lemma step_cases (h : step s a = some t) :
    (∃ kind, a = .serve kind ∧ t = s.start kind) ∨
    (∃ i, i < s.next ∧ a = .waitUntil i ∧
      t = { s with glue := s.glue.track, tracked := i :: s.tracked }) ∨
    (∃ i, i ∈ s.tracked ∧ a = .waitSettled i ∧
      t = { s with glue := s.glue.untrack, tracked := s.tracked.erase i }) ∨
    (OwnWaitUntil s a ∧ Quiet s t) := by
  cases a with
  | serve kind =>
    have h := Machine.of_guard h
    exact .inl ⟨kind, rfl, h.2.symm⟩
  | waitUntil i =>
    have h := Machine.of_guard h
    exact .inr (.inl ⟨i, h.1.2, rfl, h.2.symm⟩)
  | waitSettled i =>
    have h := Machine.of_guard h
    exact .inr (.inr (.inl ⟨i, h.1.2, rfl, h.2.symm⟩))
  | refuse text =>
    obtain ⟨-, rfl⟩ := Machine.of_guard h
    exact .inr (.inr (.inr ⟨trivial, rfl, rfl, Nat.le_succ _, fun k hk => by cases hk⟩))
  | settle i v =>
    simp only [step] at h
    split at h
    · cases h
      exact .inr (.inr (.inr ⟨trivial, rfl, rfl, le_rfl, fun k hk => hk⟩))
    · cases h
  | returned =>
    simp only [step] at h
    split at h
    next k kind hp =>
      cases h
      exact .inr (.inr (.inr ⟨trivial, quiet_finish hp⟩))
    next => cases h
  | failed err | drained | reset =>
    simp only [step] at h
    split at h
    · cases h
      exact .inr (.inr (.inr ⟨trivial, rfl, rfl, le_rfl, fun k hk => by cases hk⟩))
    · cases h
  | write gen chunk =>
    simp only [step] at h
    split at h
    · cases h
      refine .inr (.inr (.inr ⟨trivial, ?_⟩))
      unfold Instance.hostWrite
      split <;> exact ⟨rfl, rfl, le_rfl, fun k hk => hk⟩
    · cases h
  | pumpDone gen | pumpFail gen =>
    obtain ⟨-, rfl⟩ := Machine.of_guard h
    exact .inr (.inr (.inr ⟨trivial, rfl, rfl, le_rfl, fun k hk => hk⟩))
  | streamOver =>
    simp only [step] at h
    split at h
    next k hp _ =>
      cases h
      exact .inr (.inr (.inr ⟨trivial, rfl, rfl, le_rfl, fun j hj => by rw [hp]; exact hj⟩))
    next =>
      cases h
      exact .inr (.inr (.inr ⟨trivial, rfl, rfl, le_rfl, fun k hk => by cases hk⟩))
    next => cases h

/-! ### Steps that count -/

lemma accounted_start (hs : Known s) (kind : Kind) : Accounted (s.start kind) := by
  rw [accounted_iff]
  intro k hk
  obtain rfl : s.next = k := by simpa [Instance.start, Phase.counted] using hk
  have hnone : s.tracked.count s.next = 0 :=
    count_eq_zero.mpr fun hmem => (hs _ hmem).ne rfl
  show (0 : ℤ) = s.tracked.count s.next
  rw [hnone]
  rfl

/-- Registering a promise keeps the count right exactly if it is one of the request served. -/
lemma accounted_track_iff (hs : Accounted s) (i : ℕ) :
    Accounted { s with glue := s.glue.track, tracked := i :: s.tracked }
      ↔ ∀ k ∈ s.phase.counted, i = k := by
  rw [accounted_iff]
  refine forall₂_congr fun k hk => ?_
  have hcount := hs.count k hk
  show s.glue.waiting + 1 = ((i :: s.tracked).count k : ℤ) ↔ i = k
  rw [count_cons, hcount]
  by_cases hik : i = k
  · simp [hik]
  · simp [hik]

lemma accounted_untrack_iff (hs : Accounted s) {i : ℕ} (hi : i ∈ s.tracked) :
    Accounted { s with glue := s.glue.untrack, tracked := s.tracked.erase i }
      ↔ ∀ k ∈ s.phase.counted, i = k := by
  rw [accounted_iff]
  refine forall₂_congr fun k hk => ?_
  have hcount := hs.count k hk
  show s.glue.waiting - 1 = ((s.tracked.erase i).count k : ℤ) ↔ i = k
  by_cases hik : i = k
  · subst hik
    have hpos : 0 < s.tracked.count i := count_pos_iff.mpr hi
    rw [count_erase_self, hcount]
    simp only [iff_true]
    omega
  · rw [count_erase_of_ne (Ne.symm hik), hcount]
    simp [hik]

/-! ### Runs -/

lemma step_known (hs : Known s) (h : step s a = some t) : Known t := by
  rcases step_cases h with ⟨kind, rfl, rfl⟩ | ⟨i, hi, rfl, rfl⟩ | ⟨i, hi, rfl, rfl⟩ | ⟨-, hq⟩
  · exact fun j hj => (hs j hj).trans (Nat.lt_succ_self _)
  · exact forall_mem_cons.mpr ⟨hi, hs⟩
  · exact fun j hj => hs j (mem_of_mem_erase hj)
  · exact hq.known hs

lemma step_accounted_iff (hs : Known s ∧ Accounted s)
    (h : step s a = some t) : Accounted t ↔ OwnWaitUntil s a := by
  rcases step_cases h with ⟨kind, rfl, rfl⟩ | ⟨i, hi, rfl, rfl⟩ | ⟨i, hi, rfl, rfl⟩ | ⟨hown, hq⟩
  · exact iff_of_true (accounted_start hs.1 kind) trivial
  · exact accounted_track_iff hs.2 i
  · exact accounted_untrack_iff hs.2 hi
  · exact iff_of_true (hq.accounted hs.2) hown

/-- The counter is right exactly if no promise of another request is registered or settles while a
request is served. -/
theorem accounted_iff_ownWaitUntil (e : Exports) (acts : List Act) (s : Instance)
    (h : run step (boot e) acts = some s) :
    (∀ js, js <+: acts → ∀ t, run step (boot e) js = some t → Accounted t)
      ↔ Obeys step OwnWaitUntil (boot e) acts := by
  have hboot : Known (boot e) ∧ Accounted (boot e) := ⟨known_boot e, accounted_boot e⟩
  have hstep : ∀ u a v, Known u ∧ Accounted u → step u a = some v →
      (Known v ∧ Accounted v ↔ OwnWaitUntil u a) := by
    intro u a v hu hv
    rw [and_iff_right (step_known hu.1 hv)]
    exact step_accounted_iff hu hv
  rw [← invariant_iff_obeys hstep hboot h]
  refine forall₄_congr fun js hjs t ht => ?_
  have hknown : Known t := run_invariant_all (fun _ _ _ => step_known) hboot.1 ht
  exact (and_iff_right hknown).symm

def ownWork : List Act :=
  [.serve .fetch, .waitUntil 0, .settle 0 (.ok (.response ⟨200, [], [], .empty⟩)), .returned,
    .waitSettled 0, .drained, .reset]

theorem ownWork_accounted :
    (run step (boot ⟨false, false⟩) ownWork).isSome = true
      ∧ ∀ js, js <+: ownWork → ∀ t, run step (boot ⟨false, false⟩) js = some t → Accounted t := by
  have hsome : (run step (boot ⟨false, false⟩) ownWork).isSome = true := by decide
  obtain ⟨s, hs⟩ := Option.isSome_iff_exists.mp hsome
  exact ⟨hsome, (accounted_iff_ownWaitUntil _ ownWork s hs).mpr (by decide)⟩

/-- Background work of request 0 settles while request 1 is served. -/
def staleWork : List Act :=
  [.serve .fetch, .waitUntil 0, .settle 0 (.ok (.response ⟨200, [], [], .empty⟩)), .returned,
    .drained, .reset,
    .serve .fetch, .waitUntil 1, .settle 1 (.ok (.response ⟨200, [], [], .empty⟩)), .returned,
    .waitSettled 0]

/-- The drain of request 1 reads zero and stops although its promise is outstanding. -/
theorem staleWork_not_accounted :
    ∃ s, run step (boot ⟨false, false⟩) staleWork = some s
      ∧ s.phase = .draining 1 ∧ s.glue.waiting = 0 ∧ 1 ∈ s.tracked ∧ ¬ Accounted s := by
  obtain ⟨s, hs, hstate⟩ := (Option.any_eq_true (fun s : Instance => decide
    (s.phase = .draining 1 ∧ s.glue.waiting = 0 ∧ 1 ∈ s.tracked)) _).mp
    (by decide : (run step (boot ⟨false, false⟩) staleWork).any _ = true)
  obtain ⟨hphase, hzero, hmem⟩ := of_decide_eq_true hstate
  exact ⟨s, hs, hphase, hzero, hmem, fun h => h.drain 1 hphase hzero hmem⟩

end GoSpidermonkey.Workers
