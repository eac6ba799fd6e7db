import GoSpidermonkey.Workers.Serve

/-!
# Request/response pairing

What a request is handed must come from its own handler promise. The glue keeps one slot for all
requests and its closures do not know which request is being served, so the pairing rests on the
order of events: it holds in every run in which no promise of an earlier request settles while the
host is still waiting for a later one. Streamed bodies need no such condition on the pumps, because
`__cfw_host_write` checks the generation of the pump that calls it.
-/

namespace GoSpidermonkey.Workers

open Machine List

/-- Everything reported for a request was computed from a settlement of its own promise. -/
def Paired (s : Instance) : Prop :=
  ∀ r ∈ s.reports, ∀ slot, r.source = some slot →
    slot.owner = r.req ∧ (r.req, slot.value) ∈ s.settled

def Phase.awaited : Phase → Option ℕ
  | .running k _ => some k
  | _ => none

/-- While the host waits for request `k`, only the promise of request `k` settles. -/
def OwnSettlement (s : Instance) : Act → Prop
  | .settle i _ => s.phase.awaited = none ∨ s.phase.awaited = some i
  | _ => True

instance (s : Instance) (a : Act) : Decidable (OwnSettlement s a) := by
  cases a <;> dsimp only [OwnSettlement] <;> infer_instance

/-- The invariant behind `Paired`. -/
structure Inv (s : Instance) : Prop where
  paired : Paired s
  slot : ∀ slot, s.glue.result = some slot → (slot.owner, slot.value) ∈ s.settled
  /-- While request `k` is awaited, the slot is its own. -/
  running : ∀ k kind, s.phase = .running k kind →
    ∀ slot, s.glue.result = some slot → slot.owner = k
  /-- Pumps read responses that happened, under generations already handed out. -/
  pumps : ∀ p ∈ s.pumps, p.gen ≤ s.streamGen ∧ (p.source.owner, p.source.value) ∈ s.settled
  /-- The pump of the current generation reads the response of the streamed request. -/
  streaming : ∀ k, s.phase = .streaming k →
    ∀ p ∈ s.pumps, p.gen = s.streamGen → p.source.owner = k
  sink : s.sink.isSome → ∃ k, s.phase = .streaming k

lemma inv_boot (e : Exports) : Inv (boot e) := by
  constructor <;> simp [boot, Paired]

/-! ### Reports -/

variable {s : Instance} {k : ℕ} {slot : Slot}

lemma Paired.mono {t : Instance} (h : Paired s) (hr : t.reports = s.reports)
    (hs : s.settled ⊆ t.settled) : Paired t := by
  intro r hmem slot hslot
  rw [hr] at hmem
  obtain ⟨ho, hv⟩ := h r hmem slot hslot
  exact ⟨ho, hs hv⟩

lemma Paired.report_none (h : Paired s) (k : ℕ) (r : Reply) :
    Paired (s.report k r none) := by
  intro r' hmem slot hslot
  rcases mem_cons.mp hmem with rfl | hmem
  · cases hslot
  · exact h r' hmem slot hslot

lemma Paired.report_some (h : Paired s) (r : Reply)
    (ho : slot.owner = k) (hv : (slot.owner, slot.value) ∈ s.settled) :
    Paired (s.report k r (some slot)) := by
  intro r' hmem slot' hslot
  rcases mem_cons.mp hmem with rfl | hmem
  · cases hslot
    exact ⟨ho, ho ▸ hv⟩
  · exact h r' hmem slot' hslot

/-! ### The steps -/

variable {s s' : Instance}

section

variable (h : Inv s)
include h

lemma Inv.start (hp : s.phase = .pooled) (kind : Kind) : Inv (s.start kind) := by
  have hsub : s.settled ⊆ (s.start kind).settled := by
    unfold Instance.start
    split_ifs
    · exact List.Subset.refl _
    · exact subset_cons_self _ _
  refine ⟨h.paired.mono rfl hsub, ?_, ?_, fun p hmem => ?_, ?_, fun hs => ?_⟩
  · intro slot hslot
    by_cases hk : s.exports.has kind
    · simp [Instance.start, Glue.run, hk] at hslot
    · simp only [Instance.start, Glue.run, hk, Bool.false_eq_true, if_false,
        Option.some.injEq] at hslot ⊢
      subst hslot
      exact mem_cons_self
  · intro k kind' hph slot hslot
    simp only [Instance.start, Phase.running.injEq] at hph
    by_cases hk : s.exports.has kind
    · simp [Instance.start, Glue.run, hk] at hslot
    · simp only [Instance.start, Glue.run, hk, Bool.false_eq_true, if_false,
        Option.some.injEq] at hslot
      rw [← hslot]
      exact hph.1
  · obtain ⟨hg, hv⟩ := h.pumps p hmem
    exact ⟨hg, hsub hv⟩
  · intro k hph
    cases hph
  · -- the sink was empty: the instance came from the pool
    obtain ⟨k, hk⟩ := h.sink hs
    rw [hp] at hk
    cases hk

lemma Inv.settle (i : ℕ) (v : Settlement) (live : List (ℕ × Kind))
    (hown : ∀ k kind, s.phase = .running k kind → i = k) :
    Inv { s with glue := s.glue.settle i v, live := live, settled := (i, v) :: s.settled } := by
  have hsub : s.settled ⊆ (i, v) :: s.settled := subset_cons_self _ _
  refine ⟨h.paired.mono rfl hsub, ?_, ?_, ?_, h.streaming, h.sink⟩
  · intro slot hslot
    simp only [Glue.settle, Option.some.injEq] at hslot
    subst hslot
    exact mem_cons_self
  · intro k kind hph slot hslot
    simp only [Glue.settle, Option.some.injEq] at hslot
    subst hslot
    exact hown k kind hph
  · intro p hmem
    exact ⟨(h.pumps p hmem).1, hsub (h.pumps p hmem).2⟩

lemma Inv.frame (hres : s'.glue.result = s.glue.result) (hrep : s'.reports = s.reports)
    (hset : s'.settled = s.settled) (hpumps : s'.pumps ⊆ s.pumps)
    (hgen : s'.streamGen = s.streamGen)
    (hrun : ∀ k kind, s'.phase = .running k kind → s.phase = .running k kind)
    (hstr : ∀ k, s'.phase = .streaming k → s.phase = .streaming k)
    (hsink : s'.sink.isSome → ∃ k, s'.phase = .streaming k) : Inv s' := by
  refine ⟨h.paired.mono hrep (by rw [hset]; exact List.Subset.refl _), ?_, ?_, ?_, ?_, hsink⟩
  · intro slot hslot
    rw [hset]
    exact h.slot slot (hres ▸ hslot)
  · intro k kind hph slot hslot
    exact h.running k kind (hrun k kind hph) slot (hres ▸ hslot)
  · intro p hmem
    rw [hgen, hset]
    exact h.pumps p (hpumps hmem)
  · intro k hph p hmem hp
    exact h.streaming k (hstr k hph) p (hpumps hmem) (hgen ▸ hp)

/-- A move to a phase in which nothing is awaited and nothing streamed, after a paired report. -/
lemma Inv.leave {t : Instance} (ht : Paired t) (hsame : t.glue = s.glue)
    (hset : t.settled = s.settled) (hpumps : t.pumps = s.pumps) (hgen : t.streamGen = s.streamGen)
    (hsink : t.sink = none) (hrun : ∀ k kind, t.phase ≠ .running k kind)
    (hstr : ∀ k, t.phase ≠ .streaming k) : Inv t := by
  refine ⟨ht, ?_, fun k kind hph => absurd hph (hrun k kind), ?_,
    fun k hph => absurd hph (hstr k), by simp [hsink]⟩
  · intro slot hslot
    rw [hset]
    exact h.slot slot (hsame ▸ hslot)
  · intro p hmem
    rw [hgen, hset]
    exact h.pumps p (hpumps ▸ hmem)

lemma Inv.openStream (m : Meta) (ho : slot.owner = k)
    (hslot : s.glue.result = some slot) : Inv (s.openStream k m slot) := by
  have hv := h.slot slot hslot
  refine ⟨h.paired.report_some _ ho hv, h.slot, fun _ _ hph => (by cases hph), ?_, ?_,
    fun _ => ⟨k, rfl⟩⟩
  · intro p hmem
    rcases mem_cons.mp hmem with rfl | hmem
    · exact ⟨le_refl _, hv⟩
    · obtain ⟨hg, hv'⟩ := h.pumps p hmem
      exact ⟨Nat.le_succ_of_le hg, hv'⟩
  · intro k' hph p hmem hp
    simp only [Instance.openStream, Phase.streaming.injEq] at hph
    rcases mem_cons.mp hmem with rfl | hmem
    · exact ho.trans hph
    · -- older pumps carry older generations
      have hg := (h.pumps p hmem).1
      simp only [Instance.openStream] at hp
      omega

omit h in
lemma afterReply_ne_running (k : ℕ) (r : Reply) (k' : ℕ) (kind : Kind) :
    afterReply k r ≠ .running k' kind := by
  cases r <;> simp [afterReply]

omit h in
lemma afterReply_ne_streaming (k : ℕ) (r : Reply) (k' : ℕ) : afterReply k r ≠ .streaming k' := by
  cases r <;> simp [afterReply]

lemma Inv.respond (r : Reply) (hk : slot.owner = k)
    (hslot : s.glue.result = some slot) (hsink : s.sink = none) : Inv (s.respond k r slot) :=
  h.leave (h.paired.report_some r hk (h.slot slot hslot)) rfl rfl rfl rfl hsink
    (afterReply_ne_running k r) (afterReply_ne_streaming k r)

lemma Inv.sink_none (hne : ∀ k, s.phase ≠ .streaming k) : s.sink = none := by
  cases hs : s.sink with
  | none => rfl
  | some k =>
    obtain ⟨k, hk⟩ := h.sink (by simp [hs])
    exact absurd hk (hne k)

lemma Inv.finish {kind : Kind} (hp : s.phase = .running k kind) : Inv (s.finish k kind) := by
  have hsink : s.sink = none := h.sink_none (by simp [hp])
  unfold Instance.finish
  cases hslot : s.glue.result with
  | none =>
    exact h.leave (h.paired.report_none k _) rfl rfl rfl rfl hsink (by simp) (by simp)
  | some slot =>
    have hown : slot.owner = k := h.running k kind hp slot hslot
    cases kind with
    | fetch =>
      simp only
      cases readFetch s.glue.waiting slot.value with
      | stream m => exact h.openStream m hown hslot
      | reply r => exact h.respond r hown hslot hsink
    | scheduled | queue => exact h.respond _ hown hslot hsink

lemma Inv.hostWrite {p : Pump} (chunk : Bytes) (hk : s.phase.req? = some k)
    (hp : p ∈ s.pumps) : Inv (s.hostWrite k p chunk) := by
  unfold Instance.hostWrite
  split_ifs with hc
  · obtain ⟨hs, hg⟩ := hc
    obtain ⟨k', hk'⟩ := h.sink hs
    have hkk : k' = k := by simpa [hk', Phase.req?] using hk
    have hown : p.source.owner = k := (h.streaming k' hk' p hp hg).trans hkk
    exact ⟨h.paired.report_some _ hown (h.pumps p hp).2, h.slot, h.running, h.pumps,
      h.streaming, h.sink⟩
  · exact h.frame rfl rfl rfl (filter_subset_self _) rfl (fun _ _ => id) (fun _ => id) h.sink

lemma Inv.closePump (gen : ℕ) (failed : Bool) : Inv (s.closePump gen failed) := by
  refine h.frame rfl rfl rfl (filter_subset_self _) rfl (fun _ _ => id) (fun _ => id) ?_
  intro hs
  refine h.sink ?_
  simp only [Instance.closePump] at hs
  split_ifs at hs
  · simpa using hs
  · exact hs

lemma Inv.step {a : Act} (hG : OwnSettlement s a) (hstep : step s a = some s') : Inv s' := by
  cases a with
  | serve kind =>
    obtain ⟨hp, rfl⟩ := Machine.of_guard hstep
    exact h.start hp kind
  | refuse text =>
    obtain ⟨hp, rfl⟩ := Machine.of_guard hstep
    exact h.leave (h.paired.report_none _ _) rfl rfl rfl rfl (h.sink_none (by simp [hp]))
      (by simp) (by simp)
  | settle i v =>
    simp only [Workers.step] at hstep
    split at hstep
    · simp only [Option.some.injEq] at hstep
      subst hstep
      refine h.settle i _ _ fun k kind hp => ?_
      simpa [OwnSettlement, hp, Phase.awaited, eq_comm] using hG
    · cases hstep
  | waitUntil i | waitSettled i =>
    obtain ⟨-, rfl⟩ := Machine.of_guard hstep
    exact h.frame rfl rfl rfl (List.Subset.refl _) rfl (fun _ _ => id) (fun _ => id) h.sink
  | returned =>
    simp only [Workers.step] at hstep
    split at hstep
    · rename_i k kind hp
      simp only [Option.some.injEq] at hstep
      subst hstep
      exact h.finish hp
    · cases hstep
  | failed err =>
    simp only [Workers.step] at hstep
    split at hstep
    · rename_i k kind hp
      simp only [Option.some.injEq] at hstep
      subst hstep
      exact h.leave (h.paired.report_none _ _) rfl rfl rfl rfl (h.sink_none (by simp [hp]))
        (by simp) (by simp)
    · cases hstep
  | write gen chunk =>
    simp only [Workers.step] at hstep
    split at hstep
    · rename_i k p hk hfind
      simp only [Option.some.injEq] at hstep
      subst hstep
      exact h.hostWrite chunk hk (mem_of_find?_eq_some hfind)
    · cases hstep
  | pumpDone gen =>
    obtain ⟨-, rfl⟩ := Machine.of_guard hstep
    exact h.closePump gen false
  | pumpFail gen =>
    obtain ⟨-, rfl⟩ := Machine.of_guard hstep
    exact h.closePump gen true
  | streamOver =>
    simp only [Workers.step] at hstep
    split at hstep
    · simp only [Option.some.injEq] at hstep
      subst hstep
      exact h.frame rfl rfl rfl (List.Subset.refl _) rfl (by simp) (by simp) (by simp)
    · simp only [Option.some.injEq] at hstep
      subst hstep
      exact h.leave (h.paired.report_none _ _) rfl rfl rfl rfl rfl (by simp) (by simp)
    · cases hstep
  | drained | reset =>
    simp only [Workers.step] at hstep
    split at hstep
    · rename_i k hp
      simp only [Option.some.injEq] at hstep
      subst hstep
      exact h.leave h.paired rfl rfl rfl rfl (h.sink_none (by simp [hp])) (by simp) (by simp)
    · cases hstep

end

/-! ### Whole runs -/

/-- In every run in which only the awaited promise settles while a request is awaited, everything
reported for a request comes from its own handler promise. -/
theorem paired_of_ownSettlement (e : Exports) (acts : List Act) (s : Instance)
    (hown : Obeys step OwnSettlement (boot e) acts)
    (hrun : run step (boot e) acts = some s) : Paired s :=
  (run_invariant (fun _ _ _ h hG hs => h.step hG hs) (inv_boot e) hown hrun).paired

/-- A response whose body is `text`. -/
def textResponse (text : String) : Settlement :=
  .ok (.response ⟨200, [], [], .bytes (str text)⟩)

/-- Two requests, each answered by its own promise. -/
theorem paired_two_requests :
    Paired ((run step (boot ⟨false, false⟩)
      [.serve .fetch, .settle 0 (textResponse "a"), .returned, .drained, .reset,
       .serve .fetch, .settle 1 (textResponse "b"), .returned]).getD (boot ⟨false, false⟩)) :=
  paired_of_ownSettlement ⟨false, false⟩
    [.serve .fetch, .settle 0 (textResponse "a"), .returned, .drained, .reset,
     .serve .fetch, .settle 1 (textResponse "b"), .returned] _
    (by decide) rfl

/-- Request 1 is answered with the response of request 0. -/
theorem stale_settlement_not_paired :
    ¬ ∀ s, run step (boot ⟨false, false⟩)
      [.serve .fetch, .returned, .reset, .serve .fetch, .settle 0 (textResponse "a"), .returned]
        = some s → Paired s := by
  intro h
  have hpair := h _ rfl
  have hrep := hpair ⟨1, .response 200 [] (str "a"), some ⟨0, textResponse "a"⟩⟩
    (by decide) _ rfl
  exact absurd hrep.1 (by decide)

end GoSpidermonkey.Workers
