import Mathlib

/-!
# Labelled machines and their runs

A machine is a start state and a partial step function driven by labels. A label names everything
that is not determined by the state: which party moves, what the environment answers, which
iteration order is taken. A run is a list of labels, so an interleaving is simply a run.

`Obeys G` singles out the runs all of whose steps meet a condition `G` on the state before the step
and on the label. `run_invariant` is the only induction on runs: every safety result is an
invariant that one step preserves.
-/

namespace Machine

open List

variable {σ ι : Type*}

/-- The state after the labels of a run, or `none` where a step is not enabled. -/
def run (step : σ → ι → Option σ) : σ → List ι → Option σ
  | s, [] => some s
  | s, i :: is => (step s i).bind fun s' => run step s' is

/-- Every step of the run meets the condition `G`. -/
def Obeys (step : σ → ι → Option σ) (G : σ → ι → Prop) : σ → List ι → Prop
  | _, [] => True
  | s, i :: is => G s i ∧ match step s i with
    | none => True
    | some s' => Obeys step G s' is

variable {step : σ → ι → Option σ} {G : σ → ι → Prop} {I : σ → Prop} {s s' : σ} {i : ι}
  {is js : List ι}

instance decidableObeys [∀ s i, Decidable (G s i)] :
    ∀ s is, Decidable (Obeys step G s is)
  | _, [] => isTrue trivial
  | s, i :: is =>
    have : Decidable (match step s i with | none => True | some s' => Obeys step G s' is) :=
      match step s i with
      | none => isTrue trivial
      | some s' => decidableObeys s' is
    inferInstanceAs (Decidable (G s i ∧ _))

lemma Obeys.tail (h : Obeys step G s (i :: is)) (hs : step s i = some s') :
    Obeys step G s' is := by
  have h2 := h.2
  rw [hs] at h2
  exact h2

lemma obeys_cons :
    Obeys step G s (i :: is) ↔ G s i ∧ ∀ s', step s i = some s' → Obeys step G s' is := by
  refine and_congr_right fun _ => ?_
  cases step s i with
  | none => simp
  | some s' => simp

lemma of_guard {p : Prop} [Decidable p] (h : (if p then some s else none) = some s') :
    p ∧ s = s' := by
  simpa only [Option.ite_none_right_eq_some, Option.some.injEq] using h

lemma of_not_guard {p : Prop} [Decidable p] (h : (if p then none else some s) = some s') :
    ¬ p ∧ s = s' := by
  simpa only [Option.ite_none_left_eq_some, Option.some.injEq] using h

@[simp] lemma run_nil (s : σ) : run step s [] = some s := rfl

lemma run_cons (s : σ) (i : ι) (is : List ι) :
    run step s (i :: is) = (step s i).bind fun s' => run step s' is := rfl

lemma run_append (s : σ) (is js : List ι) :
    run step s (is ++ js) = (run step s is).bind fun s' => run step s' js := by
  induction is generalizing s with
  | nil => rfl
  | cons i is ih =>
    simp only [cons_append, run_cons, Option.bind_assoc]
    congr 1
    funext s'
    exact ih s'

lemma Obeys.of_append (h : Obeys step G s (is ++ js)) : Obeys step G s is := by
  induction is generalizing s with
  | nil => trivial
  | cons i is ih =>
    refine ⟨h.1, ?_⟩
    cases hs : step s i with
    | none => trivial
    | some s' => exact ih (h.tail hs)

lemma obeys_of_forall_mem (hG : ∀ s, ∀ i ∈ is, G s i) (s : σ) :
    Obeys step G s is := by
  induction is generalizing s with
  | nil => trivial
  | cons i is ih =>
    refine ⟨hG s i mem_cons_self, ?_⟩
    cases step s i with
    | none => trivial
    | some s' => exact ih (fun t j hj => hG t j (mem_cons_of_mem i hj)) s'

lemma obeys_of_forall (hG : ∀ s i, G s i) (s : σ) (is : List ι) : Obeys step G s is :=
  obeys_of_forall_mem (fun t i _ => hG t i) s

/-- What one step preserves under the condition `G`, every run under `G` preserves. -/
theorem run_invariant (hstep : ∀ s i s', I s → G s i → step s i = some s' → I s')
    (h : I s) (hG : Obeys step G s is) (hrun : run step s is = some s') : I s' := by
  induction is generalizing s with
  | nil =>
    simp only [run_nil, Option.some.injEq] at hrun
    exact hrun ▸ h
  | cons i is ih =>
    rw [run_cons] at hrun
    obtain ⟨t, ht, hrest⟩ := Option.bind_eq_some_iff.mp hrun
    exact ih (hstep s i t h hG.1 ht) (hG.tail ht) hrest

/-- The unconditional form of `run_invariant`. -/
theorem run_invariant_all (hstep : ∀ s i s', I s → step s i = some s' → I s') (h : I s)
    (hrun : run step s is = some s') : I s' :=
  run_invariant (G := fun _ _ => True) (fun s i s' hI _ => hstep s i s' hI) h
    (obeys_of_forall (fun _ _ => trivial) s is) hrun

/-- Where a step keeps the invariant exactly under `G`, a run keeps it in every state reached
exactly if it meets `G`. -/
theorem invariant_iff_obeys
    (hstep : ∀ s i s', I s → step s i = some s' → (I s' ↔ G s i))
    (h : I s) (hrun : run step s is = some s') :
    (∀ js, js <+: is → ∀ t, run step s js = some t → I t) ↔ Obeys step G s is := by
  constructor
  · intro hall
    induction is generalizing s with
    | nil => trivial
    | cons i is ih =>
      rw [run_cons] at hrun
      obtain ⟨t, ht, hrest⟩ := Option.bind_eq_some_iff.mp hrun
      have hfirst : run step s [i] = some t := by simp [run_cons, ht]
      have hI : I t := hall [i] ⟨is, rfl⟩ t hfirst
      refine ⟨(hstep s i t h ht).mp hI, ?_⟩
      rw [ht]
      refine ih hI hrest fun js hjs u hu => hall (i :: js) ?_ u ?_
      · exact cons_prefix_cons.mpr ⟨rfl, hjs⟩
      · rw [run_cons, ht]
        exact hu
  · rintro hG js ⟨ks, rfl⟩ t ht
    exact run_invariant (fun u i u' hu hi hs => (hstep u i u' hu hs).mpr hi) h hG.of_append ht

/-- The same, where a step is enabled only under `G`. -/
theorem progress_iff_obeys
    (hstep : ∀ s, ∀ i ∈ is, I s → ((∃ s', step s i = some s' ∧ I s') ↔ G s i)) (h : I s) :
    (∀ js, js <+: is → ∃ t, run step s js = some t ∧ I t) ↔ Obeys step G s is := by
  induction is generalizing s with
  | nil =>
    refine ⟨fun _ => trivial, fun _ js hjs => ?_⟩
    rw [prefix_nil.mp hjs]
    exact ⟨s, rfl, h⟩
  | cons i is ih =>
    have hrec := fun s j hj => hstep s j (mem_cons_of_mem i hj)
    constructor
    · intro hall
      obtain ⟨t, ht, hI⟩ := hall [i] ⟨is, rfl⟩
      have ht : step s i = some t := by simpa [run_cons, Option.bind_eq_some_iff] using ht
      refine ⟨(hstep s i mem_cons_self h).mp ⟨t, ht, hI⟩, ?_⟩
      rw [ht]
      refine (ih hrec hI).mp fun js hjs => ?_
      obtain ⟨u, hu, hIu⟩ := hall (i :: js) (cons_prefix_cons.mpr ⟨rfl, hjs⟩)
      rw [run_cons, ht] at hu
      exact ⟨u, hu, hIu⟩
    · intro hG js hjs
      cases js with
      | nil => exact ⟨s, rfl, h⟩
      | cons j js =>
        obtain ⟨rfl, hrest⟩ := cons_prefix_cons.mp hjs
        obtain ⟨t, ht, hI⟩ := (hstep s j mem_cons_self h).mpr hG.1
        obtain ⟨u, hu, hIu⟩ := (ih hrec hI).mpr (hG.tail ht) js hrest
        exact ⟨u, by rw [run_cons, ht]; exact hu, hIu⟩

lemma exists_endless (hrun : run step s is = some s') {g : ℕ → σ} {js : ℕ → ι}
    (hg : g 0 = s') (hsteps : ∀ n, step (g n) (js n) = some (g (n + 1))) :
    ∃ (f : ℕ → σ) (ks : ℕ → ι), f 0 = s ∧ (∀ n, step (f n) (ks n) = some (f (n + 1))) ∧
      ∀ n, f (is.length + n) = g n ∧ ks (is.length + n) = js n := by
  induction is generalizing s with
  | nil => exact ⟨g, js, hg.trans (Option.some.inj hrun).symm, hsteps, by simp⟩
  | cons i is ih =>
    rw [run_cons] at hrun
    obtain ⟨t, ht, hrest⟩ := Option.bind_eq_some_iff.mp hrun
    obtain ⟨f, ks, hf, hfsteps, hlater⟩ := ih hrest
    refine ⟨fun n => n.casesOn s f, fun n => n.casesOn i ks, rfl, ?_, ?_⟩
    · rintro (_ | n)
      · exact ht.trans (congrArg some hf.symm)
      · exact hfsteps n
    · intro n
      rw [length_cons, Nat.add_right_comm]
      exact hlater n

/-- Where every step makes a rank smaller, no run goes on for ever. -/
theorem no_infinite_run {μ : Type*} [Preorder μ] [WellFoundedLT μ] (rank : σ → μ)
    (hstep : ∀ s i s', I s → step s i = some s' → I s' ∧ rank s' < rank s) (hs : I s) :
    ¬ ∃ f : ℕ → σ, f 0 = s ∧ ∀ n, ∃ i, step (f n) i = some (f (n + 1)) := by
  rintro ⟨f, rfl, hf⟩
  have hI : ∀ n, I (f n) := by
    intro n
    induction n with
    | zero => exact hs
    | succ n ih =>
      obtain ⟨i, hi⟩ := hf n
      exact (hstep _ i _ ih hi).1
  obtain ⟨n, hn⟩ := WellFounded.not_rel_apply_succ (r := (· < ·)) fun n => rank (f n)
  obtain ⟨i, hi⟩ := hf n
  exact hn (hstep _ i _ (hI n) hi).2

end Machine
