import Mathlib

/-!
# Machines that answer

A transducer answers every input and moves to its next state. `outputs` are the answers to a list
of inputs, `final` is the state after them. One transducer refines another on the inputs that meet
a condition when some relation between their states is kept by every such input, with equal
answers (`Simulates`); then they answer whole lists of inputs alike (`Simulates.outputs_eq`).
-/

namespace Transducer

variable {σ τ ι ο : Type*}

def outputs (step : σ → ι → ο × σ) : σ → List ι → List ο
  | _, [] => []
  | s, i :: is => (step s i).1 :: outputs step (step s i).2 is

def final (step : σ → ι → ο × σ) : σ → List ι → σ
  | s, [] => s
  | s, i :: is => final step (step s i).2 is

/-- Every input meets the condition `G` in the state in which it comes. -/
def Always (step : σ → ι → ο × σ) (G : σ → ι → Prop) : σ → List ι → Prop
  | _, [] => True
  | s, i :: is => G s i ∧ Always step G (step s i).2 is

variable {step : σ → ι → ο × σ} {spec : τ → ι → ο × τ} {G : σ → ι → Prop} {R : σ → τ → Prop}

instance decidableAlways [∀ s i, Decidable (G s i)] : ∀ s is, Decidable (Always step G s is)
  | _, [] => isTrue trivial
  | s, i :: is =>
    have := decidableAlways (step s i).2 is
    inferInstanceAs (Decidable (G s i ∧ _))

@[simp] lemma final_nil (s : σ) : final step s [] = s := rfl

@[simp] lemma final_cons (s : σ) (i : ι) (is : List ι) :
    final step s (i :: is) = final step (step s i).2 is := rfl

lemma final_append (s : σ) (is js : List ι) :
    final step s (is ++ js) = final step (final step s is) js := by
  induction is generalizing s with
  | nil => rfl
  | cons i is ih => exact ih (step s i).2

lemma Always.at {s : σ} {is js : List ι} {i : ι} (h : Always step G s (is ++ i :: js)) :
    G (final step s is) i := by
  induction is generalizing s with
  | nil => exact h.1
  | cons k is ih => exact ih h.2

/-- Where inputs under `G` keep an invariant that gives `H`, every input meets `H`. -/
theorem Always.of_invariant {H : σ → ι → Prop} {I : σ → Prop}
    (hstep : ∀ s i, I s → G s i → I (step s i).2 ∧ H s i) {s : σ} {is : List ι} (hs : I s)
    (hG : Always step G s is) : Always step H s is := by
  induction is generalizing s with
  | nil => trivial
  | cons i is ih =>
    obtain ⟨hnext, hH⟩ := hstep s i hs hG.1
    exact ⟨hH, ih hnext hG.2⟩

/-- Under the condition `G`, related states answer alike and stay related. -/
def Simulates (step : σ → ι → ο × σ) (spec : τ → ι → ο × τ) (G : σ → ι → Prop)
    (R : σ → τ → Prop) : Prop :=
  ∀ s t i, R s t → G s i → (step s i).1 = (spec t i).1 ∧ R (step s i).2 (spec t i).2

/-- Related states answer every list of inputs alike. -/
theorem Simulates.outputs_eq (h : Simulates step spec G R) {s : σ} {t : τ} {is : List ι}
    (hR : R s t) (hG : Always step G s is) : outputs step s is = outputs spec t is := by
  induction is generalizing s t with
  | nil => rfl
  | cons i is ih =>
    obtain ⟨hout, hnext⟩ := h s t i hR hG.1
    simp only [outputs, hout]
    rw [ih hnext hG.2]

/-- Related states stay related. -/
theorem Simulates.final (h : Simulates step spec G R) {s : σ} {t : τ} {is : List ι}
    (hR : R s t) (hG : Always step G s is) : R (final step s is) (Transducer.final spec t is) := by
  induction is generalizing s t with
  | nil => exact hR
  | cons i is ih => exact ih (h s t i hR hG.1).2 hG.2

lemma exists_loses (step : σ → ι → ο × σ) (P : σ → Prop) {s : σ} {is : List ι} (hs : P s)
    (hfinal : ¬ P (final step s is)) :
    ∃ js i ks, is = js ++ i :: ks ∧ P (final step s js) ∧ ¬ P (final step s (js ++ [i])) := by
  induction is generalizing s with
  | nil => exact absurd hs hfinal
  | cons i is ih =>
    by_cases hi : P (step s i).2
    · obtain ⟨js, k, ks, rfl, hjs, hk⟩ := ih hi hfinal
      exact ⟨i :: js, k, ks, rfl, hjs, hk⟩
    · exact ⟨[], i, is, rfl, hs, hi⟩

end Transducer
