import Mathlib

/-!
# Computations with fuel

A recursion without an evident measure is a function of the nested calls it may still make, with
the answer `none` when they are used up. `Returns f` says that the computation comes back: from
some amount of fuel on, the answer is the same value.
-/

namespace Fuel

variable {α β : Type*}

/-- With enough fuel the computation has an answer, and more fuel does not change it. -/
def Returns (f : ℕ → Option α) : Prop := ∃ r n, ∀ m, n ≤ m → f m = some r

lemma returns_const (r : α) : Returns fun _ => some r := ⟨r, 0, fun _ _ => rfl⟩

lemma returns_iff_of_mono {f : ℕ → Option α}
    (hmono : ∀ n m r, n ≤ m → f n = some r → f m = some r) :
    Returns f ↔ ∃ n, (f n).isSome := by
  constructor
  · rintro ⟨r, n, h⟩
    exact ⟨n, by rw [h n le_rfl]; rfl⟩
  · rintro ⟨n, hn⟩
    obtain ⟨r, hr⟩ := Option.isSome_iff_exists.mp hn
    exact ⟨r, n, fun m hm => hmono n m r hm hr⟩

/-- With enough fuel the answer is `r`. -/
def ReturnsTo (f : ℕ → Option α) (r : α) : Prop := ∃ n, ∀ m, n ≤ m → f m = some r

lemma returnsTo_const (r : α) : ReturnsTo (fun _ => some r) r := ⟨0, fun _ _ => rfl⟩

lemma ReturnsTo.bind {f : ℕ → Option α} {g : α → ℕ → Option β} {a : α} {b : β} (hf : ReturnsTo f a)
    (hg : ReturnsTo (g a) b) : ReturnsTo (fun n => (f n).bind fun a => g a n) b := by
  obtain ⟨n, hn⟩ := hf
  obtain ⟨m, hm⟩ := hg
  refine ⟨max n m, fun k hk => ?_⟩
  simp only [hn k (le_of_max_le_left hk), Option.bind_some, hm k (le_of_max_le_right hk)]

lemma ReturnsTo.map {f : ℕ → Option α} {a : α} (hf : ReturnsTo f a) (g : α → β) :
    ReturnsTo (fun n => (f n).map g) (g a) := by
  obtain ⟨n, hn⟩ := hf
  exact ⟨n, fun m hm => by simp only [hn m hm, Option.map_some]⟩

lemma ReturnsTo.foldlM {f : β → α → ℕ → Option β} {g : β → α → β}
    (hf : ∀ b a, ReturnsTo (f b a) (g b a))
    (as : List α) (b : β) :
    ReturnsTo (fun n => as.foldlM (fun b a => f b a n) b) (as.foldl g b) := by
  induction as generalizing b with
  | nil => exact returnsTo_const b
  | cons a as ih => exact (hf b a).bind (ih (g b a))

lemma Returns.bind {f : ℕ → Option α} {g : α → ℕ → Option β} (hf : Returns f)
    (hg : ∀ a, Returns (g a)) : Returns fun n => (f n).bind fun a => g a n := by
  obtain ⟨a, ha⟩ := hf
  obtain ⟨b, hb⟩ := hg a
  exact ⟨b, ReturnsTo.bind (g := g) ha hb⟩

lemma Returns.foldlM {f : β → α → ℕ → Option β} (hf : ∀ b a, Returns (f b a))
    (as : List α) (b : β) :
    Returns fun n => as.foldlM (fun b a => f b a n) b := by
  choose g hg using hf
  exact ⟨_, ReturnsTo.foldlM hg as b⟩

/-! ### Two computations side by side -/

variable {γ δ : Type*}

lemma rel_foldlM {R : α → β → Prop} {f : α → γ → Option α} {g : β → γ → Option β}
    (hstep : ∀ a b c, R a b → Option.Rel R (f a c) (g b c)) (cs : List γ) {a : α} {b : β}
    (hab : R a b) : Option.Rel R (cs.foldlM f a) (cs.foldlM g b) := by
  induction cs generalizing a b with
  | nil => exact .some hab
  | cons c cs ih =>
    rw [List.foldlM_cons, List.foldlM_cons]
    have hrel := hstep a b c hab
    generalize f a c = o, g b c = o' at hrel
    cases hrel with
    | none => exact .none
    | some h => exact ih h

lemma rel_map {R : α → β → Prop} {S : γ → δ → Prop} {f : α → γ} {g : β → δ} {o : Option α}
    {o' : Option β} (h : Option.Rel R o o') (hfg : ∀ a b, R a b → S (f a) (g b)) :
    Option.Rel S (o.map f) (o'.map g) := by
  cases h with
  | none => exact .none
  | some h => exact .some (hfg _ _ h)

end Fuel
