import Mathlib

/-!
# Calls that can fail and keep their effects

A call reads and writes a state and may fail; what it wrote before it failed stays. Two ways of
reasoning about such calls are developed, each with a rule for every way of building a call:

* `Triple P x Q E`: from a state with `P`, the call `x` returns with `Q` or fails with `E`;
* `Mirrors R x y`: from related states the calls `x` and `y` answer alike and leave related states.
-/

namespace Failing

variable {ε σ τ α β : Type}

/-- A call on the state `σ` with errors `ε`. -/
abbrev Call (ε σ : Type) := ExceptT ε (StateM σ)

/-- The answer of a call, and the state it leaves. -/
def Call.on (x : Call ε σ α) (s : σ) : Except ε α × σ := x.run s

/-- A call that looks at the state. -/
def reads (f : σ → α) : Call ε σ α := ExceptT.mk fun s => (.ok (f s), s)

/-- A call that changes the state. -/
def writes (f : σ → σ) : Call ε σ Unit := ExceptT.mk fun s => (.ok (), f s)

/-- The value that is there, or an error. -/
def orThrow (o : Option α) (e : ε) : Call ε σ α :=
  match o with
  | some a => pure a
  | none => throw e

/-- A call whose error is caught: what it wrote before stays. -/
def attempt (x : Call ε σ α) : Call ε σ (Except ε α) :=
  ExceptT.mk fun s => (.ok (x.on s).1, (x.on s).2)

@[simp] lemma on_pure (a : α) (s : σ) : (pure a : Call ε σ α).on s = (.ok a, s) := rfl

@[simp] lemma on_throw (e : ε) (s : σ) : (throw e : Call ε σ α).on s = (.error e, s) := rfl

@[simp] lemma on_reads (f : σ → α) (s : σ) : (reads f : Call ε σ α).on s = (.ok (f s), s) := rfl

@[simp] lemma on_writes (f : σ → σ) (s : σ) : (writes f : Call ε σ Unit).on s = (.ok (), f s) := rfl

@[simp] lemma on_attempt (x : Call ε σ α) (s : σ) :
    (attempt x).on s = (.ok (x.on s).1, (x.on s).2) := rfl

/-- The second call starts in the state the first one leaves, and not at all if that failed. -/
lemma on_bind (x : Call ε σ α) (f : α → Call ε σ β) (s : σ) :
    (x >>= f).on s = match x.on s with
      | (.ok a, t) => (f a).on t
      | (.error e, t) => (.error e, t) := by
  have hrun : (x >>= f).on s = match x.on s with
      | (r, t) => (ExceptT.bindCont f r : StateM σ _) t := rfl
  rw [hrun]
  rcases x.on s with ⟨_ | a, t⟩ <;> rfl

/-! ### Triples -/

/-- From a state with `P`, the call returns with `Q` or fails with `E`. -/
def Triple (P : σ → Prop) (x : Call ε σ α) (Q : α → σ → Prop) (E : σ → Prop) : Prop :=
  ∀ s, P s → match x.on s with
    | (.ok a, t) => Q a t
    | (.error _, t) => E t

namespace Triple

variable {P P' E : σ → Prop} {Q Q' : α → σ → Prop} {S : β → σ → Prop}
  {x : Call ε σ α}

lemma pure {a : α} (h : ∀ s, P s → Q a s) : Triple P (pure a : Call ε σ α) Q E := h

lemma throw {e : ε} (h : ∀ s, P s → E s) : Triple P (throw e : Call ε σ α) Q E := h

lemma reads {f : σ → α} (h : ∀ s, P s → Q (f s) s) : Triple P (reads f : Call ε σ α) Q E := h

lemma writes {f : σ → σ} {Q : Unit → σ → Prop} (h : ∀ s, P s → Q () (f s)) :
    Triple P (writes f : Call ε σ Unit) Q E := h

/-- Two calls one after the other, where the second knows that the first can return its value. -/
lemma after {f : α → Call ε σ β} (hx : Triple P x Q E)
    (hf : ∀ a, (∃ s, (x.on s).1 = .ok a) → Triple (Q a) (f a) S E) : Triple P (x >>= f) S E := by
  intro s hs
  have hmid := hx s hs
  rw [on_bind]
  rcases hon : x.on s with ⟨_ | a, t⟩
  · rw [hon] at hmid
    exact hmid
  · rw [hon] at hmid
    exact hf a ⟨s, by rw [hon]⟩ t hmid

lemma bind {f : α → Call ε σ β} (hx : Triple P x Q E)
    (hf : ∀ a, Triple (Q a) (f a) S E) : Triple P (x >>= f) S E := hx.after fun a _ => hf a

lemma attempt (hx : Triple P x Q E) :
    Triple P (attempt x) (fun r s => match r with
      | .ok a => Q a s
      | .error _ => E s) fun _ => False := by
  intro s hs
  have hmid := hx s hs
  rw [on_attempt]
  rcases hon : x.on s with ⟨_ | a, t⟩ <;>
    · rw [hon] at hmid
      exact hmid

lemma weaken {E' : σ → Prop} (h : Triple P x Q E) (hP : ∀ s, P' s → P s)
    (hQ : ∀ a s, Q a s → Q' a s) (hE : ∀ s, E s → E' s) : Triple P' x Q' E' := by
  intro s hs
  have hmid := h s (hP s hs)
  rcases hon : x.on s with ⟨_ | a, t⟩
  · rw [hon] at hmid
    exact hE t hmid
  · rw [hon] at hmid
    exact hQ a t hmid

/-- A stronger precondition. -/
lemma pre (h : Triple P x Q E) (hP : ∀ s, P' s → P s) : Triple P' x Q E :=
  h.weaken hP (fun _ _ hs => hs) fun _ hs => hs

/-- A weaker postcondition. -/
lemma post (h : Triple P x Q E) (hQ : ∀ a s, Q a s → Q' a s) : Triple P x Q' E :=
  h.weaken (fun _ hs => hs) hQ fun _ hs => hs

/-- A weaker condition on failure. -/
lemma fails {E' : σ → Prop} (h : Triple P x Q E) (hE : ∀ s, E s → E' s) :
    Triple P x Q E' := h.weaken (fun _ hs => hs) (fun _ _ hs => hs) hE

/-- What a call that returned has made sure of. -/
lemma returned {p : Prop} (h : Triple P x (fun _ _ => p) fun _ => True) {s : σ}
    (hs : P s) (hok : (x.on s).1.isOk = true) : p := by
  have hmid := h s hs
  rcases hon : x.on s with ⟨_ | a, t⟩
  · rw [hon] at hok
    exact absurd hok Bool.false_ne_true
  · rw [hon] at hmid
    exact hmid

lemma of_ok (h : Triple P x Q E) {s : σ} {a : α} (hs : P s)
    (hok : (x.on s).1 = .ok a) : Q a (x.on s).2 := by
  have hmid := h s hs
  rcases hon : x.on s with ⟨_ | b, t⟩
  · rw [hon] at hok
    cases hok
  · rw [hon] at hmid hok
    obtain rfl := Except.ok.inj hok
    exact hmid

lemma of_error (h : Triple P x Q E) {s : σ} {e : ε} (hs : P s)
    (herr : (x.on s).1 = .error e) : E (x.on s).2 := by
  have hmid := h s hs
  rcases hon : x.on s with ⟨_ | b, t⟩
  · rw [hon] at hmid
    exact hmid
  · rw [hon] at herr
    cases herr

/-- What holds however the call ends. -/
lemma final {F : σ → Prop} (h : Triple P x (fun _ => F) F) {s : σ} (hs : P s) :
    F (x.on s).2 := by
  have hmid := h s hs
  rcases hon : x.on s with ⟨_ | a, t⟩ <;>
    · rw [hon] at hmid
      exact hmid

/-- A part of the precondition that does not speak of the state is a hypothesis. -/
lemma assuming {p : Prop} (h : p → Triple P x Q E) :
    Triple (fun s => P s ∧ p) x Q E := fun s hs => h hs.2 s hs.1

/-- `bind`, where a part of what the first call establishes does not speak of the state. -/
lemma knowing {R : α → σ → Prop} {p : α → Prop} {f : α → Call ε σ β}
    (hx : Triple P x (fun a s => R a s ∧ p a) E) (hf : ∀ a, p a → Triple (R a) (f a) S E) :
    Triple P (x >>= f) S E := hx.bind fun a => assuming (hf a)

/-- What holds before the call and does not speak of the state holds after it. -/
lemma const {p : Prop} (x : Call ε σ α) (h : ∀ s, P s → p) :
    Triple P x (fun _ _ => p) fun _ => True := by
  intro s hs
  rcases x.on s with ⟨_ | a, t⟩
  · trivial
  · exact h s hs

lemma orThrow {o : Option α} {e : ε} (hE : ∀ s, P s → E s) :
    Triple P (orThrow o e : Call ε σ α) (fun a s => P s ∧ o = some a) E := by
  cases o with
  | none => exact hE
  | some a => exact fun _ hs => ⟨hs, rfl⟩

lemma ite {p : Prop} [Decidable p] {x y : Call ε σ α} (hx : p → Triple P x Q E)
    (hy : ¬ p → Triple P y Q E) : Triple P (if p then x else y) Q E := by
  split
  case isTrue h => exact hx h
  case isFalse h => exact hy h

end Triple

/-! ### Mirrored calls -/

/-- From related states the calls answer alike and leave related states. -/
def Mirrors (R : σ → τ → Prop) (x : Call ε σ α) (y : Call ε τ α) : Prop :=
  ∀ s t, R s t → (x.on s).1 = (y.on t).1 ∧ R (x.on s).2 (y.on t).2

namespace Mirrors

variable {R : σ → τ → Prop}

lemma pure (a : α) : Mirrors R (pure a : Call ε σ α) (pure a) := fun _ _ h => ⟨rfl, h⟩

lemma throw (e : ε) : Mirrors R (throw e : Call ε σ α) (throw e) := fun _ _ h => ⟨rfl, h⟩

lemma orThrow (o : Option α) (e : ε) :
    Mirrors R (orThrow o e : Call ε σ α) (Failing.orThrow o e) := by
  cases o with
  | none => exact throw e
  | some a => exact pure a

lemma reads {f : σ → α} {g : τ → α} (h : ∀ s t, R s t → f s = g t) :
    Mirrors R (reads f : Call ε σ α) (Failing.reads g) :=
  fun s t hR => ⟨congrArg Except.ok (h s t hR), hR⟩

lemma writes {f : σ → σ} {g : τ → τ} (h : ∀ s t, R s t → R (f s) (g t)) :
    Mirrors R (writes f : Call ε σ Unit) (Failing.writes g) :=
  fun s t hR => ⟨rfl, h s t hR⟩

lemma after {x : Call ε σ α} {y : Call ε τ α} {f : α → Call ε σ β} {g : α → Call ε τ β}
    (hx : Mirrors R x y) (hf : ∀ a, (∃ s, (x.on s).1 = .ok a) → Mirrors R (f a) (g a)) :
    Mirrors R (x >>= f) (y >>= g) := by
  intro s t hR
  obtain ⟨hans, hnext⟩ := hx s t hR
  rw [on_bind, on_bind]
  rcases hxs : x.on s with ⟨_ | a, s'⟩ <;> rcases hyt : y.on t with ⟨_ | b, t'⟩ <;>
    simp only [hxs, hyt, Except.error.injEq, Except.ok.injEq, reduceCtorEq] at hans hnext
  · exact ⟨congrArg Except.error hans, hnext⟩
  · subst hans
    exact hf a ⟨s, by rw [hxs]⟩ s' t' hnext

lemma bind {x : Call ε σ α} {y : Call ε τ α} {f : α → Call ε σ β} {g : α → Call ε τ β}
    (hx : Mirrors R x y) (hf : ∀ a, Mirrors R (f a) (g a)) : Mirrors R (x >>= f) (y >>= g) :=
  hx.after fun a _ => hf a

end Mirrors

end Failing
