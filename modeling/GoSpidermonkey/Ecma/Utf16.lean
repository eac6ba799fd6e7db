import Mathlib

/-!
# Strings

A string of ECMAScript is a list of 16-bit code units. A character outside of the basic plane is a
pair of surrogates, and a surrogate that is not part of a pair stands for no character; `scalars`
reads U+FFFD for it, and `toWellFormed` puts U+FFFD in its place.
-/

namespace GoSpidermonkey.Ecma

open List

abbrev JsString := List UInt16

def IsHigh (u : UInt16) : Prop := 0xD800 ≤ u ∧ u ≤ 0xDBFF

def IsLow (u : UInt16) : Prop := 0xDC00 ≤ u ∧ u ≤ 0xDFFF

def IsSurrogate (u : UInt16) : Prop := 0xD800 ≤ u ∧ u ≤ 0xDFFF

instance (u : UInt16) : Decidable (IsHigh u) := inferInstanceAs (Decidable (_ ∧ _))

instance (u : UInt16) : Decidable (IsLow u) := inferInstanceAs (Decidable (_ ∧ _))

instance (u : UInt16) : Decidable (IsSurrogate u) := inferInstanceAs (Decidable (_ ∧ _))

def replacement : Char := '�'

def encodeCodePoint (cp : ℕ) : JsString :=
  if cp < 0x10000 then [.ofNat cp]
  else [.ofNat (0xD800 + (cp - 0x10000) / 1024), .ofNat (0xDC00 + (cp - 0x10000) % 1024)]

/-- `String.fromCodePoint`; `none` for its `RangeError`. -/
def fromCodePoint (cp : ℕ) : Option JsString :=
  if cp ≤ 0x10FFFF then some (encodeCodePoint cp) else none

def pairPoint (hi lo : UInt16) : ℕ := 0x10000 + (hi.toNat - 0xD800) * 1024 + (lo.toNat - 0xDC00)

def unitChar (u : UInt16) : Char := if IsSurrogate u then replacement else Char.ofNat u.toNat

def utf16 (s : List Char) : JsString := s.flatMap fun c => encodeCodePoint c.toNat

def scalars : JsString → List Char
  | [] => []
  | [u] => [unitChar u]
  | hi :: lo :: s =>
    if IsHigh hi ∧ IsLow lo then Char.ofNat (pairPoint hi lo) :: scalars s
    else unitChar hi :: scalars (lo :: s)

/-- `toWellFormed`: every unpaired surrogate replaced by U+FFFD. -/
def toWellFormed : JsString → JsString
  | [] => []
  | [u] => [if IsSurrogate u then 0xFFFD else u]
  | hi :: lo :: s =>
    if IsHigh hi ∧ IsLow lo then hi :: lo :: toWellFormed s
    else (if IsSurrogate hi then 0xFFFD else hi) :: toWellFormed (lo :: s)

/-- `isWellFormed`: there is no unpaired surrogate. -/
def IsWellFormed (s : JsString) : Prop := toWellFormed s = s

lemma utf16_cons (c : Char) (s : List Char) : utf16 (c :: s) = encodeCodePoint c.toNat ++ utf16 s :=
  flatMap_cons

lemma utf16_append (s t : List Char) : utf16 (s ++ t) = utf16 s ++ utf16 t := flatMap_append

lemma toNat_unitChar (u : UInt16) :
    (unitChar u).toNat = if IsSurrogate u then 0xFFFD else u.toNat := by
  unfold unitChar
  have hu := u.toNat_lt
  split_ifs with h
  · rfl
  · rw [Char.toNat_ofNat, if_pos]
    simp only [IsSurrogate, UInt16.le_iff_toNat_le] at h
    simp at h
    unfold Nat.isValidChar
    omega

lemma toNat_pairChar {hi lo : UInt16} (h : IsHigh hi ∧ IsLow lo) :
    (Char.ofNat (pairPoint hi lo)).toNat = pairPoint hi lo := by
  rw [Char.toNat_ofNat, if_pos]
  simp only [IsHigh, IsLow, UInt16.le_iff_toNat_le] at h
  simp at h
  unfold Nat.isValidChar pairPoint
  omega

lemma encodeCodePoint_unitChar (u : UInt16) :
    encodeCodePoint (unitChar u).toNat = [if IsSurrogate u then 0xFFFD else u] := by
  rw [toNat_unitChar]
  by_cases h : IsSurrogate u
  · rw [if_pos h, if_pos h]
    rfl
  · rw [if_neg h, if_neg h, encodeCodePoint, if_pos u.toNat_lt, UInt16.ofNat_toNat]

lemma encodeCodePoint_pairPoint {hi lo : UInt16} (h : IsHigh hi ∧ IsLow lo) :
    encodeCodePoint (pairPoint hi lo) = [hi, lo] := by
  simp only [IsHigh, IsLow, UInt16.le_iff_toNat_le] at h
  simp at h
  rw [encodeCodePoint, if_neg (by unfold pairPoint; omega)]
  have hhi : 0xD800 + (pairPoint hi lo - 0x10000) / 1024 = hi.toNat := by unfold pairPoint; omega
  have hlo : 0xDC00 + (pairPoint hi lo - 0x10000) % 1024 = lo.toNat := by unfold pairPoint; omega
  rw [hhi, hlo, UInt16.ofNat_toNat, UInt16.ofNat_toNat]

/-- The characters of a string are those of the string without unpaired surrogates. -/
theorem utf16_scalars (s : JsString) : utf16 (scalars s) = toWellFormed s := by
  induction s using scalars.induct with
  | case1 => rfl
  | case2 u =>
    simp only [scalars, toWellFormed]
    rw [utf16_cons, encodeCodePoint_unitChar]
    rfl
  | case3 hi lo s h ih =>
    simp only [scalars, toWellFormed]
    rw [if_pos h, if_pos h, utf16_cons, toNat_pairChar h, encodeCodePoint_pairPoint h, ih]
    rfl
  | case4 hi lo s h ih =>
    simp only [scalars, toWellFormed]
    rw [if_neg h, if_neg h, utf16_cons, encodeCodePoint_unitChar, ih]
    rfl

lemma scalars_cons {u : UInt16} (h : ¬ IsHigh u) (s : JsString) :
    scalars (u :: s) = unitChar u :: scalars s := by
  cases s with
  | nil => rfl
  | cons lo s =>
    simp only [scalars]
    rw [if_neg fun hpair => h hpair.1]

lemma scalars_encodeCodePoint (c : Char) (s : JsString) :
    scalars (encodeCodePoint c.toNat ++ s) = c :: scalars s := by
  have hc : c.toNat < 0xD800 ∨ 0xDFFF < c.toNat ∧ c.toNat < 0x110000 := c.valid
  unfold encodeCodePoint
  by_cases hsmall : c.toNat < 0x10000
  · have hunit : ¬ IsSurrogate (.ofNat c.toNat) := by
      simp only [IsSurrogate, UInt16.le_iff_toNat_le]
      simp
      omega
    have hhigh : ¬ IsHigh (.ofNat c.toNat) := fun h =>
      hunit ⟨h.1, UInt16.le_trans h.2 (by decide)⟩
    rw [if_pos hsmall, singleton_append, scalars_cons hhigh, unitChar, if_neg hunit,
      UInt16.toNat_ofNat_of_lt' hsmall, Char.ofNat_toNat]
  · rw [if_neg hsmall]
    obtain ⟨hi, hhi, hhinat⟩ : ∃ hi : UInt16, .ofNat (0xD800 + (c.toNat - 0x10000) / 1024) = hi ∧
        hi.toNat = 0xD800 + (c.toNat - 0x10000) / 1024 :=
      ⟨_, rfl, UInt16.toNat_ofNat'.trans (Nat.mod_eq_of_lt (by omega))⟩
    obtain ⟨lo, hlo, hlonat⟩ : ∃ lo : UInt16, .ofNat (0xDC00 + (c.toNat - 0x10000) % 1024) = lo ∧
        lo.toNat = 0xDC00 + (c.toNat - 0x10000) % 1024 :=
      ⟨_, rfl, UInt16.toNat_ofNat'.trans (Nat.mod_eq_of_lt (by omega))⟩
    have hpair : IsHigh hi ∧ IsLow lo := by
      simp only [IsHigh, IsLow, UInt16.le_iff_toNat_le, hhinat, hlonat]
      simp
      omega
    have hpoint : pairPoint hi lo = c.toNat := by
      unfold pairPoint
      omega
    rw [hhi, hlo, cons_append, singleton_append]
    simp only [scalars]
    rw [if_pos hpair, hpoint, Char.ofNat_toNat]

lemma scalars_utf16 (cs : List Char) : scalars (utf16 cs) = cs := by
  induction cs with
  | nil => rfl
  | cons c cs ih => rw [utf16_cons, scalars_encodeCodePoint, ih]

/-! ### The iterator -/

/-- The parts in which a loop over a string gives it: pairs of surrogates, and single units. -/
def iterate : JsString → List JsString
  | [] => []
  | [c] => [[c]]
  | c :: lo :: s => if IsHigh c ∧ IsLow lo then [c, lo] :: iterate s else [c] :: iterate (lo :: s)

/-- No pair of surrogates has its halves in two strings. -/
def Whole (s t : JsString) : Prop := ∀ hi ∈ s.getLast?, ∀ lo ∈ t.head?, ¬ (IsHigh hi ∧ IsLow lo)

/-- The first `n` units of a string end inside a pair of surrogates. -/
def SplitsPair (s : JsString) (n : ℕ) : Prop := ¬ Whole (s.take n) (s.drop n)

lemma not_isHigh_of_isLow {u : UInt16} (h : IsLow u) : ¬ IsHigh u := by
  simp only [IsHigh, IsLow, UInt16.le_iff_toNat_le] at *
  simp at *
  omega

lemma flatten_iterate (s : JsString) : (iterate s).flatten = s := by
  induction s using iterate.induct with
  | case1 => rfl
  | case2 c => rfl
  | case3 c lo s h ih =>
    simp only [iterate]
    rw [if_pos h, flatten_cons, ih]
    rfl
  | case4 c lo s h ih =>
    simp only [iterate]
    rw [if_neg h, flatten_cons, ih]
    rfl

lemma iterate_append {s t : JsString} (h : Whole s t) :
    iterate (s ++ t) = iterate s ++ iterate t := by
  induction s using iterate.induct with
  | case1 => rfl
  | case2 c =>
    cases t with
    | nil => rfl
    | cons lo t => exact if_neg (h c rfl lo rfl)
  | case3 c lo s hpair ih =>
    simp only [cons_append, iterate]
    rw [if_pos hpair, if_pos hpair, ih, cons_append]
    intro hi hhi
    cases s with
    | nil => cases hhi
    | cons u s => exact h hi (by simpa using hhi)
  | case4 c lo s hpair ih =>
    simp only [cons_append, iterate]
    rw [if_neg hpair, if_neg hpair, ← cons_append, ih, cons_append]
    exact fun hi hhi => h hi (by simpa using hhi)

lemma whole_of_iterate {s : JsString} {front back : List JsString} (h : iterate s = front ++ back) :
    Whole front.flatten back.flatten ∧ iterate front.flatten = front := by
  induction s using iterate.induct generalizing front with
  | case1 =>
    obtain ⟨rfl, rfl⟩ := append_eq_nil_iff.mp h.symm
    exact ⟨fun _ h => (nomatch h), rfl⟩
  | case2 c =>
    cases front with
    | nil => exact ⟨fun _ h => (nomatch h), rfl⟩
    | cons p front =>
      obtain ⟨rfl, hnil⟩ := List.cons.inj h
      obtain ⟨rfl, rfl⟩ := append_eq_nil_iff.mp hnil.symm
      exact ⟨fun _ _ _ h => (nomatch h), rfl⟩
  | case3 c lo s hpair ih =>
    simp only [iterate] at h
    rw [if_pos hpair] at h
    cases front with
    | nil => exact ⟨fun _ h => (nomatch h), rfl⟩
    | cons p front =>
      obtain ⟨rfl, htail⟩ := List.cons.inj h
      obtain ⟨hwhole, hfront⟩ := ih htail
      constructor
      · intro hi hhi lo' hlo'
        cases hflat : front.flatten with
        | nil =>
          have hlast : lo = hi := by simpa [hflat] using hhi
          exact fun hsplit => not_isHigh_of_isLow hpair.2 (hlast ▸ hsplit.1)
        | cons u t =>
          refine hwhole hi ?_ lo' hlo'
          rw [hflat]
          simpa [hflat] using hhi
      · simp only [flatten_cons, cons_append, nil_append, iterate]
        rw [if_pos hpair, hfront]
  | case4 c lo s hpair ih =>
    simp only [iterate] at h
    rw [if_neg hpair] at h
    cases front with
    | nil => exact ⟨fun _ h => (nomatch h), rfl⟩
    | cons p front =>
      obtain ⟨rfl, htail⟩ := List.cons.inj h
      obtain ⟨hwhole, hfront⟩ := ih htail
      have hflatten : front.flatten ++ back.flatten = lo :: s := by
        rw [← flatten_append, ← flatten_iterate (lo :: s)]
        exact congrArg List.flatten htail.symm
      rw [flatten_cons]
      cases hflat : front.flatten with
      | nil =>
        rw [hflat, nil_append] at hflatten
        rw [hflat] at hfront
        refine ⟨fun hi hhi lo' hlo' => ?_, by rw [← hfront]; rfl⟩
        cases hhi
        rw [hflatten] at hlo'
        cases hlo'
        exact hpair
      | cons u t =>
        rw [hflat] at hflatten hwhole hfront
        obtain rfl : u = lo := (List.cons.inj hflatten).1
        refine ⟨fun hi hhi => hwhole hi (by simpa using hhi), ?_⟩
        simp only [cons_append, nil_append, iterate]
        rw [if_neg hpair, hfront]

end GoSpidermonkey.Ecma
