import GoSpidermonkey.Go.Bytes

/-!
# Percent escapes

The global `decodeURIComponent` of ECMAScript on strings without unpaired surrogates, which are
lists of characters here. A character is escaped as the bytes of its UTF-8 encoding, each as a `%`
and two hexadecimal digits; decoding a sequence of escapes for which the first byte tells the number
fails where the bytes are no encoding of a character.
-/

namespace GoSpidermonkey.Ecma

open List

def utf8 (s : List Char) : Bytes := s.flatMap String.utf8EncodeChar

@[simp] lemma utf8_nil : utf8 [] = [] := rfl

lemma utf8_append (a b : List Char) : utf8 (a ++ b) = utf8 a ++ utf8 b := flatMap_append

lemma utf8_cons (c : Char) (s : List Char) : utf8 (c :: s) = String.utf8EncodeChar c ++ utf8 s :=
  flatMap_cons

/-! ### Digits -/

/-- A digit of `toString(16).toUpperCase()`. -/
def upperHex (d : UInt8) : Char := if d < 10 then .ofNat (48 + d.toNat) else .ofNat (55 + d.toNat)

def hexValue (c : Char) : Option UInt8 :=
  if '0' ≤ c ∧ c ≤ '9' then some (.ofNat (c.toNat - 48))
  else if 'a' ≤ c ∧ c ≤ 'f' then some (.ofNat (c.toNat - 87))
  else if 'A' ≤ c ∧ c ≤ 'F' then some (.ofNat (c.toNat - 55))
  else none

def hexByte (hi lo : Char) : Option UInt8 := do
  let hi ← hexValue hi
  let lo ← hexValue lo
  return hi <<< 4 ||| lo

def escapeByte (b : UInt8) : List Char := ['%', upperHex (b >>> 4), upperHex (b &&& 15)]

lemma hexByte_upperHex (b : UInt8) :
    hexByte (upperHex (b >>> 4)) (upperHex (b &&& 15)) = some b := by
  revert b
  decide +kernel

def escapeChar (c : Char) : List Char := (String.utf8EncodeChar c).flatMap escapeByte

/-! ### Decoding -/

def readEscapes : ℕ → List Char → Option (Bytes × List Char)
  | 0, s => some ([], s)
  | n + 1, c :: hi :: lo :: s =>
    if c = '%' then do
      let b ← hexByte hi lo
      let (bs, rest) ← readEscapes n s
      return (b :: bs, rest)
    else none
  | _ + 1, _ => none

lemma length_readEscapes {n : ℕ} {s rest : List Char} {bs : Bytes}
    (h : readEscapes n s = some (bs, rest)) : rest.length + n ≤ s.length := by
  fun_induction readEscapes n s generalizing bs with
  | case1 s => simp_all
  | case2 n hi lo s ih =>
    simp only [Option.bind_eq_bind, Option.bind_eq_some_iff, Option.pure_def,
      Option.some.injEq, Prod.mk.injEq] at h
    obtain ⟨b, -, ⟨bs', rest'⟩, hrec, -, rfl⟩ := h
    have hlen : rest'.length + n ≤ s.length := ih hrec
    simp only [length_cons]
    omega
  | case3 => cases h
  | case4 => cases h

lemma readEscapes_escapes (bs : Bytes) (t : List Char) :
    readEscapes bs.length (bs.flatMap escapeByte ++ t) = some (bs, t) := by
  induction bs with
  | nil => rfl
  | cons b bs ih =>
    rw [flatMap_cons, append_assoc, length_cons, escapeByte]
    simp [readEscapes, hexByte_upperHex, ih]

/-- How many escapes follow that of a character's first byte. -/
def continuations (b : UInt8) : Option ℕ :=
  if b < 0x80 then some 0
  else if b < 0xC0 then none
  else if b < 0xE0 then some 1
  else if b < 0xF0 then some 2
  else if b < 0xF8 then some 3
  else none

lemma continuations_utf8EncodeChar {c : Char} {b : UInt8} {bs : Bytes}
    (h : String.utf8EncodeChar c = b :: bs) : continuations b = some bs.length := by
  unfold String.utf8EncodeChar at h
  simp only at h
  have hr : c.val.toNat < 0x110000 := by
    have := c.valid
    unfold UInt32.isValidChar Nat.isValidChar at this
    omega
  generalize c.val.toNat = v at h hr
  split_ifs at h with h₁ h₂ h₃
  · obtain ⟨rfl, rfl⟩ := List.cons.inj h
    exact (by decide +kernel : ∀ v < 128, continuations (.ofNat v) = some 0) v (by omega)
  · obtain ⟨rfl, rfl⟩ := List.cons.inj h
    exact (by decide +kernel : ∀ d < 32, continuations (.ofNat (d + 192)) = some 1) _ (by omega)
  · obtain ⟨rfl, rfl⟩ := List.cons.inj h
    exact (by decide +kernel : ∀ d < 16, continuations (.ofNat (d + 224)) = some 2) _ (by omega)
  · obtain ⟨rfl, rfl⟩ := List.cons.inj h
    exact (by decide +kernel : ∀ d < 8, continuations (.ofNat (d + 240)) = some 3) _ (by omega)

def readChar (s : List Char) : Option (Char × List Char) := do
  let (first, s) ← readEscapes 1 s
  let n ← continuations (first.headD 0)
  let (more, s) ← readEscapes n s
  let c ← (first ++ more).toByteArray.utf8DecodeChar? 0
  return (c, s)

lemma length_readChar {s rest : List Char} {c : Char} (h : readChar s = some (c, rest)) :
    rest.length < s.length := by
  simp only [readChar, Option.bind_eq_bind, Option.bind_eq_some_iff, Option.pure_def,
    Option.some.injEq, Prod.mk.injEq] at h
  obtain ⟨⟨first, s₁⟩, h₁, n, -, ⟨more, s₂⟩, h₂, c', -, -, rfl⟩ := h
  have hfirst : s₁.length + 1 ≤ s.length := length_readEscapes h₁
  have hmore : s₂.length + n ≤ s₁.length := length_readEscapes h₂
  show s₂.length < s.length
  omega

lemma readChar_escapeChar (c : Char) (t : List Char) :
    readChar (escapeChar c ++ t) = some (c, t) := by
  have hdec : (String.utf8EncodeChar c).toByteArray.utf8DecodeChar? 0 = some c := by
    have h := utf8DecodeChar?_utf8Encode_singleton (c := c)
    rwa [List.utf8Encode, flatMap_singleton] at h
  unfold escapeChar
  cases h : String.utf8EncodeChar c with
  | nil => exact absurd h String.utf8EncodeChar_ne_nil
  | cons b bs =>
    have hfirst := readEscapes_escapes [b] (bs.flatMap escapeByte ++ t)
    have hmore := readEscapes_escapes bs t
    have hn := continuations_utf8EncodeChar h
    rw [h, ← singleton_append, toByteArray_append] at hdec
    simp only [flatMap_cons, flatMap_nil, append_nil, length_cons,
      length_nil, Nat.zero_add, append_assoc] at hfirst ⊢
    simp [readChar, hfirst, hn, hmore, hdec]

/-- `decodeURIComponent`; `none` is the `URIError`. -/
def decodeURIComponent : List Char → Option (List Char)
  | [] => some []
  | c :: s =>
    if c = '%' then
      match h : readChar (c :: s) with
      | some (d, rest) =>
        have := length_readChar h
        (decodeURIComponent rest).map (d :: ·)
      | none => none
    else (decodeURIComponent s).map (c :: ·)
  termination_by s => s.length
  decreasing_by
    · exact this
    · simp

lemma decodeURIComponent_escapeChar (c : Char) (t : List Char) :
    decodeURIComponent (escapeChar c ++ t) = (decodeURIComponent t).map (c :: ·) := by
  obtain ⟨u, hu⟩ : ∃ u, escapeChar c ++ t = '%' :: u := by
    unfold escapeChar
    cases h : String.utf8EncodeChar c with
    | nil => exact absurd h String.utf8EncodeChar_ne_nil
    | cons b bs => exact ⟨_, rfl⟩
  have hread := readChar_escapeChar c t
  rw [hu] at hread ⊢
  rw [decodeURIComponent, if_pos rfl]
  split
  · rename_i d rest heq
    rw [hread] at heq
    cases heq
    rfl
  · rename_i heq
    rw [hread] at heq
    cases heq

lemma decodeURIComponent_cons {c : Char} (h : c ≠ '%') (t : List Char) :
    decodeURIComponent (c :: t) = (decodeURIComponent t).map (c :: ·) := by
  rw [decodeURIComponent, if_neg h]

end GoSpidermonkey.Ecma
