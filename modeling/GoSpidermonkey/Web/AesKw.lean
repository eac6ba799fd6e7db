import GoSpidermonkey.Web.AesCtr

/-!
# AES key wrap

`aesKWWrap` and `aesKWUnwrap` of `subtle2.go`, for any block function with an inverse. A step of one
undoes a step of the other, and they take the steps in opposite orders. So what is unwrapped is what
was wrapped, and only what wrapping returns can be unwrapped (`aesKW_inverse`).
-/

namespace GoSpidermonkey.Web

open List

def aesKWIV : Bytes := [0xA6, 0xA6, 0xA6, 0xA6, 0xA6, 0xA6, 0xA6, 0xA6]

/-- `aesKWXorT`; the bytes it takes are those of the low 64 bits of `t`. -/
def aesKWXorT (a : Bytes) (t : ℕ) : Bytes :=
  (List.range 8).foldl (fun a k => a.modify (7 - k) (· ^^^ .ofNat (t >>> (8 * k)))) a

/-- The variables `a` and `r` for `n` halves of blocks. -/
@[ext] structure Wrapping (n : ℕ) where
  a : Bytes
  r : Bytes
  length_a : a.length = 8
  length_r : r.length = 8 * n

lemma length_aesKWXorT (a : Bytes) (t : ℕ) : (aesKWXorT a t).length = a.length := by
  simp [aesKWXorT, range_succ]

lemma aesKWXorT_aesKWXorT {a : Bytes} (ha : a.length = 8) (t : ℕ) :
    aesKWXorT (aesKWXorT a t) t = a := by
  match a, ha with
  | [a₀, a₁, a₂, a₃, a₄, a₅, a₆, a₇], _ =>
    simp [aesKWXorT, range_succ]

namespace Wrapping

variable {n : ℕ} (s : Wrapping n)

/-- The block that `a` and the half `i` are copied to. -/
def buf (i : Fin n) : Block :=
  ⟨s.a ++ (s.r.drop (i * 8)).take 8, by
    have hr := s.length_r
    have hi := i.2
    rw [List.length_append, s.length_a, List.length_take, List.length_drop]
    omega⟩

/-- A block copied to `a` and the half `i`. -/
def store (i : Fin n) (b : Block) : Wrapping n where
  a := b.1.take 8
  r := s.r.take (i * 8) ++ b.1.drop 8 ++ s.r.drop (i * 8 + 8)
  length_a := by rw [List.length_take, b.2]; rfl
  length_r := by
    have hr := s.length_r
    have hi := i.2
    simp only [List.length_append, List.length_take, List.length_drop, b.2]
    omega

def xorT (t : ℕ) : Wrapping n :=
  { s with a := aesKWXorT s.a t, length_a := (length_aesKWXorT s.a t).trans s.length_a }

end Wrapping

/-- The rounds of the two loops of `aesKWWrap`. -/
def kwRounds (n : ℕ) : List (ℕ × Fin n) :=
  (List.range 6).flatMap fun j => (List.finRange n).map fun i => (j, i)

/-- The rounds of the two loops of `aesKWUnwrap`, which count down. -/
def kwRoundsDown (n : ℕ) : List (ℕ × Fin n) :=
  (List.range 6).reverse.flatMap fun j => (List.finRange n).reverse.map fun i => (j, i)

section Cipher

-- `block.Encrypt` and `block.Decrypt`
variable (cipher : Block ≃ Block)

def wrapRound {n : ℕ} (s : Wrapping n) (x : ℕ × Fin n) : Wrapping n :=
  (s.store x.2 (cipher (s.buf x.2))).xorT (n * x.1 + x.2 + 1)

def unwrapRound {n : ℕ} (s : Wrapping n) (x : ℕ × Fin n) : Wrapping n :=
  let s := s.xorT (n * x.1 + x.2 + 1)
  s.store x.2 (cipher.symm (s.buf x.2))

def aesKWWrap (plain : Bytes) : Except String Bytes :=
  if h : plain.length < 16 ∨ plain.length % 8 ≠ 0 then
    .error "AES-KW input must be a multiple of 8 bytes, at least 16"
  else
    let s : Wrapping (plain.length / 8) :=
      { a := aesKWIV, r := plain, length_a := rfl, length_r := by omega }
    let s := (kwRounds (plain.length / 8)).foldl (wrapRound cipher) s
    .ok (s.a ++ s.r)

def aesKWUnwrap (ct : Bytes) : Except String Bytes :=
  if h : ct.length < 24 ∨ ct.length % 8 ≠ 0 then
    .error "AES-KW ciphertext must be a multiple of 8 bytes, at least 24"
  else
    let s : Wrapping (ct.length / 8 - 1) :=
      { a := ct.take 8, r := ct.drop 8, length_a := by rw [List.length_take]; omega,
        length_r := by rw [List.length_drop]; omega }
    let s := (kwRoundsDown (ct.length / 8 - 1)).foldl (unwrapRound cipher) s
    if s.a = aesKWIV then .ok s.r else .error "integrity check failed"

/-! ### One round -/

namespace Wrapping

variable {n : ℕ} (s : Wrapping n) (i : Fin n) (b c : Block)

lemma store_r :
    (s.store i b).r = s.r.take (i * 8) ++ b.1.drop 8 ++ s.r.drop (i * 8 + 8) := rfl

lemma drop_store : ((s.store i b).r.drop (i * 8)).take 8 = b.1.drop 8 := by
  have hr := s.length_r
  have htake : (s.r.take (i * 8)).length = i * 8 := by
    rw [length_take]
    omega
  have hhalf : (b.1.drop 8).length = 8 := by rw [length_drop, b.2]
  rw [store_r, append_assoc, drop_left' htake, take_left' hhalf]

lemma buf_store : (s.store i b).buf i = b := by
  apply Subtype.ext
  show b.1.take 8 ++ ((s.store i b).r.drop (i * 8)).take 8 = b.1
  rw [drop_store, take_append_drop]

lemma store_buf : s.store i (s.buf i) = s := by
  have ha := s.length_a
  have hsplit : s.r.take (i * 8) ++ (s.r.drop (i * 8)).take 8 ++ s.r.drop (i * 8 + 8) = s.r := by
    rw [← drop_drop, append_assoc, take_append_drop, take_append_drop]
  apply Wrapping.ext
  · exact take_left' ha
  · show s.r.take (i * 8) ++ (s.a ++ (s.r.drop (i * 8)).take 8).drop 8 ++ s.r.drop (i * 8 + 8) = s.r
    rw [drop_left' ha, hsplit]

lemma store_store : (s.store i b).store i c = s.store i c := by
  have hr := s.length_r
  have htake : (s.r.take (i * 8)).length = i * 8 := by
    rw [length_take]
    omega
  have hfront : (s.r.take (i * 8) ++ b.1.drop 8).length = i * 8 + 8 := by
    rw [length_append, htake, length_drop, b.2]
  apply Wrapping.ext
  · rfl
  · have hbefore : (s.store i b).r.take (i * 8) = s.r.take (i * 8) := by
      rw [store_r, append_assoc, take_left' htake]
    have hafter : (s.store i b).r.drop (i * 8 + 8) = s.r.drop (i * 8 + 8) := by
      rw [store_r, drop_left' hfront]
    rw [store_r (s.store i b), hbefore, hafter, store_r]

lemma xorT_a (t : ℕ) : (s.xorT t).a = aesKWXorT s.a t := rfl

lemma xorT_xorT (t : ℕ) : (s.xorT t).xorT t = s := by
  apply Wrapping.ext
  · rw [xorT_a, xorT_a, aesKWXorT_aesKWXorT s.length_a]
  · rfl

end Wrapping

lemma unwrapRound_wrapRound {n : ℕ} (s : Wrapping n) (x : ℕ × Fin n) :
    unwrapRound cipher (wrapRound cipher s x) x = s := by
  rw [unwrapRound, wrapRound, Wrapping.xorT_xorT, Wrapping.buf_store, Equiv.symm_apply_apply,
    Wrapping.store_store, Wrapping.store_buf]

lemma wrapRound_unwrapRound {n : ℕ} (s : Wrapping n) (x : ℕ × Fin n) :
    wrapRound cipher (unwrapRound cipher s x) x = s := by
  rw [wrapRound, unwrapRound, Wrapping.buf_store, Equiv.apply_symm_apply, Wrapping.store_store,
    Wrapping.store_buf, Wrapping.xorT_xorT]

/-! ### All rounds -/

lemma foldl_reverse_undo {σ ι : Type*} {f g : σ → ι → σ} (h : ∀ s x, g (f s x) x = s) (l : List ι)
    (s : σ) : l.reverse.foldl g (l.foldl f s) = s := by
  induction l generalizing s with
  | nil => rfl
  | cons x l ih =>
    rw [foldl_cons, reverse_cons, foldl_append, ih, foldl_cons, h]
    rfl

lemma kwRoundsDown_eq (n : ℕ) : kwRoundsDown n = (kwRounds n).reverse := by
  rw [kwRoundsDown, kwRounds, reverse_flatMap]
  simp only [Function.comp_def, map_reverse]

variable {n : ℕ}

/-- All rounds of `aesKWWrap`. -/
def wrapAll (s : Wrapping n) : Wrapping n := (kwRounds n).foldl (wrapRound cipher) s

/-- All rounds of `aesKWUnwrap`. -/
def unwrapAll (s : Wrapping n) : Wrapping n := (kwRoundsDown n).foldl (unwrapRound cipher) s

lemma unwrapAll_wrapAll (s : Wrapping n) : unwrapAll cipher (wrapAll cipher s) = s := by
  rw [unwrapAll, kwRoundsDown_eq]
  exact foldl_reverse_undo (unwrapRound_wrapRound cipher) (kwRounds n) s

lemma wrapAll_unwrapAll (s : Wrapping n) : wrapAll cipher (unwrapAll cipher s) = s := by
  have hundo := foldl_reverse_undo (wrapRound_unwrapRound cipher) (kwRoundsDown n) s
  rwa [kwRoundsDown_eq, reverse_reverse, ← kwRoundsDown_eq] at hundo

lemma aesKWWrap_eq (s : Wrapping n) (hn : 2 ≤ n) (ha : s.a = aesKWIV) :
    aesKWWrap cipher s.r = .ok ((wrapAll cipher s).a ++ (wrapAll cipher s).r) := by
  obtain ⟨a, r, length_a, length_r⟩ := s
  obtain rfl : n = r.length / 8 := by omega
  obtain rfl : a = aesKWIV := ha
  show aesKWWrap cipher r = _
  rw [aesKWWrap, dif_neg (by omega)]
  rfl

lemma aesKWUnwrap_eq (s : Wrapping n) (hn : 2 ≤ n) :
    aesKWUnwrap cipher (s.a ++ s.r) =
      if (unwrapAll cipher s).a = aesKWIV then .ok (unwrapAll cipher s).r
      else .error "integrity check failed" := by
  obtain ⟨a, r, length_a, length_r⟩ := s
  have hlen : (a ++ r).length = 8 + 8 * n := by rw [length_append, length_a, length_r]
  obtain rfl : n = (a ++ r).length / 8 - 1 := by omega
  show aesKWUnwrap cipher (a ++ r) = _
  rw [aesKWUnwrap, dif_neg (by omega)]
  simp only [take_left' length_a, drop_left' length_a]
  rfl

lemma exists_wrapping {ct : Bytes} (h : ¬ (ct.length < 24 ∨ ct.length % 8 ≠ 0)) :
    ∃ n, 2 ≤ n ∧ ∃ s : Wrapping n, ct = s.a ++ s.r := by
  refine ⟨ct.length / 8 - 1, by omega, ⟨ct.take 8, ct.drop 8, ?_, ?_⟩, ?_⟩
  · rw [length_take]
    omega
  · rw [length_drop]
    omega
  · exact (take_append_drop 8 ct).symm

end Cipher

/-- A plaintext of at least 16 bytes in multiples of 8 is unwrapped from its ciphertext, and
conversely. -/
theorem aesKW_inverse (cipher : Block ≃ Block) :
    (∀ p : Bytes, p.length % 8 = 0 → 16 ≤ p.length →
        ∃ c, aesKWWrap cipher p = .ok c ∧ aesKWUnwrap cipher c = .ok p) ∧
      ∀ c r : Bytes, aesKWUnwrap cipher c = .ok r → aesKWWrap cipher r = .ok c := by
  constructor
  · intro p hmod hlen
    let s : Wrapping (p.length / 8) :=
      { a := aesKWIV, r := p, length_a := rfl, length_r := by omega }
    refine ⟨_, aesKWWrap_eq cipher s (by omega) rfl, ?_⟩
    rw [aesKWUnwrap_eq cipher _ (by omega), unwrapAll_wrapAll, if_pos rfl]
  · intro c r hunwrap
    by_cases hlen : c.length < 24 ∨ c.length % 8 ≠ 0
    · rw [aesKWUnwrap, dif_pos hlen] at hunwrap
      cases hunwrap
    · obtain ⟨n, hn, s, rfl⟩ := exists_wrapping hlen
      rw [aesKWUnwrap_eq cipher s hn] at hunwrap
      split_ifs at hunwrap with ha
      obtain rfl := Except.ok.inj hunwrap
      rw [aesKWWrap_eq cipher _ hn ha, wrapAll_unwrapAll]

end GoSpidermonkey.Web
