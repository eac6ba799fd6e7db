import GoSpidermonkey.Lib.PrefixCode

/-!
# UTF-8 as a prefix code

The encodings of the characters are the byte sequences of the table of well-formed sequences: a
first byte, which tells how many continuation bytes follow (`need`) and where the second byte is
(`lower`, `upper`), and so many continuation bytes (`encode_iff`). A sequence that begins one of
them is one with fewer continuation bytes (`begins_iff`, `partial_iff`).
-/

namespace Utf8

open List

/-- A continuation byte. -/
def Cont (b : UInt8) : Prop := 0x80 ≤ b ∧ b ≤ 0xBF

instance (b : UInt8) : Decidable (Cont b) := inferInstanceAs (Decidable (_ ∧ _))

/-- A first byte. -/
def Lead (l : UInt8) : Prop := l < 0x80 ∨ 0xC2 ≤ l ∧ l ≤ 0xF4

def need (l : UInt8) : ℕ :=
  if l < 0x80 then 0 else if l < 0xE0 then 1 else if l < 0xF0 then 2 else 3

def lower (l : UInt8) : UInt8 := if l = 0xE0 then 0xA0 else if l = 0xF0 then 0x90 else 0x80

def upper (l : UInt8) : UInt8 := if l = 0xED then 0x9F else if l = 0xF4 then 0x8F else 0xBF

/-- The bytes can follow a first byte. -/
def Follows (l : UInt8) (q : List UInt8) : Prop :=
  (∀ x ∈ q.head?, lower l ≤ x ∧ x ≤ upper l) ∧ ∀ x ∈ q, Cont x

instance (l : UInt8) : Decidable (Lead l) := inferInstanceAs (Decidable (_ ∨ _))

def leadBits (l : UInt8) : ℕ :=
  if l < 0x80 then l.toNat else if l < 0xE0 then l.toNat % 32
  else if l < 0xF0 then l.toNat % 16 else l.toNat % 8

def value (l : UInt8) (q : List UInt8) : ℕ :=
  q.foldl (fun v x => v * 64 + x.toNat % 64) (leadBits l)

lemma char_valid (c : Char) : c.toNat < 0xD800 ∨ 0xDFFF < c.toNat ∧ c.toNat < 0x110000 := c.valid

lemma exists_char {n : ℕ} (h : n < 0xD800 ∨ 0xDFFF < n ∧ n < 0x110000) :
    ∃ c : Char, c.toNat = n :=
  ⟨Char.ofNat n, by rw [Char.toNat_ofNat, if_pos h]⟩

/-! ### The encodings of characters -/

def bytesOf (v : ℕ) : List ℕ :=
  if v < 0x80 then [v]
  else if v < 0x800 then [0xC0 + v / 64, 0x80 + v % 64]
  else if v < 0x10000 then [0xE0 + v / 4096, 0x80 + v / 64 % 64, 0x80 + v % 64]
  else [0xF0 + v / 262144, 0x80 + v / 4096 % 64, 0x80 + v / 64 % 64, 0x80 + v % 64]

lemma map_toNat_encode (c : Char) :
    (String.utf8EncodeChar c).map UInt8.toNat = bytesOf c.toNat := by
  have hv := char_valid c
  rw [String.utf8EncodeChar.eq_1, show c.val.toNat = c.toNat from rfl, bytesOf]
  generalize c.toNat = v at *
  split_ifs <;> first | omega | simp
  all_goals omega

variable {c : Char} {l x : UInt8} {q : List UInt8}

lemma encode_eq_iff {bs : List UInt8} :
    String.utf8EncodeChar c = bs ↔ bs.map UInt8.toNat = bytesOf c.toNat := by
  rw [← map_toNat_encode, List.map_inj_right fun _ _ => UInt8.toNat_inj.mp]
  exact eq_comm

/-- The table, first byte by first byte. -/
lemma table (l : UInt8) :
    ((lower l).toNat = (if l.toNat = 0xE0 then 0xA0 else if l.toNat = 0xF0 then 0x90 else 0x80) ∧
      (upper l).toNat = if l.toNat = 0xED then 0x9F else if l.toNat = 0xF4 then 0x8F else 0xBF) ∧
    ((Lead l ∧ 0 = need l ↔ l < 0x80) ∧ (Lead l ∧ 1 = need l ↔ 0xC2 ≤ l ∧ l ≤ 0xDF) ∧
      (Lead l ∧ 2 = need l ↔ 0xE0 ≤ l ∧ l ≤ 0xEF) ∧ (Lead l ∧ 3 = need l ↔ 0xF0 ≤ l ∧ l ≤ 0xF4)) ∧
    (l < 0x80 → leadBits l = l.toNat) ∧
      (0xC2 ≤ l ∧ l ≤ 0xDF → leadBits l = l.toNat % 32 ∧ lower l = 0x80 ∧ upper l = 0xBF) ∧
      (0xE0 ≤ l ∧ l ≤ 0xEF → leadBits l = l.toNat % 16) ∧
      (0xF0 ≤ l ∧ l ≤ 0xF4 → leadBits l = l.toNat % 8) := by
  revert l
  decide +kernel

lemma toNat_bounds (l : UInt8) :
    (lower l).toNat = (if l.toNat = 0xE0 then 0xA0 else if l.toNat = 0xF0 then 0x90 else 0x80) ∧
      (upper l).toNat = if l.toNat = 0xED then 0x9F else if l.toNat = 0xF4 then 0x8F else 0xBF :=
  (table l).1

lemma encode_one_iff :
    String.utf8EncodeChar c = [l] ↔ l < 0x80 ∧ c.toNat = l.toNat := by
  rw [encode_eq_iff, bytesOf]
  generalize c.toNat = v
  split_ifs <;> simp [UInt8.lt_iff_toNat_lt] <;> omega

lemma encode_two_iff :
    String.utf8EncodeChar c = [l, x] ↔
      (0xC2 ≤ l ∧ l ≤ 0xDF) ∧ Cont x ∧ c.toNat = l.toNat % 32 * 64 + x.toNat % 64 := by
  rw [encode_eq_iff, bytesOf]
  generalize c.toNat = v
  split_ifs <;> simp [Cont, UInt8.le_iff_toNat_le] <;> omega

lemma encode_three_iff {y : UInt8} :
    String.utf8EncodeChar c = [l, x, y] ↔
      (0xE0 ≤ l ∧ l ≤ 0xEF) ∧ (lower l ≤ x ∧ x ≤ upper l) ∧ Cont y ∧
        c.toNat = (l.toNat % 16 * 64 + x.toNat % 64) * 64 + y.toNat % 64 := by
  have hv := char_valid c
  rw [encode_eq_iff, bytesOf]
  simp only [Cont, UInt8.le_iff_toNat_le, toNat_bounds, UInt8.reduceToNat, map_cons, map_nil]
  generalize c.toNat = v at *
  generalize l.toNat = a, x.toNat = b, y.toNat = d
  split_ifs <;> simp only [List.cons.injEq, reduceCtorEq, and_false, and_true, false_iff] <;> omega

lemma encode_four_iff {y z : UInt8} :
    String.utf8EncodeChar c = [l, x, y, z] ↔
      (0xF0 ≤ l ∧ l ≤ 0xF4) ∧ (lower l ≤ x ∧ x ≤ upper l) ∧ Cont y ∧ Cont z ∧
        c.toNat =
          ((l.toNat % 8 * 64 + x.toNat % 64) * 64 + y.toNat % 64) * 64 + z.toNat % 64 := by
  have hv := char_valid c
  rw [encode_eq_iff, bytesOf]
  simp only [Cont, UInt8.le_iff_toNat_le, toNat_bounds, UInt8.reduceToNat, map_cons, map_nil]
  generalize c.toNat = v at *
  generalize l.toNat = a, x.toNat = b, y.toNat = d, z.toNat = e
  split_ifs <;> simp only [List.cons.injEq, reduceCtorEq, and_false, and_true, false_iff] <;> omega

lemma cont_of_bounds (h : lower l ≤ x ∧ x ≤ upper l) : Cont x := by
  have hl : 0x80 ≤ lower l := by unfold lower; split_ifs <;> decide
  have hu : upper l ≤ 0xBF := by unfold upper; split_ifs <;> decide
  exact ⟨UInt8.le_trans hl h.1, UInt8.le_trans h.2 hu⟩

lemma follows_nil (l : UInt8) : Follows l [] := by
  simp [Follows]

lemma follows_cons :
    Follows l (x :: q) ↔ (lower l ≤ x ∧ x ≤ upper l) ∧ ∀ y ∈ q, Cont y := by
  simp only [Follows, head?_cons, Option.mem_some_iff, forall_eq', forall_mem_cons]
  exact ⟨fun h => ⟨h.1, h.2.2⟩, fun h => ⟨h.1, cont_of_bounds h.1, h.2⟩⟩

/-- The encodings of characters are the sequences of the table. -/
theorem encode_iff :
    String.utf8EncodeChar c = l :: q ↔
      (Lead l ∧ q.length = need l) ∧ Follows l q ∧ c.toNat = value l q := by
  obtain ⟨-, ⟨hneed₀, hneed₁, hneed₂, hneed₃⟩, hbits₀, hbits₁, hbits₂, hbits₃⟩ := table l
  match q with
  | [] =>
    rw [encode_one_iff, length_nil, hneed₀]
    refine and_congr_right fun hl => ?_
    simp [follows_nil, value, hbits₀ hl]
  | [x] =>
    rw [encode_two_iff, length_singleton, hneed₁]
    refine and_congr_right fun hl => ?_
    simp [follows_cons, value, hbits₁ hl, Cont]
  | [x, y] =>
    rw [encode_three_iff, length_cons, length_singleton, hneed₂]
    refine and_congr_right fun hl => ?_
    simp [follows_cons, value, hbits₂ hl, and_assoc]
  | [x, y, z] =>
    rw [encode_four_iff, length_cons, length_cons, length_singleton, hneed₃]
    refine and_congr_right fun hl => ?_
    simp [follows_cons, value, hbits₃ hl, and_assoc]
  | _ :: _ :: _ :: _ :: q =>
    refine iff_of_false (fun h => ?_) (fun h => ?_)
    · have hlen := congrArg List.length (encode_eq_iff.mp h)
      unfold bytesOf at hlen
      split_ifs at hlen <;> simp at hlen
    · have hlen := h.1.2
      unfold need at hlen
      split_ifs at hlen <;> simp at hlen

example : String.utf8EncodeChar 'é' = [0xC3, 0xA9] := by decide +kernel

lemma value_valid (hl : Lead l ∧ q.length = need l)
    (hq : Follows l q) : value l q < 0xD800 ∨ 0xDFFF < value l q ∧ value l q < 0x110000 := by
  obtain ⟨-, ⟨hneed₀, hneed₁, hneed₂, hneed₃⟩, hbits₀, hbits₁, hbits₂, hbits₃⟩ := table l
  match q with
  | [] =>
    have hl := hneed₀.mp hl
    have hlt : l.toNat < 0x80 := UInt8.lt_iff_toNat_lt.mp hl
    simp only [value, foldl_nil, hbits₀ hl]
    omega
  | [x] =>
    simp only [value, foldl_cons, foldl_nil, (hbits₁ (hneed₁.mp hl)).1]
    omega
  | [x, y] =>
    have hl := hneed₂.mp hl
    have hx := (follows_cons.mp hq).1
    simp only [value, foldl_cons, foldl_nil, hbits₂ hl]
    have hlower : 0x80 ≤ x := (cont_of_bounds hx).1
    simp only [UInt8.le_iff_toNat_le, toNat_bounds, UInt8.reduceToNat] at hx hl hlower
    split_ifs at hx <;> omega
  | [x, y, z] =>
    have hl := hneed₃.mp hl
    have hx := (follows_cons.mp hq).1
    simp only [value, foldl_cons, foldl_nil, hbits₃ hl]
    simp only [UInt8.le_iff_toNat_le, toNat_bounds, UInt8.reduceToNat] at hx hl
    split_ifs at hx <;> omega
  | _ :: _ :: _ :: _ :: q =>
    have hlen := hl.2
    unfold need at hlen
    split_ifs at hlen <;> simp at hlen

lemma exists_encode (hl : Lead l ∧ q.length = need l)
    (hq : Follows l q) : ∃ c : Char, String.utf8EncodeChar c = l :: q := by
  obtain ⟨c, hc⟩ := exists_char (value_valid hl hq)
  exact ⟨c, encode_iff.mpr ⟨hl, hq, hc⟩⟩

/-! ### The code -/

lemma encode_ne_nil (c : Char) : String.utf8EncodeChar c ≠ [] := by
  intro h
  have hmap := map_toNat_encode c
  rw [h, bytesOf] at hmap
  split_ifs at hmap <;> simp at hmap

def code : PrefixCode Char UInt8 where
  word := String.utf8EncodeChar
  word_ne_nil := encode_ne_nil
  eq_of_begins := by
    intro c d hbegins
    obtain ⟨l, q, hc⟩ := List.exists_cons_of_ne_nil (encode_ne_nil c)
    obtain ⟨r, hd⟩ := hbegins
    rw [hc, List.cons_append] at hd
    obtain ⟨⟨-, hq⟩, -, hcval⟩ := encode_iff.mp hc
    obtain ⟨⟨-, hqr⟩, -, hdval⟩ := encode_iff.mp hd.symm
    -- the first byte tells the length
    have hr : r = [] := by
      rw [List.length_append] at hqr
      exact List.eq_nil_of_length_eq_zero (by omega)
    rw [hr, List.append_nil] at hdval
    exact Char.toNat_inj.mp (hcval.trans hdval.symm)

private lemma exists_follows (l : UInt8) (hq : Follows l q) (n : ℕ) :
    ∃ r : List UInt8, r.length = n ∧ Follows l (q ++ r) := by
  have hcont : Cont 0x80 := by decide
  have hlower : lower l ≤ upper l := by
    simp only [UInt8.le_iff_toNat_le, toNat_bounds]
    split_ifs <;> omega
  cases n with
  | zero => exact ⟨[], rfl, by rwa [append_nil]⟩
  | succ n =>
    cases q with
    | nil =>
      refine ⟨lower l :: List.replicate n 0x80, by simp,
        follows_cons.mpr ⟨⟨UInt8.le_refl _, hlower⟩, ?_⟩⟩
      exact fun y hy => eq_of_mem_replicate hy ▸ hcont
    | cons x q =>
      obtain ⟨hx, hq⟩ := follows_cons.mp hq
      refine ⟨List.replicate (n + 1) 0x80, by simp, follows_cons.mpr ⟨hx, fun y hy => ?_⟩⟩
      rcases mem_append.mp hy with hy | hy
      · exact hq y hy
      · exact eq_of_mem_replicate hy ▸ hcont

lemma Follows.of_append {r : List UInt8} (h : Follows l (q ++ r)) : Follows l q := by
  cases q with
  | nil => exact follows_nil l
  | cons x q =>
    obtain ⟨hx, hq⟩ := follows_cons.mp h
    exact follows_cons.mpr ⟨hx, fun y hy => hq y (mem_append_left _ hy)⟩

/-- The beginnings of encodings. -/
theorem begins_iff :
    code.Begins (l :: q) ↔ Lead l ∧ q.length ≤ need l ∧ Follows l q := by
  constructor
  · rintro ⟨c, r, hc⟩
    rw [cons_append] at hc
    obtain ⟨⟨hl, hlen⟩, hfollows, -⟩ := encode_iff.mp hc.symm
    rw [length_append] at hlen
    exact ⟨hl, by omega, hfollows.of_append⟩
  · rintro ⟨hl, hlen, hfollows⟩
    obtain ⟨r, hr, hfollows⟩ := exists_follows l hfollows (need l - q.length)
    obtain ⟨c, hc⟩ := exists_encode (q := q ++ r) ⟨hl, by rw [length_append]; omega⟩ hfollows
    exact ⟨c, r, hc.symm⟩

theorem partial_iff :
    code.Partial (l :: q) ↔ Lead l ∧ q.length < need l ∧ Follows l q := by
  constructor
  · rintro ⟨c, b, r, hc⟩
    rw [cons_append] at hc
    obtain ⟨⟨hl, hlen⟩, hfollows, -⟩ := encode_iff.mp hc
    rw [length_append, length_cons] at hlen
    exact ⟨hl, by omega, hfollows.of_append⟩
  · rintro ⟨hl, hlen, hfollows⟩
    rcases (begins_iff.mpr ⟨hl, hlen.le, hfollows⟩).cases with hpart | ⟨c, hc⟩
    · exact hpart
    · exact absurd (encode_iff.mp hc.symm).1.2 hlen.ne

end Utf8
