import GoSpidermonkey.Nodejs.Stream
import GoSpidermonkey.Web.TextDecoder

/-!
# Buffer encodings

`Buffer.prototype.toString` turns bytes into text and `encodeString`, behind `Buffer.from`, text
into bytes. Bytes written as hex, base64, base64url or latin1 are read back, pairs of bytes written
as utf16le too. Text written as utf16le is read back, and text written as utf8 is unless it begins
with U+FEFF, since the `TextDecoder` takes this character for a byte order mark
(`buffer_round_trip_iff`).
-/

namespace GoSpidermonkey.Nodejs.Buffer

open Ecma Web Nodejs.Stream List

inductive EncodingName
  | utf8 | utf_8 | hex | base64 | base64url | latin1 | binary | ascii | utf16le | utf_16le | ucs2
  | ucs_2

def normEnc : EncodingName → Encoding
  | .utf8 | .utf_8 => .utf8
  | .hex => .hex
  | .base64 => .base64
  | .base64url => .base64url
  | .latin1 | .binary => .latin1
  | .ascii => .ascii
  | .utf16le | .utf_16le | .ucs2 | .ucs_2 => .utf16le

/-! ### Bytes to text -/

def unit (c : Char) : UInt16 := .ofNat c.toNat

def latin1Of (u8 : Bytes) : JsString := u8.map UInt8.toUInt16

/-- `b.toString(16).padStart(2, "0")`. -/
def hexByte (b : UInt8) : JsString := ((Nat.toDigits 16 b.toNat).map unit).leftpad 2 (unit '0')

def B64 : JsString :=
  ['A', 'B', 'C', 'D', 'E', 'F', 'G', 'H', 'I', 'J', 'K', 'L', 'M', 'N', 'O', 'P', 'Q',
    'R', 'S', 'T', 'U', 'V', 'W', 'X', 'Y', 'Z', 'a', 'b', 'c', 'd', 'e', 'f', 'g', 'h', 'i', 'j',
    'k', 'l', 'm', 'n', 'o', 'p', 'q', 'r', 's', 't', 'u', 'v', 'w', 'x', 'y', 'z', '0', '1', '2',
    '3', '4', '5', '6', '7', '8', '9', '+', '/'].map unit

def digit64 (v : ℕ) : UInt16 := B64.getD v 0

/-- One round of the loop of `btoa`. After the end of the string `charCodeAt` is `NaN`, here `none`.
-/
def btoaGroup (c₀ : UInt16) (c₁ c₂ : Option UInt16) : Option JsString :=
  if 0xff < c₀ ∨ (c₁.any (0xff < ·)) ∨ (c₂.any (0xff < ·)) then none
  else
    let n := c₀.toNat <<< 16 ||| (c₁.getD 0).toNat <<< 8 ||| (c₂.getD 0).toNat
    some [digit64 (n >>> 18 &&& 63), digit64 (n >>> 12 &&& 63),
      if c₁ = none then unit '=' else digit64 (n >>> 6 &&& 63),
      if c₂ = none then unit '=' else digit64 (n &&& 63)]

/-- `btoa`; `none` if it throws. -/
def btoa : JsString → Option JsString
  | [] => some []
  | [c₀] => btoaGroup c₀ none none
  | [c₀, c₁] => btoaGroup c₀ (some c₁) none
  | c₀ :: c₁ :: c₂ :: s =>
    (btoaGroup c₀ (some c₁) (some c₂)).bind fun out => (btoa s).map (out ++ ·)

def toUrl (s : JsString) : JsString :=
  ((s.map fun c => if c = unit '+' then unit '-' else c).map
    fun c => if c = unit '/' then unit '_' else c).rdropWhile (· = unit '=')

def position (length : ℕ) (k : ℤ) : ℕ := if k < 0 then (length + k).toNat else min k.toNat length

def subarray (u8 : Bytes) (start stop : ℤ) : Bytes :=
  (u8.take (position u8.length stop)).drop (position u8.length start)

/-- `toString`, with `none` if it throws. -/
def toString (u8 : Bytes) (encoding : EncodingName) (start stop : ℤ) : Option JsString :=
  let sub := if start ≠ 0 ∨ stop ≠ u8.length then subarray u8 start stop else u8
  match normEnc encoding with
  | .utf8 => (TextDecoder.decode { enc := .utf8, fatal := false, ignoreBOM := false } sub false).1
  | .hex => some (sub.flatMap hexByte)
  | .base64 => btoa (latin1Of sub)
  | .base64url => (btoa (latin1Of sub)).map toUrl
  | .latin1 => some (latin1Of sub)
  | .ascii => some (sub.map fun b => (b &&& 0x7f).toUInt16)
  | .utf16le => some (utf16leUnits sub)

/-! ### Text to bytes -/

def isHex (c : UInt16) : Prop :=
  unit '0' ≤ c ∧ c ≤ unit '9' ∨ unit 'a' ≤ c ∧ c ≤ unit 'f' ∨ unit 'A' ≤ c ∧ c ≤ unit 'F'

instance (c : UInt16) : Decidable (isHex c) := inferInstanceAs (Decidable (_ ∧ _ ∨ _ ∧ _ ∨ _ ∧ _))

/-- The value of a hex digit for `parseInt`. -/
def hexValue (c : UInt16) : ℕ :=
  if c ≤ unit '9' then c.toNat - 48 else if c ≤ unit 'F' then c.toNat - 55 else c.toNat - 87

def hexBytes : JsString → Bytes
  | hi :: lo :: s =>
    if isHex hi ∧ isHex lo then .ofNat (hexValue hi * 16 + hexValue lo) :: hexBytes s else []
  | _ => []

/-- The loop for base64 with its variables `buf` and `bits`. -/
def base64Bytes (buf bits : ℕ) : JsString → Bytes
  | [] => []
  | c :: s =>
    if c = unit '=' then []
    else
      match B64.idxOf? c with
      | none => base64Bytes buf bits s
      | some v =>
        let buf := (buf <<< 6 ||| v) % 2 ^ 32
        if 8 ≤ bits + 6 then
          .ofNat (buf >>> (bits + 6 - 8) &&& 0xff) :: base64Bytes buf (bits + 6 - 8) s
        else base64Bytes buf (bits + 6) s

def fromUrl (s : JsString) : JsString :=
  (s.map fun c => if c = unit '-' then unit '+' else c).map
    fun c => if c = unit '_' then unit '/' else c

def encodeString (s : JsString) (encoding : EncodingName) : Bytes :=
  match normEnc encoding with
  | .utf8 => utf8Encode s
  | .hex => hexBytes s
  | .base64 | .base64url => base64Bytes 0 0 (fromUrl s)
  | .latin1 | .ascii => s.map fun c => (c &&& 0xff).toUInt8
  | .utf16le => s.flatMap fun c : UInt16 => [(c &&& 0xff).toUInt8, (c >>> 8).toUInt8]

/-! ### Hex -/

lemma hexByte_eq (b : UInt8) :
    hexByte b = [unit (Nat.digitChar (b.toNat / 16)), unit (Nat.digitChar (b.toNat % 16))] := by
  revert b
  decide +kernel

lemma hexValue_digitChar (b : UInt8) :
    (isHex (unit (Nat.digitChar (b.toNat / 16))) ∧ isHex (unit (Nat.digitChar (b.toNat % 16)))) ∧
      UInt8.ofNat (hexValue (unit (Nat.digitChar (b.toNat / 16))) * 16 +
        hexValue (unit (Nat.digitChar (b.toNat % 16)))) = b := by
  revert b
  decide +kernel

lemma hexBytes_hexByte (b : Bytes) : hexBytes (b.flatMap hexByte) = b := by
  induction b with
  | nil => rfl
  | cons x b ih =>
    obtain ⟨hdigits, hvalue⟩ := hexValue_digitChar x
    rw [flatMap_cons, hexByte_eq, cons_append, cons_append, nil_append, hexBytes,
      if_pos hdigits, hvalue, ih]

/-! ### Base64 -/

def sextets : Bytes → List ℕ
  | [] => []
  | [a] => [a.toNat / 4, a.toNat % 4 * 16]
  | [a, b] => [a.toNat / 4, a.toNat % 4 * 16 + b.toNat / 16, b.toNat % 16 * 4]
  | a :: b :: c :: bs =>
    a.toNat / 4 :: (a.toNat % 4 * 16 + b.toNat / 16) :: (b.toNat % 16 * 4 + c.toNat / 64) ::
      c.toNat % 64 :: sextets bs

def padding (b : Bytes) : JsString := List.replicate ((3 - b.length % 3) % 3) (unit '=')

variable {b : Bytes} {v : ℕ}

lemma sextets_lt (hv : v ∈ sextets b) : v < 64 := by
  induction b using sextets.induct with
  | case1 => cases hv
  | case2 a =>
    have := a.toNat_lt
    simp only [sextets, mem_cons, not_mem_nil, or_false] at hv
    omega
  | case3 a b =>
    have := a.toNat_lt
    have := b.toNat_lt
    simp only [sextets, mem_cons, not_mem_nil, or_false] at hv
    omega
  | case4 a b c bs ih =>
    have := a.toNat_lt
    have := b.toNat_lt
    have := c.toNat_lt
    simp only [sextets, mem_cons] at hv
    rcases hv with h | h | h | h | h
    · omega
    · omega
    · omega
    · omega
    · exact ih h

lemma not_gt_ff (b : UInt8) : ¬ 0xff < b.toUInt16 := by
  revert b
  decide +kernel

lemma group_eq {a b c : ℕ} (hb : b < 256) (hc : c < 256) :
    a <<< 16 ||| b <<< 8 ||| c = (a * 256 + b) * 256 + c := by
  have hpair : a <<< 16 ||| b <<< 8 = (a * 256 + b) <<< 8 := by
    rw [← Nat.shiftLeft_add_eq_or_of_lt (by rw [Nat.shiftLeft_eq]; omega)]
    simp only [Nat.shiftLeft_eq]
    omega
  rw [hpair, ← Nat.shiftLeft_add_eq_or_of_lt (by omega), Nat.shiftLeft_eq]

lemma sextet_eq (n k : ℕ) : n >>> k &&& 63 = n / 2 ^ k % 64 := by
  rw [Nat.shiftRight_eq_div_pow]
  exact Nat.and_two_pow_sub_one_eq_mod _ 6

lemma btoaGroup_eq (a : UInt8) (b c : Option UInt8) {n : ℕ}
    (hn : n = (a.toNat * 256 + (b.getD 0).toNat) * 256 + (c.getD 0).toNat) :
    btoaGroup a.toUInt16 (b.map UInt8.toUInt16) (c.map UInt8.toUInt16) =
      some [digit64 (n / 2 ^ 18 % 64), digit64 (n / 2 ^ 12 % 64),
        if b = none then unit '=' else digit64 (n / 2 ^ 6 % 64),
        if c = none then unit '=' else digit64 (n % 64)] := by
  have hany : ∀ o : Option UInt8, ¬ (o.map UInt8.toUInt16).any (0xff < ·) := by
    intro o
    cases o with
    | none => simp
    | some x => simpa using not_gt_ff x
  have hget : ∀ o : Option UInt8, ((o.map UInt8.toUInt16).getD 0).toNat = (o.getD 0).toNat := by
    intro o
    cases o <;> simp
  have hthrows : ¬ (0xff < a.toUInt16 ∨ (b.map UInt8.toUInt16).any (0xff < ·) ∨
      (c.map UInt8.toUInt16).any (0xff < ·)) := by
    rintro (h | h | h)
    · exact not_gt_ff a h
    · exact hany b h
    · exact hany c h
  rw [btoaGroup, if_neg hthrows]
  simp only [hget, UInt8.toNat_toUInt16, group_eq (UInt8.toNat_lt _) (UInt8.toNat_lt _), ← hn,
    sextet_eq, Option.map_eq_none_iff]
  have hlast : n &&& 63 = n % 64 := Nat.and_two_pow_sub_one_eq_mod n 6
  rw [hlast]

lemma btoa_latin1Of (b : Bytes) :
    btoa (latin1Of b) = some ((sextets b).map digit64 ++ padding b) := by
  induction b using sextets.induct with
  | case1 => rfl
  | case2 a =>
    have := a.toNat_lt
    have hgroup := btoaGroup_eq a none none (n := a.toNat * 65536) (by simp; omega)
    have h₁ : a.toNat * 65536 / 2 ^ 18 % 64 = a.toNat / 4 := by omega
    have h₂ : a.toNat * 65536 / 2 ^ 12 % 64 = a.toNat % 4 * 16 := by omega
    rw [h₁, h₂] at hgroup
    exact hgroup
  | case3 a b =>
    have := a.toNat_lt
    have := b.toNat_lt
    have hgroup := btoaGroup_eq a (some b) none (n := (a.toNat * 256 + b.toNat) * 256) (by simp)
    have h₁ : (a.toNat * 256 + b.toNat) * 256 / 2 ^ 18 % 64 = a.toNat / 4 := by omega
    have h₂ : (a.toNat * 256 + b.toNat) * 256 / 2 ^ 12 % 64 = a.toNat % 4 * 16 + b.toNat / 16 := by
      omega
    have h₃ : (a.toNat * 256 + b.toNat) * 256 / 2 ^ 6 % 64 = b.toNat % 16 * 4 := by omega
    rw [h₁, h₂, h₃] at hgroup
    exact hgroup
  | case4 a b c bs ih =>
    have := a.toNat_lt
    have := b.toNat_lt
    have := c.toNat_lt
    set n := (a.toNat * 256 + b.toNat) * 256 + c.toNat with hn
    have hgroup := btoaGroup_eq a (some b) (some c) hn
    have h₁ : n / 2 ^ 18 % 64 = a.toNat / 4 := by omega
    have h₂ : n / 2 ^ 12 % 64 = a.toNat % 4 * 16 + b.toNat / 16 := by omega
    have h₃ : n / 2 ^ 6 % 64 = b.toNat % 16 * 4 + c.toNat / 64 := by omega
    have h₄ : n % 64 = c.toNat % 64 := by omega
    rw [h₁, h₂, h₃, h₄] at hgroup
    have hcons : latin1Of (a :: b :: c :: bs) =
      a.toUInt16 :: b.toUInt16 :: c.toUInt16 :: latin1Of bs := rfl
    have hpad : padding (a :: b :: c :: bs) = padding bs := by
      simp only [padding, length_cons]
      congr 1
      omega
    rw [hcons, btoa, ih, hpad]
    exact congrArg (Option.bind · _) hgroup

/-! ### Base64 read back -/

lemma idxOf_digit64 (h : v < 64) :
    B64.idxOf? (digit64 v) = some v ∧ digit64 v ≠ unit '=' := by
  revert v
  decide +kernel

lemma base64Bytes_digit64 (h : v < 64) (buf bits : ℕ) (s : JsString) :
    base64Bytes buf bits (digit64 v :: s) =
      if 8 ≤ bits + 6 then
        .ofNat ((buf * 64 + v) % 2 ^ 32 / 2 ^ (bits + 6 - 8)) ::
          base64Bytes ((buf * 64 + v) % 2 ^ 32) (bits + 6 - 8) s
      else base64Bytes ((buf * 64 + v) % 2 ^ 32) (bits + 6) s := by
  obtain ⟨hidx, hpad⟩ := idxOf_digit64 h
  have hor : buf <<< 6 ||| v = buf * 64 + v := by
    rw [← Nat.shiftLeft_add_eq_or_of_lt h, Nat.shiftLeft_eq]
  have hbyte : ∀ m : ℕ, UInt8.ofNat (m &&& 0xff) = UInt8.ofNat m := by
    intro m
    have hand : m &&& 0xff = m % 256 := Nat.and_two_pow_sub_one_eq_mod m 8
    rw [hand]
    exact UInt8.ofNat_mod_size
  rw [base64Bytes, if_neg hpad, hidx]
  simp only [hor, hbyte, Nat.shiftRight_eq_div_pow]

lemma base64Bytes_padding (buf bits : ℕ) {r : JsString} (hr : ∀ c ∈ r, c = unit '=') :
    base64Bytes buf bits r = [] := by
  cases r with
  | nil => rfl
  | cons c r => rw [base64Bytes, if_pos (hr c mem_cons_self)]

lemma ofNat_eq {n : ℕ} {b : UInt8} (h : n % 256 = b.toNat) : UInt8.ofNat n = b := by
  rw [← UInt8.toNat_inj, UInt8.toNat_ofNat']
  exact h

lemma base64Bytes_sextets (b : Bytes) (buf : ℕ) {r : JsString} (hr : ∀ c ∈ r, c = unit '=') :
    base64Bytes buf 0 ((sextets b).map digit64 ++ r) = b := by
  have hlt : ∀ v ∈ sextets b, v < 64 := fun v hv => sextets_lt hv
  induction b using sextets.induct generalizing buf with
  | case1 => exact base64Bytes_padding buf 0 hr
  | case2 a =>
    simp only [sextets, forall_mem_cons] at hlt
    simp only [sextets, map_cons, map_nil, cons_append, nil_append]
    rw [base64Bytes_digit64 hlt.1, if_neg (by omega), base64Bytes_digit64 hlt.2.1,
      if_pos (by omega), base64Bytes_padding _ _ hr, ofNat_eq]
    omega
  | case3 a b =>
    have := b.toNat_lt
    simp only [sextets, forall_mem_cons] at hlt
    simp only [sextets, map_cons, map_nil, cons_append, nil_append]
    rw [base64Bytes_digit64 hlt.1, if_neg (by omega), base64Bytes_digit64 hlt.2.1,
      if_pos (by omega), base64Bytes_digit64 hlt.2.2.1, if_pos (by omega),
      base64Bytes_padding _ _ hr, ofNat_eq, ofNat_eq]
    all_goals omega
  | case4 a b c bs ih =>
    have := b.toNat_lt
    have := c.toNat_lt
    simp only [sextets, forall_mem_cons] at hlt
    simp only [sextets, map_cons, cons_append]
    rw [base64Bytes_digit64 hlt.1, if_neg (by omega), base64Bytes_digit64 hlt.2.1,
      if_pos (by omega), base64Bytes_digit64 hlt.2.2.1, if_pos (by omega),
      base64Bytes_digit64 hlt.2.2.2.1, if_pos (by omega), ih _ hlt.2.2.2.2, ofNat_eq (b := a),
      ofNat_eq (b := b), ofNat_eq (b := c)]
    all_goals omega

def urlDigit64 (v : ℕ) : UInt16 :=
  if v = 62 then unit '-' else if v = 63 then unit '_' else digit64 v

lemma urlDigit64_spec (h : v < 64) :
    (if (if digit64 v = unit '+' then unit '-' else digit64 v) = unit '/' then unit '_'
        else if digit64 v = unit '+' then unit '-' else digit64 v) = urlDigit64 v ∧
      urlDigit64 v ≠ unit '=' ∧
      (if (if digit64 v = unit '-' then unit '+' else digit64 v) = unit '_' then unit '/'
        else if digit64 v = unit '-' then unit '+' else digit64 v) = digit64 v ∧
      (if (if urlDigit64 v = unit '-' then unit '+' else urlDigit64 v) = unit '_' then unit '/'
        else if urlDigit64 v = unit '-' then unit '+' else urlDigit64 v) = digit64 v := by
  revert v
  decide +kernel

lemma rdropWhile_replicate {α : Type*} {p : α → Bool} {l : List α} {a : α} (ha : p a)
    (hl : ∀ x ∈ l, ¬ p x) (n : ℕ) : (l ++ List.replicate n a).rdropWhile p = l := by
  induction n with
  | zero =>
    rw [replicate_zero, append_nil, rdropWhile_eq_self_iff]
    exact fun hne => hl _ (getLast_mem hne)
  | succ n ih => rw [replicate_succ', ← append_assoc, rdropWhile_concat_pos _ _ _ ha, ih]

lemma toUrl_sextets (b : Bytes) :
    toUrl ((sextets b).map digit64 ++ padding b) = (sextets b).map urlDigit64 := by
  have hdigits : ((sextets b).map digit64).map
      ((fun c => if c = unit '/' then unit '_' else c) ∘
        fun c => if c = unit '+' then unit '-' else c) =
      (sextets b).map urlDigit64 := by
    rw [map_map]
    exact map_congr_left fun v hv => (urlDigit64_spec (sextets_lt hv)).1
  rw [toUrl, map_map, map_append, hdigits, padding, map_replicate]
  refine rdropWhile_replicate (by decide) ?_ _
  intro x hx
  obtain ⟨v, hv, rfl⟩ := mem_map.mp hx
  simpa using (urlDigit64_spec (sextets_lt hv)).2.1

lemma fromUrl_sextets (b : Bytes) :
    fromUrl ((sextets b).map digit64 ++ padding b) = (sextets b).map digit64 ++ padding b ∧
      fromUrl ((sextets b).map urlDigit64) = (sextets b).map digit64 := by
  constructor
  · rw [fromUrl, map_map, map_append, map_map, padding, map_replicate]
    congr 1
    exact map_congr_left fun v hv => (urlDigit64_spec (sextets_lt hv)).2.2.1
  · rw [fromUrl, map_map, map_map]
    exact map_congr_left fun v hv => (urlDigit64_spec (sextets_lt hv)).2.2.2

/-! ### Code units -/

lemma toNat_pair (b₀ b₁ : UInt8) :
    (b₀.toUInt16 ||| b₁.toUInt16 <<< 8).toNat = b₁.toNat * 256 + b₀.toNat := by
  have h₀ := b₀.toNat_lt
  have h₁ := b₁.toNat_lt
  have hshift : b₁.toNat <<< 8 % 65536 = b₁.toNat <<< 8 := by
    rw [Nat.shiftLeft_eq]
    omega
  rw [UInt16.toNat_or, UInt16.toNat_shiftLeft]
  simp only [UInt8.toNat_toUInt16, UInt16.reduceToNat, Nat.reduceMod, Nat.reducePow]
  rw [hshift, Nat.or_comm, ← Nat.shiftLeft_add_eq_or_of_lt h₀, Nat.shiftLeft_eq]

lemma toNat_bytes (c : UInt16) :
    (c &&& 0xff).toUInt8.toNat = c.toNat % 256 ∧ (c >>> 8).toUInt8.toNat = c.toNat / 256 := by
  have hc := c.toNat_lt
  have hand : c.toNat % 256 &&& 255 = c.toNat % 256 % 256 := Nat.and_two_pow_sub_one_eq_mod _ 8
  simp [hand, Nat.shiftRight_eq_div_pow]
  omega

lemma utf16leUnits_flatMap (s : JsString) :
    utf16leUnits (s.flatMap fun c : UInt16 => [(c &&& 0xff).toUInt8, (c >>> 8).toUInt8]) = s := by
  induction s with
  | nil => rfl
  | cons c s ih =>
    obtain ⟨hlow, hhigh⟩ := toNat_bytes c
    have hpair : (c &&& 0xff).toUInt8.toUInt16 ||| (c >>> 8).toUInt8.toUInt16 <<< 8 = c := by
      rw [← UInt16.toNat_inj, toNat_pair, hlow, hhigh]
      omega
    rw [flatMap_cons, cons_append, cons_append, nil_append, utf16leUnits, hpair, ih]

lemma flatMap_utf16leUnits (hb : 2 ∣ b.length) :
    (utf16leUnits b).flatMap (fun c : UInt16 => [(c &&& 0xff).toUInt8, (c >>> 8).toUInt8]) = b := by
  induction b using utf16leUnits.induct with
  | case1 b₀ b₁ b ih =>
    have hrest : 2 ∣ b.length := by
      simp only [length_cons] at hb
      omega
    obtain ⟨hlow, hhigh⟩ := toNat_bytes (b₀.toUInt16 ||| b₁.toUInt16 <<< 8)
    have h₀ := b₀.toNat_lt
    rw [toNat_pair] at hlow hhigh
    have hb₀ : ((b₀.toUInt16 ||| b₁.toUInt16 <<< 8) &&& 0xff).toUInt8 = b₀ := by
      rw [← UInt8.toNat_inj, hlow]
      omega
    have hb₁ : ((b₀.toUInt16 ||| b₁.toUInt16 <<< 8) >>> 8).toUInt8 = b₁ := by
      rw [← UInt8.toNat_inj, hhigh]
      omega
    rw [utf16leUnits, flatMap_cons, ih hrest, hb₀, hb₁]
    rfl
  | case2 b h =>
    obtain _ | ⟨x, _ | ⟨y, b⟩⟩ := b
    · rfl
    · simp at hb
    · exact absurd rfl (h x y b)

lemma map_latin1Of (b : Bytes) : (latin1Of b).map (fun c => (c &&& 0xff).toUInt8) = b := by
  have hbyte : ∀ x : UInt8, (x.toUInt16 &&& 0xff).toUInt8 = x := by decide +kernel
  rw [latin1Of, map_map]
  exact (map_congr_left fun x _ => hbyte x).trans (map_id b)

/-! ### Round trips -/

def text : Encoding → Bytes → JsString
  | .utf8, b => textOf (scan (Chunks.strip utf8BOM b))
  | .hex, b => b.flatMap hexByte
  | .base64, b => (sextets b).map digit64 ++ padding b
  | .base64url, b => (sextets b).map urlDigit64
  | .latin1, b => latin1Of b
  | .ascii, b => b.map fun x => (x &&& 0x7f).toUInt16
  | .utf16le, b => utf16leUnits b

/-- `toString` throws for none of the encodings. -/
lemma toString_eq (b : Bytes) (enc : EncodingName) :
    toString b enc 0 b.length = some (text (normEnc enc) b) := by
  unfold toString
  rw [if_neg (by simp)]
  cases normEnc enc with
  | utf8 =>
    show TextDecoder.decodeAll ⟨.utf8, false, false, []⟩ b = _
    rw [TextDecoder.decodeAll_utf8, utf8Decode_eq, if_neg (by simp)]
    rfl
  | base64 => exact btoa_latin1Of b
  | base64url =>
    show (btoa (latin1Of b)).map toUrl = _
    rw [btoa_latin1Of, Option.map_some, toUrl_sextets]
    rfl
  | utf16le => rfl
  | hex => rfl
  | latin1 => rfl
  | ascii => rfl

example : toString [97] .base64 0 1 = some ("YQ==".toList.map unit) := by decide +kernel

lemma mem_padding : ∀ c ∈ padding b, c = unit '=' :=
  fun _ hc => eq_of_mem_replicate hc

lemma encodeString_text {enc : EncodingName}
    (h : normEnc enc ∈ [.hex, .base64, .base64url, .latin1] ∨
      normEnc enc = .utf16le ∧ 2 ∣ b.length) :
    encodeString (text (normEnc enc) b) enc = b := by
  unfold encodeString
  cases henc : normEnc enc with
  | hex => exact hexBytes_hexByte b
  | base64 =>
    show base64Bytes 0 0 (fromUrl _) = b
    rw [text, (fromUrl_sextets b).1]
    exact base64Bytes_sextets b 0 mem_padding
  | base64url =>
    show base64Bytes 0 0 (fromUrl _) = b
    rw [text, (fromUrl_sextets b).2, ← append_nil ((sextets b).map digit64)]
    exact base64Bytes_sextets b 0 (by simp)
  | latin1 => exact map_latin1Of b
  | utf16le =>
    rw [henc] at h
    exact flatMap_utf16leUnits (h.resolve_left (by simp)).2
  | utf8 | ascii => simp [henc] at h

lemma bom_prefix_utf8_iff {s : JsString} (hs : IsWellFormed s) :
    utf8BOM <+: utf8 (scalars s) ↔ s.head? = some 0xFEFF := by
  have hunits : utf16 (scalars s) = s := (utf16_scalars s).trans hs
  constructor
  · rintro ⟨r, hr⟩
    have hscan := scan_utf8 (scalars s)
    rw [← hr, DecoderEncoding.scan_bom] at hscan
    cases hcs : scalars s with
    | nil => simp [hcs] at hscan
    | cons c cs =>
      rw [hcs, map_cons] at hscan
      obtain rfl : '\uFEFF' = c := Option.some.inj (List.cons.inj hscan).1
      rw [← hunits, hcs, utf16_cons]
      rfl
  · intro hhead
    obtain ⟨t, rfl⟩ : ∃ t, s = 0xFEFF :: t := head?_eq_some_iff.mp hhead
    rw [scalars_cons (by decide), utf8_cons]
    exact prefix_append _ _

lemma text_utf8Encode {s : JsString} (hs : IsWellFormed s) :
    text .utf8 (utf8Encode s) = s ↔ s.head? ≠ some 0xFEFF := by
  have hunits : utf16 (scalars s) = s := (utf16_scalars s).trans hs
  rw [utf8Encode_eq, text]
  by_cases hhead : s.head? = some 0xFEFF
  · refine iff_of_false (fun h => ?_) (fun h => h hhead)
    obtain ⟨r, hr⟩ := (bom_prefix_utf8_iff hs).mpr hhead
    have hscan := scan_utf8 (scalars s)
    rw [← hr] at hscan h
    rw [Chunks.strip_append] at h
    -- the string is U+FEFF and the text that is left
    rw [DecoderEncoding.scan_bom] at hscan
    have htext := congrArg textOf hscan
    rw [textOf_map_some, hunits, ← singleton_append, textOf_append, h] at htext
    simpa [textOf, utf16, encodeCodePoint] using congrArg List.length htext
  · refine iff_of_true ?_ hhead
    rw [Chunks.strip, if_neg (fun h => hhead ((bom_prefix_utf8_iff hs).mp h)), scan_utf8,
      textOf_map_some, hunits]

/-- Bytes are read back from their text, and from utf16le if there is no odd byte; a well-formed
string is read back from its bytes, unless the encoding is utf8 and it begins with U+FEFF. -/
theorem buffer_round_trip_iff (enc : EncodingName) (b : Bytes) (s : JsString) :
    (normEnc enc ∈ [.hex, .base64, .base64url, .latin1] ∨ normEnc enc = .utf16le ∧ 2 ∣ b.length →
        (toString b enc 0 b.length).map (encodeString · enc) = some b) ∧
      (IsWellFormed s → normEnc enc ∈ [.utf8, .utf16le] →
        (toString (encodeString s enc) enc 0 (encodeString s enc).length = some s ↔
          ¬ (normEnc enc = .utf8 ∧ s.head? = some 0xFEFF))) := by
  constructor
  · intro h
    rw [toString_eq, Option.map_some, encodeString_text h]
  · intro hs henc
    rw [toString_eq, Option.some_inj, encodeString]
    simp only [mem_cons, not_mem_nil, or_false] at henc
    rcases henc with henc | henc
    · simp only [henc, true_and]
      exact text_utf8Encode hs
    · simp only [henc]
      exact iff_of_true (utf16leUnits_flatMap s) (fun h => nomatch h.1)

/-- A string that begins with U+FEFF loses it. -/
theorem buffer_loses_mark :
    IsWellFormed [0xFEFF, 0x61] ∧
      encodeString [0xFEFF, 0x61] .utf8 = [0xEF, 0xBB, 0xBF, 0x61] ∧
      toString (encodeString [0xFEFF, 0x61] .utf8) .utf8 0 4 = some [0x61] := by
  unfold IsWellFormed
  decide

end GoSpidermonkey.Nodejs.Buffer
