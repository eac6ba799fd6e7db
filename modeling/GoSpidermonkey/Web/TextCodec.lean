import GoSpidermonkey.Ecma.Uri
import GoSpidermonkey.Ecma.Utf16
import GoSpidermonkey.Lib.Machine
import GoSpidermonkey.Lib.Utf8

/-!
# The UTF-8 encoder and decoder

`utf8Encode`, `utf8Decode` and `TextEncoder.encodeInto`. The decoder is a machine with the fields of
the source: what it appends to its result is a list of code points and of calls of `bad`, which
throws in fatal mode and appends U+FFFD otherwise. It reads the bytes as the prefix code of the
encodings of characters (`decodes_scan`): one error for a longest beginning of an encoding. The
encoder as a stream keeps a high surrogate back for the next chunk (`chunking_independent`).
-/

namespace GoSpidermonkey.Web

open Ecma

/-! ### Encoding -/

def pushCodePoint (c : ℕ) : Bytes :=
  if c < 0x80 then [.ofNat c]
  else if c < 0x800 then [.ofNat (0xc0 ||| c >>> 6), .ofNat (0x80 ||| (c &&& 63))]
  else if c < 0x10000 then
    [.ofNat (0xe0 ||| c >>> 12), .ofNat (0x80 ||| (c >>> 6 &&& 63)), .ofNat (0x80 ||| (c &&& 63))]
  else
    [.ofNat (0xf0 ||| c >>> 18), .ofNat (0x80 ||| (c >>> 12 &&& 63)),
      .ofNat (0x80 ||| (c >>> 6 &&& 63)), .ofNat (0x80 ||| (c &&& 63))]

def utf8Encode : JsString → Bytes
  | [] => []
  | [c] => pushCodePoint (if IsSurrogate c then 0xfffd else c.toNat)
  | c :: lo :: s =>
    if IsHigh c then
      if IsLow lo then
        pushCodePoint (0x10000 + (c.toNat - 0xd800) <<< 10 + (lo.toNat - 0xdc00)) ++ utf8Encode s
      else pushCodePoint 0xfffd ++ utf8Encode (lo :: s)
    else pushCodePoint (if IsSurrogate c then 0xfffd else c.toNat) ++ utf8Encode (lo :: s)

/-- `dest.set(bytes, offset)`. -/
def setBytes (dest bytes : Bytes) (offset : ℕ) : Bytes :=
  dest.take offset ++ bytes ++ dest.drop (offset + bytes.length)

/-- What `encodeInto` returns, and the destination. -/
structure Encoded where
  read : ℕ
  written : ℕ
  dest : Bytes

/-- The loop of `encodeInto`. -/
def Encoded.loop (r : Encoded) : List JsString → Encoded
  | [] => r
  | ch :: chs =>
    let bytes := utf8Encode ch
    if r.dest.length < r.written + bytes.length then r
    else
      Encoded.loop
        { read := r.read + ch.length
          written := r.written + bytes.length
          dest := setBytes r.dest bytes r.written } chs

def encodeInto (source : JsString) (dest : Bytes) : Encoded :=
  Encoded.loop ⟨0, 0, dest⟩ (iterate source)

/-! ### Decoding -/

/-- The variables of `utf8Decode`. -/
structure Utf8State where
  cp : ℕ := 0
  seen : ℕ := 0
  needed : ℕ := 0
  lower : ℕ := 0x80
  upper : ℕ := 0xbf
  deriving DecidableEq

namespace Utf8State

variable (st : Utf8State)

/-- A byte outside of a sequence: what is appended, with `none` for a call of `bad`, and the
variables after it. -/
def lead (b : ℕ) : List (Option ℕ) × Utf8State :=
  if b < 0x80 then ([some b], st)
  else if 0xc2 ≤ b ∧ b ≤ 0xdf then ([], { st with needed := 1, cp := b &&& 0x1f })
  else if 0xe0 ≤ b ∧ b ≤ 0xef then
    ([], { st with
      lower := if b = 0xe0 then 0xa0 else st.lower
      upper := if b = 0xed then 0x9f else st.upper
      needed := 2
      cp := b &&& 0x0f })
  else if 0xf0 ≤ b ∧ b ≤ 0xf4 then
    ([], { st with
      lower := if b = 0xf0 then 0x90 else st.lower
      upper := if b = 0xf4 then 0x8f else st.upper
      needed := 3
      cp := b &&& 0x07 })
  else ([none], st)

def trail (b : ℕ) : List (Option ℕ) × Utf8State :=
  let cp := st.cp <<< 6 ||| (b &&& 0x3f)
  if st.seen + 1 = st.needed then ([some cp], {})
  else ([], { st with cp := cp, seen := st.seen + 1, lower := 0x80, upper := 0xbf })

end Utf8State

/-- What the loop of `utf8Decode` appends. -/
def decodeBytes : Utf8State → Bytes → List (Option ℕ)
  | st, [] => if st.needed ≠ 0 then [none] else []
  | st, b :: bs =>
    if st.needed = 0 then (st.lead b.toNat).1 ++ decodeBytes (st.lead b.toNat).2 bs
    else if b.toNat < st.lower ∨ st.upper < b.toNat then
      -- the index steps back, so the next round sees the same byte outside of a sequence
      none :: ((Utf8State.lead {} b.toNat).1 ++ decodeBytes (Utf8State.lead {} b.toNat).2 bs)
    else (st.trail b.toNat).1 ++ decodeBytes (st.trail b.toNat).2 bs

/-- A call of `bad` or of `String.fromCodePoint`; `none` if it throws. -/
def emit (fatal : Bool) : Option ℕ → Option JsString
  | none => if fatal then none else some [0xfffd]
  | some cp => fromCodePoint cp

def joinAll : List (Option JsString) → Option JsString
  | [] => some []
  | r :: rs => r.bind fun out => (joinAll rs).map (out ++ ·)

/-- `utf8Decode`; `none` if it throws. -/
def utf8Decode (bytes : Bytes) (fatal : Bool) : Option JsString :=
  joinAll ((decodeBytes {} bytes).map (emit fatal))

/-! ### The decoder reads a prefix code -/

/-- The variables after the bytes of an unfinished sequence. -/
inductive At : Utf8State → Bytes → Prop where
  | start : At {} []
  | inside {l : UInt8} {q : Bytes} (h : Utf8.code.Partial (l :: q)) :
      At { cp := Utf8.value l q
           seen := q.length
           needed := Utf8.need l
           lower := if q = [] then (Utf8.lower l).toNat else 0x80
           upper := if q = [] then (Utf8.upper l).toNat else 0xbf } (l :: q)

lemma shiftLeft_or_and (cp b : ℕ) : cp <<< 6 ||| (b &&& 0x3f) = cp * 64 + b % 64 := by
  have hand : b &&& 0x3f = b % 64 := Nat.and_two_pow_sub_one_eq_mod b 6
  rw [hand, ← Nat.shiftLeft_add_eq_or_of_lt (Nat.mod_lt b (by norm_num : 0 < 2 ^ 6)),
    Nat.shiftLeft_eq]

lemma lead_cases (b : UInt8) :
    (∃ c, Utf8.code.word c = [b] ∧ Utf8State.lead {} b.toNat = ([some c.toNat], {})) ∨
      (∃ st, At st [b] ∧ Utf8State.lead {} b.toNat = ([], st)) ∨
      ¬ Utf8.code.Begins [b] ∧ Utf8State.lead {} b.toNat = ([none], {}) := by
  by_cases hlead : Utf8.Lead b
  · by_cases hneed : Utf8.need b = 0
    · obtain ⟨c, hc⟩ := Utf8.exists_encode (q := []) ⟨hlead, hneed.symm⟩ (Utf8.follows_nil b)
      refine .inl ⟨c, hc, ?_⟩
      rw [(Utf8.encode_one_iff.mp hc).2]
      have hascii : ∀ b, Utf8.Lead b → Utf8.need b = 0 →
          Utf8State.lead {} b.toNat = ([some b.toNat], {}) := by decide +kernel
      exact hascii b hlead hneed
    · have hpart : Utf8.code.Partial [b] :=
        Utf8.partial_iff.mpr ⟨hlead, Nat.pos_of_ne_zero hneed, Utf8.follows_nil b⟩
      refine .inr (.inl ⟨_, .inside hpart, ?_⟩)
      have hfirst : ∀ b, Utf8.Lead b → Utf8.need b ≠ 0 → Utf8State.lead {} b.toNat =
          ([], ⟨Utf8.leadBits b, 0, Utf8.need b, (Utf8.lower b).toNat, (Utf8.upper b).toNat⟩) := by
        decide +kernel
      exact hfirst b hlead hneed
  · refine .inr (.inr ⟨fun h => hlead (Utf8.begins_iff.mp h).1, ?_⟩)
    have hbad : ∀ b, ¬ Utf8.Lead b → Utf8State.lead {} b.toNat = ([none], {}) := by decide +kernel
    exact hbad b hlead

lemma follows_snoc_iff {l b : UInt8} {q : Bytes} (hq : Utf8.Follows l q) :
    Utf8.Follows l (q ++ [b]) ↔
      ¬ (b.toNat < (if q = [] then (Utf8.lower l).toNat else 0x80) ∨
        (if q = [] then (Utf8.upper l).toNat else 0xbf) < b.toNat) := by
  rw [not_or, Nat.not_lt, Nat.not_lt]
  cases q with
  | nil => simp [Utf8.follows_cons, UInt8.le_iff_toNat_le]
  | cons x q =>
    obtain ⟨hx, hq⟩ := Utf8.follows_cons.mp hq
    rw [List.cons_append, Utf8.follows_cons, List.forall_mem_append, List.forall_mem_singleton]
    rw [and_iff_right hx, and_iff_right hq]
    simp [Utf8.Cont, UInt8.le_iff_toNat_le]

lemma inside_cases {st : Utf8State} {l b : UInt8} {q : Bytes} (h : At st (l :: q)) :
    st.needed ≠ 0 ∧
      ((b.toNat < st.lower ∨ st.upper < b.toNat) ∧ ¬ Utf8.code.Begins (l :: q ++ [b]) ∨
        ¬ (b.toNat < st.lower ∨ st.upper < b.toNat) ∧
          ((∃ c, Utf8.code.word c = l :: q ++ [b] ∧ st.trail b.toNat = ([some c.toNat], {})) ∨
            ∃ st', At st' (l :: q ++ [b]) ∧ st.trail b.toNat = ([], st'))) := by
  obtain _ | hpart := h
  obtain ⟨hlead, hlen, hfollows⟩ := Utf8.partial_iff.mp hpart
  refine ⟨Nat.ne_of_gt (Nat.zero_lt_of_lt hlen), ?_⟩
  have hvalue : Utf8.value l q <<< 6 ||| (b.toNat &&& 0x3f) = Utf8.value l (q ++ [b]) := by
    rw [shiftLeft_or_and, Utf8.value, Utf8.value, List.foldl_append]
    rfl
  have hlen' : (q ++ [b]).length = q.length + 1 := List.length_append
  by_cases hrange : Utf8.Follows l (q ++ [b])
  · refine .inr ⟨(follows_snoc_iff hfollows).mp hrange, ?_⟩
    simp only [Utf8State.trail, hvalue]
    by_cases hend : q.length + 1 = Utf8.need l
    · obtain ⟨c, hc⟩ := Utf8.exists_encode ⟨hlead, hlen'.trans hend⟩ hrange
      exact .inl ⟨c, hc, by rw [if_pos hend, (Utf8.encode_iff.mp hc).2.2]⟩
    · have hpart' : Utf8.code.Partial (l :: (q ++ [b])) :=
        Utf8.partial_iff.mpr ⟨hlead, by omega, hrange⟩
      refine .inr ⟨_, .inside hpart', ?_⟩
      rw [if_neg hend]
      simp
  · refine .inl ⟨not_not.mp fun h => hrange ((follows_snoc_iff hfollows).mpr h), fun h => ?_⟩
    exact hrange (Utf8.begins_iff.mp h).2.2

/-- What the decoder has read of a sequence and the rest are decoded as the rest of the result. -/
lemma decodes_decodeBytes (bs : Bytes) {st : Utf8State} {p : Bytes} (h : At st p) :
    ∃ os : List (Option Char), Utf8.code.Decodes (p ++ bs) os ∧
      decodeBytes st bs = os.map (Option.map Char.toNat) := by
  induction bs generalizing st p with
  | nil =>
    cases h with
    | start => exact ⟨[], .nil, rfl⟩
    | @inside l q hpart =>
      have hneed : Utf8.need l ≠ 0 :=
        Nat.ne_of_gt (Nat.zero_lt_of_lt (Utf8.partial_iff.mp hpart).2.1)
      exact ⟨[none], .broken (List.cons_ne_nil l q) hpart (fun b hb => nomatch hb) .nil,
        if_pos hneed⟩
  | cons b bs ih =>
    -- the byte outside of a sequence, at the start of one round or after an error
    have hlead : ∃ os : List (Option Char), Utf8.code.Decodes (b :: bs) os ∧
        (Utf8State.lead {} b.toNat).1 ++ decodeBytes (Utf8State.lead {} b.toNat).2 bs =
          os.map (Option.map Char.toNat) := by
      rcases lead_cases b with ⟨c, hc, heq⟩ | ⟨st, hst, heq⟩ | ⟨hb, heq⟩
      · obtain ⟨os, hos, hbs⟩ := ih .start
        refine ⟨some c :: os, ?_, by rw [heq, hbs]; rfl⟩
        have hword := PrefixCode.Decodes.word c hos
        rwa [hc] at hword
      · obtain ⟨os, hos, hbs⟩ := ih hst
        exact ⟨os, hos, by rw [heq, hbs]; rfl⟩
      · obtain ⟨os, hos, hbs⟩ := ih .start
        exact ⟨none :: os, .stray hb hos, by rw [heq, hbs]; rfl⟩
    rw [decodeBytes]
    cases p with
    | nil =>
      cases h
      exact hlead
    | cons l q =>
      obtain ⟨hneeded, ⟨hout, hbegins⟩ | ⟨hin, ⟨c, hc, heq⟩ | ⟨st', hst', heq⟩⟩⟩ :=
        inside_cases (b := b) h
      · obtain ⟨os, hos, hbs⟩ := hlead
        obtain _ | hpart := h
        refine ⟨none :: os, .broken (List.cons_ne_nil l q) hpart (fun b' hb' => ?_) hos, ?_⟩
        · cases hb'
          exact hbegins
        · rw [if_neg hneeded, if_pos hout, hbs]
          rfl
      · obtain ⟨os, hos, hbs⟩ := ih .start
        refine ⟨some c :: os, ?_, by rw [if_neg hneeded, if_neg hin, heq, hbs]; rfl⟩
        have hword := PrefixCode.Decodes.word c hos
        rwa [hc, List.append_assoc] at hword
      · obtain ⟨os, hos, hbs⟩ := ih hst'
        refine ⟨os, ?_, by rw [if_neg hneeded, if_neg hin, heq, hbs]; rfl⟩
        rwa [List.append_assoc] at hos

def scan (b : Bytes) : List (Option Char) := (decodeBytes {} b).map (Option.map Char.ofNat)

private lemma scan_spec (b : Bytes) :
    Utf8.code.Decodes b (scan b) ∧ decodeBytes {} b = (scan b).map (Option.map Char.toNat) := by
  obtain ⟨os, hos, heq⟩ := decodes_decodeBytes b .start
  have hscan : scan b = os := by
    have hinv : Option.map Char.ofNat ∘ Option.map Char.toNat = id := by
      funext o
      cases o <;> simp
    rw [scan, heq, List.map_map, hinv, List.map_id]
  rw [hscan]
  exact ⟨hos, heq⟩

/-- The decoder reads the code of the encodings of characters. -/
theorem decodes_scan (b : Bytes) : Utf8.code.Decodes b (scan b) := (scan_spec b).1

lemma decodeBytes_scan (b : Bytes) : decodeBytes {} b = (scan b).map (Option.map Char.toNat) :=
  (scan_spec b).2

lemma scan_eq {b : Bytes} {os : List (Option Char)} (h : Utf8.code.Decodes b os) : scan b = os :=
  (decodes_scan b).unique h

def textOf (os : List (Option Char)) : JsString := utf16 (os.map fun o => o.getD replacement)

lemma textOf_append (os os' : List (Option Char)) :
    textOf (os ++ os') = textOf os ++ textOf os' := by
  rw [textOf, List.map_append, utf16_append]
  rfl

lemma textOf_map_some (cs : List Char) : textOf (cs.map some) = utf16 cs := by
  simp [textOf]

lemma joinAll_map {ι : Type*} (P : ι → Prop) [DecidablePred P] (g : ι → JsString) (l : List ι) :
    joinAll (l.map fun x => if P x then none else some (g x)) =
      if ∃ x ∈ l, P x then none else some (l.flatMap g) := by
  induction l with
  | nil => simp [joinAll]
  | cons x l ih =>
    rw [List.map_cons, joinAll, ih]
    by_cases hx : P x
    · have hex : ∃ y ∈ x :: l, P y := ⟨x, List.mem_cons_self, hx⟩
      rw [if_pos hx, if_pos hex]
      rfl
    · rw [if_neg hx, Option.bind_some]
      by_cases hl : ∃ y ∈ l, P y
      · rw [if_pos hl, if_pos (List.exists_mem_cons_of_exists hl)]
        rfl
      · rw [if_neg hl, if_neg (by simpa [hx] using hl)]
        rfl

lemma emit_eq (fatal : Bool) (o : Option Char) :
    emit fatal (o.map Char.toNat) =
      if fatal ∧ o = none then none else some (encodeCodePoint (o.getD replacement).toNat) := by
  cases o with
  | none => cases fatal <;> rfl
  | some c =>
    have hc := Utf8.char_valid c
    rw [if_neg (by simp)]
    exact if_pos (by omega)

/-- In fatal mode the decoder throws at an error, otherwise it always returns the text. -/
theorem utf8Decode_eq (b : Bytes) (fatal : Bool) :
    utf8Decode b fatal = if fatal ∧ none ∈ scan b then none else some (textOf (scan b)) := by
  rw [utf8Decode, decodeBytes_scan, List.map_map]
  have hmap : emit fatal ∘ Option.map Char.toNat = fun o => _ := funext (emit_eq fatal)
  rw [hmap, joinAll_map, textOf, utf16, List.flatMap_map]
  simp [and_comm]

/-! ### The encoder -/

private lemma or_eq_add {m k x : ℕ} (hx : x < 2 ^ k) : m * 2 ^ k ||| x = m * 2 ^ k + x := by
  rw [← Nat.shiftLeft_eq, Nat.shiftLeft_add_eq_or_of_lt hx]

lemma pushCodePoint_char (c : Char) : pushCodePoint c.toNat = String.utf8EncodeChar c := by
  have hc := Utf8.char_valid c
  rw [eq_comm, Utf8.encode_eq_iff]
  generalize c.toNat = v at hc
  have hand : ∀ x : ℕ, x &&& 63 = x % 64 := fun x => Nat.and_two_pow_sub_one_eq_mod x 6
  have hcont : ∀ x : ℕ, 0x80 ||| x % 64 = 0x80 + x % 64 := fun x =>
    or_eq_add (m := 2) (k := 6) (Nat.mod_lt x (by norm_num))
  unfold pushCodePoint Utf8.bytesOf
  simp only [Nat.shiftRight_eq_div_pow, hand, hcont]
  split_ifs with h₁ h₂ h₃
  · simp
    omega
  · have hlead : 0xc0 ||| v / 2 ^ 6 = 0xc0 + v / 2 ^ 6 := or_eq_add (m := 6) (k := 5) (by omega)
    rw [hlead]
    simp
    omega
  · have hlead : 0xe0 ||| v / 2 ^ 12 = 0xe0 + v / 2 ^ 12 := or_eq_add (m := 14) (k := 4) (by omega)
    rw [hlead]
    simp
    omega
  · have hlead : 0xf0 ||| v / 2 ^ 18 = 0xf0 + v / 2 ^ 18 := or_eq_add (m := 30) (k := 3) (by omega)
    rw [hlead]
    simp
    omega

/-- The encoder writes the characters of the string. -/
theorem utf8Encode_eq (s : JsString) : utf8Encode s = utf8 (scalars s) := by
  have hunit : ∀ u, pushCodePoint (if IsSurrogate u then 0xfffd else u.toNat) =
      String.utf8EncodeChar (unitChar u) := fun u => by
    rw [← toNat_unitChar, pushCodePoint_char]
  induction s using scalars.induct with
  | case1 => rfl
  | case2 u =>
    simp only [utf8Encode, scalars]
    rw [hunit, utf8_cons, utf8_nil, List.append_nil]
  | case3 hi lo s h ih =>
    simp only [utf8Encode, scalars]
    rw [if_pos h.1, if_pos h.2, if_pos h, utf8_cons, ih, ← pushCodePoint_char, toNat_pairChar h,
      Nat.shiftLeft_eq]
    rfl
  | case4 hi lo s h ih =>
    simp only [utf8Encode, scalars]
    rw [if_neg h, utf8_cons, ih, ← hunit]
    by_cases hhi : IsHigh hi
    · have hsurrogate : IsSurrogate hi := ⟨hhi.1, UInt16.le_trans hhi.2 (by decide)⟩
      rw [if_pos hhi, if_neg fun hlo => h ⟨hhi, hlo⟩, if_pos hsurrogate]
    · rw [if_neg hhi]

example : utf8Encode [0xD800] = [0xEF, 0xBF, 0xBD] := by decide +kernel

lemma scan_utf8 (cs : List Char) : scan (utf8 cs) = cs.map some :=
  scan_eq (PrefixCode.decodes_words cs)

lemma utf8Decode_utf8 (cs : List Char) (fatal : Bool) :
    utf8Decode (utf8 cs) fatal = some (utf16 cs) := by
  rw [utf8Decode_eq, scan_utf8, textOf_map_some, if_neg]
  simp

lemma utf8Decode_fatal_iff {b : Bytes} {t : JsString} :
    utf8Decode b true = some t ↔ ∃ cs, b = utf8 cs ∧ t = utf16 cs := by
  constructor
  · intro h
    rw [utf8Decode_eq] at h
    split_ifs at h with herr
    obtain ⟨cs, hscan, hb⟩ := (decodes_scan b).eq_words fun hnone => herr ⟨rfl, hnone⟩
    refine ⟨cs, hb, ?_⟩
    rw [← Option.some.inj h, hscan, textOf_map_some]
  · rintro ⟨cs, rfl, rfl⟩
    exact utf8Decode_utf8 cs true

/-! ### Encoding into a buffer -/

lemma utf8Encode_iterate (s : JsString) : utf8Encode s = (iterate s).flatMap utf8Encode := by
  induction s using iterate.induct with
  | case1 => rfl
  | case2 c => exact (List.append_nil _).symm
  | case3 c lo s h ih =>
    simp only [iterate]
    rw [if_pos h, List.flatMap_cons, ← ih, utf8Encode, if_pos h.1, if_pos h.2, utf8Encode,
      if_pos h.1, if_pos h.2, utf8Encode, List.append_nil]
  | case4 c lo s h ih =>
    simp only [iterate]
    rw [if_neg h, List.flatMap_cons, ← ih, utf8Encode_eq, utf8Encode_eq, utf8Encode_eq]
    simp only [scalars]
    rw [if_neg h, ← utf8_append]
    rfl

/-- The destination is filled with as many characters of the string as fit. -/
structure Encoded.Fills (r : Encoded) (s : JsString) (dest : Bytes) : Prop where
  read_le : r.read ≤ s.length
  written : r.written = (utf8Encode (s.take r.read)).length
  fits : r.written ≤ dest.length
  content : r.dest = utf8Encode (s.take r.read) ++ dest.drop r.written
  whole : ¬ SplitsPair s r.read
  longest : ∀ n, r.read < n → n ≤ s.length → ¬ SplitsPair s n →
    dest.length < (utf8Encode (s.take n)).length

lemma setBytes_front (front bytes dest : Bytes) :
    setBytes (front ++ dest.drop front.length) bytes front.length =
      front ++ bytes ++ dest.drop (front ++ bytes).length := by
  simp [setBytes, List.drop_append]

lemma Encoded.loop_spec (chs : List JsString) (front : List JsString) (dest : Bytes)
    (hfits : (front.flatMap utf8Encode).length ≤ dest.length) :
    ∃ more back, chs = more ++ back ∧
      Encoded.loop
        { read := front.flatten.length
          written := (front.flatMap utf8Encode).length
          dest := front.flatMap utf8Encode ++ dest.drop (front.flatMap utf8Encode).length } chs =
        { read := (front ++ more).flatten.length
          written := ((front ++ more).flatMap utf8Encode).length
          dest := (front ++ more).flatMap utf8Encode ++
            dest.drop ((front ++ more).flatMap utf8Encode).length } ∧
      ((front ++ more).flatMap utf8Encode).length ≤ dest.length ∧
      ∀ ch ∈ back.head?, dest.length < ((front ++ more ++ [ch]).flatMap utf8Encode).length := by
  induction chs generalizing front with
  | nil => exact ⟨[], [], rfl, by simp [Encoded.loop], by simpa using hfits, fun ch h => nomatch h⟩
  | cons ch chs ih =>
    have hsnoc : (front ++ [ch]).flatMap utf8Encode = front.flatMap utf8Encode ++
      utf8Encode ch := by
      simp
    have hlen : (front.flatMap utf8Encode ++ dest.drop (front.flatMap utf8Encode).length).length =
        dest.length := by
      rw [List.length_append, List.length_drop]
      omega
    by_cases hroom : dest.length < (front.flatMap utf8Encode).length + (utf8Encode ch).length
    · refine ⟨[], ch :: chs, rfl, ?_, by simpa using hfits, fun ch' hch' => ?_⟩
      · rw [List.append_nil]
        exact if_pos (by rwa [hlen])
      · cases hch'
        rwa [List.append_nil, hsnoc, List.length_append]
    · have hfits' : ((front ++ [ch]).flatMap utf8Encode).length ≤ dest.length := by
        rw [hsnoc, List.length_append]
        omega
      obtain ⟨more, back, rfl, hloop, hmore, hback⟩ := ih (front ++ [ch]) hfits'
      rw [List.append_assoc, List.singleton_append] at hloop hmore hback
      refine ⟨ch :: more, back, rfl, ?_, hmore, hback⟩
      rw [← hloop, Encoded.loop]
      simp only [hlen]
      rw [if_neg hroom, setBytes_front, hsnoc]
      simp

lemma encodeInto_fills (s : JsString) (dest : Bytes) : (encodeInto s dest).Fills s dest := by
  obtain ⟨front, back, hsplit, hloop, hfits, hback⟩ :=
    Encoded.loop_spec (iterate s) [] dest (Nat.zero_le _)
  simp only [List.nil_append] at hloop hfits hback
  have heq : encodeInto s dest = _ := hloop
  obtain ⟨hwhole, hfront⟩ := whole_of_iterate hsplit
  have hs : front.flatten ++ back.flatten = s := by
    rw [← List.flatten_append, ← hsplit, flatten_iterate]
  have htake : s.take front.flatten.length = front.flatten := by
    rw [← hs, List.take_left]
  have hencode : utf8Encode front.flatten = front.flatMap utf8Encode := by
    rw [utf8Encode_iterate, hfront]
  rw [heq]
  refine ⟨?_, ?_, hfits, ?_, ?_, ?_⟩
  · rw [← hs, List.length_append]
    exact Nat.le_add_right _ _
  · rw [htake, hencode]
  · rw [htake, hencode]
  · rw [SplitsPair, htake, not_not, ← hs, List.drop_left]
    exact hwhole
  · intro n hlt hle hn
    -- a longer string without half a pair has the part that did not fit
    have hiterate : iterate s = iterate (s.take n) ++ iterate (s.drop n) := by
      rw [← iterate_append (not_not.mp hn), List.take_append_drop]
    have hlen : (iterate (s.take n)).flatten.length = n := by
      rw [flatten_iterate, List.length_take, Nat.min_eq_left hle]
    rw [hsplit] at hiterate
    rcases List.append_eq_append_iff.mp hiterate with ⟨more, hmore, hrest⟩ | ⟨more, hmore, -⟩
    · cases more with
      | nil =>
        rw [hmore, List.append_nil] at hlen
        exact absurd hlen hlt.ne
      | cons ch more =>
        refine (hback ch (by rw [hrest]; rfl)).trans_le ?_
        rw [utf8Encode_iterate (s.take n), hmore]
        simp
    · have hread : front.flatten.length < n := hlt
      rw [hmore, List.flatten_append, List.length_append, hlen] at hread
      omega

/-- The encoder and the decoder are inverse up to unpaired surrogates, fatal decoding accepts
exactly the well-formed byte sequences, and `encodeInto` writes as much as fits. -/
theorem utf8_codec (s : JsString) (b dest : Bytes) :
    (∀ fatal, utf8Decode (utf8Encode s) fatal = some (toWellFormed s)) ∧
      ((utf8Decode b true).isSome ↔ ∃ cs, b = utf8 cs) ∧
      (∀ t, utf8Decode b true = some t → utf8Encode t = b) ∧
      (encodeInto s dest).Fills s dest := by
  refine ⟨fun fatal => ?_, ?_, fun t ht => ?_, encodeInto_fills s dest⟩
  · rw [utf8Encode_eq, utf8Decode_utf8, utf16_scalars]
  · rw [Option.isSome_iff_exists]
    constructor
    · rintro ⟨t, ht⟩
      obtain ⟨cs, hb, -⟩ := utf8Decode_fatal_iff.mp ht
      exact ⟨cs, hb⟩
    · rintro ⟨cs, rfl⟩
      exact ⟨_, utf8Decode_utf8 cs true⟩
  · obtain ⟨cs, rfl, rfl⟩ := utf8Decode_fatal_iff.mp ht
    rw [utf8Encode_eq, scalars_utf16]

/-! ### The encoder as a stream -/

/-- A `TextEncoderStream` with the chunks its readable side holds and those read from it. -/
structure EncoderStream where
  pending : JsString := []
  queue : List Bytes := []
  closed : Bool := false
  received : List Bytes := []

namespace EncoderStream

def enqueue (t : EncoderStream) (s : JsString) : EncoderStream :=
  if s = [] then t else { t with queue := t.queue ++ [utf8Encode s] }

def write (t : EncoderStream) (chunk : JsString) : EncoderStream :=
  let s := t.pending ++ chunk
  match s.getLast? with
  | none => { t with pending := [] }
  | some last =>
    if IsHigh last then { t with pending := [last] }.enqueue s.dropLast
    else { t with pending := [] }.enqueue s

inductive Op
  | write (chunk : JsString)
  | close
  /-- The reader takes a chunk. -/
  | read

def step (t : EncoderStream) : Op → Option EncoderStream
  | .write chunk => if t.closed then none else some (t.write chunk)
  | .close => if t.closed then none else some { t.enqueue t.pending with closed := true }
  | .read =>
    match t.queue with
    | [] => none
    | c :: cs => some { t with queue := cs, received := t.received ++ [c] }

def written (ops : List Op) : JsString :=
  ops.flatMap fun
    | .write chunk => chunk
    | _ => []

def emitted (t : EncoderStream) : Bytes := (t.received ++ t.queue).flatten

/-- The chunks that left are the encoding of `w`, up to what is pending. -/
def Encodes (t : EncoderStream) (w : JsString) : Prop :=
  if t.closed then t.emitted = utf8Encode w
  else ∀ more, t.emitted ++ utf8Encode (t.pending ++ more) = utf8Encode (w ++ more)

variable {t : EncoderStream} {s w : JsString}

@[simp] lemma emitted_enqueue : (t.enqueue s).emitted = t.emitted ++ utf8Encode s := by
  unfold enqueue
  split
  case isTrue h => rw [h, utf8Encode, List.append_nil]
  case isFalse => simp [emitted]

lemma utf8Encode_append {more : JsString} (h : Whole s more) :
    utf8Encode (s ++ more) = utf8Encode s ++ utf8Encode more := by
  rw [utf8Encode_iterate, iterate_append h, List.flatMap_append, ← utf8Encode_iterate,
    ← utf8Encode_iterate]

lemma emitted_write (chunk more : JsString) :
    (t.write chunk).emitted ++ utf8Encode ((t.write chunk).pending ++ more)
      = t.emitted ++ utf8Encode (t.pending ++ chunk ++ more) := by
  have hpending (p s : JsString) : ({ t with pending := p }.enqueue s).pending = p := by
    unfold enqueue
    split <;> rfl
  simp only [write]
  split
  case h_1 hlast => rw [List.getLast?_eq_none_iff.mp hlast]; rfl
  case h_2 last hlast =>
    have hwhole : t.pending ++ chunk = (t.pending ++ chunk).dropLast ++ [last] :=
      (List.dropLast_append_getLast? last hlast).symm
    split
    case isTrue hhigh =>
      -- the held unit is no low surrogate, so nothing before it pairs with it
      have hcut : Whole (t.pending ++ chunk).dropLast ([last] ++ more) := by
        rintro hi - lo hlo ⟨-, hlow⟩
        cases hlo
        exact not_isHigh_of_isLow hlow hhigh
      rw [emitted_enqueue, hpending, List.append_assoc, ← utf8Encode_append hcut,
        ← List.append_assoc (t.pending ++ chunk).dropLast, ← hwhole]
      rfl
    case isFalse hhigh =>
      have hcut : Whole (t.pending ++ chunk) more := by
        rintro hi hhi lo - ⟨hhigh', -⟩
        rw [hlast] at hhi
        cases hhi
        exact hhigh hhigh'
      rw [emitted_enqueue, hpending, List.nil_append, List.append_assoc, utf8Encode_append hcut]
      rfl

lemma closed_write (chunk : JsString) : (t.write chunk).closed = t.closed := by
  simp only [write, enqueue]
  split
  · rfl
  · split <;> split <;> rfl

lemma Encodes.step {t' : EncoderStream} {op : Op} (h : t.Encodes w) (hs : t.step op = some t') :
    t'.Encodes (w ++ written [op]) := by
  cases op with
  | write chunk =>
    obtain ⟨hopen, rfl⟩ := Machine.of_not_guard hs
    simp only [Encodes, closed_write, hopen] at h ⊢
    intro more
    rw [emitted_write, List.append_assoc, h (chunk ++ more)]
    simp [written]
  | close =>
    obtain ⟨hopen, rfl⟩ := Machine.of_not_guard hs
    simp only [Encodes, hopen] at h
    have hall := h []
    rw [List.append_nil, List.append_nil] at hall
    exact emitted_enqueue.trans (hall.trans (by simp [written]))
  | read =>
    simp only [EncoderStream.step] at hs
    split at hs
    case h_1 => cases hs
    case h_2 c cs hqueue =>
      cases hs
      have hemitted : emitted ⟨t.pending, cs, t.closed, t.received ++ [c]⟩ = t.emitted := by
        simp [emitted, hqueue]
      simpa [Encodes, hemitted, written] using h

/-- However a string is cut into chunks and whenever they are read, what comes out is
its encoding. -/
theorem chunking_independent {ops : List Op} (hrun : Machine.run step {} ops = some t)
    (hclosed : t.closed = true) : (t.received ++ t.queue).flatten = utf8Encode (written ops) := by
  suffices h : ∀ (ops : List Op) (t₀ : EncoderStream) (w : JsString), t₀.Encodes w →
      Machine.run step t₀ ops = some t → t.Encodes (w ++ written ops) by
    have ht := h ops {} [] (fun more => rfl) hrun
    rw [Encodes, if_pos hclosed] at ht
    exact ht
  intro ops
  induction ops with
  | nil =>
    intro t₀ w h hrun
    cases hrun
    simpa [written] using h
  | cons op ops ih =>
    intro t₀ w h hrun
    obtain ⟨t₁, hstep, hrun⟩ := Option.bind_eq_some_iff.mp hrun
    have := ih t₁ _ (h.step hstep) hrun
    simpa [written] using this

/-- A pair cut in two, an empty chunk and a lone high surrogate before the end. -/
def cutPair : List Op :=
  [.write [0x61, 0xD83D], .read, .write [], .write [0xDE00, 0xD800], .read, .close, .read]

theorem cutPair_encoded :
    (Machine.run step {} cutPair).map received
        = some [[0x61], [0xF0, 0x9F, 0x98, 0x80], [0xEF, 0xBF, 0xBD]]
      ∧ ∀ t ∈ Machine.run step {} cutPair,
        (t.received ++ t.queue).flatten = utf8Encode [0x61, 0xD83D, 0xDE00, 0xD800] := by
  refine ⟨by decide +kernel, fun t ht => ?_⟩
  have hclosed : ∀ t ∈ Machine.run step {} cutPair, t.closed = true := by decide +kernel
  exact chunking_independent ht (hclosed t ht)

end EncoderStream

end GoSpidermonkey.Web
