import GoSpidermonkey.Web.TextDecoder

/-!
# The text decoder of a worker realm

`TextDecoder.decode` of `worker.js`, a second decoder for UTF-8. It takes as many bytes as the bits
of a first byte announce, whatever these bytes are, and stops where there are not so many left. It
agrees with the decoder of the main realm on a text and all its beginnings exactly if every sequence
that is announced is the encoding of a character or breaks off at the end of the text
(`worker_decoder_iff`).
-/

namespace GoSpidermonkey.Nodejs

open Ecma Web List

def appendBits (cp : ℕ) (bytes : Bytes) : ℕ :=
  bytes.foldl (fun cp b => cp <<< 6 ||| (b.toNat &&& 0x3f)) cp

/-- What the loop of the worker's `decode` appends: a code point, or `none` for U+FFFD. -/
def workerPieces : Bytes → List (Option ℕ)
  | [] => []
  | c :: bs =>
    if c < 0x80 then some c.toNat :: workerPieces bs
    else if c &&& 0xe0 = 0xc0 then
      match bs with
      | x :: bs => some (appendBits (c.toNat &&& 0x1f) [x]) :: workerPieces bs
      | _ => [none]
    else if c &&& 0xf0 = 0xe0 then
      match bs with
      | x :: y :: bs => some (appendBits (c.toNat &&& 0x0f) [x, y]) :: workerPieces bs
      | _ => [none]
    else if c &&& 0xf8 = 0xf0 then
      match bs with
      | x :: y :: z :: bs => some (appendBits (c.toNat &&& 0x07) [x, y, z]) :: workerPieces bs
      | _ => [none]
    else none :: workerPieces bs

/-- The worker's `decode`; `none` if `String.fromCodePoint` throws. -/
def workerDecode (bytes : Bytes) : Option JsString :=
  joinAll ((workerPieces bytes).map (emit false))

/-- A byte that announces no sequence. -/
def Stray (b : UInt8) : Prop := Utf8.Cont b ∨ 0xF8 ≤ b

instance (b : UInt8) : Decidable (Stray b) := inferInstanceAs (Decidable (_ ∨ _))

/-- Every sequence that is announced is the encoding of a character, or breaks off at the end. -/
inductive Plain : Bytes → Prop where
  | nil : Plain []
  | char (c : Char) {bs : Bytes} (h : Plain bs) : Plain (String.utf8EncodeChar c ++ bs)
  | stray {b : UInt8} {bs : Bytes} (hb : Stray b) (h : Plain bs) : Plain (b :: bs)
  | cut {p : Bytes} (hp : p ≠ []) (h : Utf8.code.Partial p) : Plain p
  | last {b : UInt8} (hb : 1 < Utf8.announced b) : Plain [b]

lemma foldl_appendBits (cp : ℕ) (q : Bytes) :
    appendBits cp q = q.foldl (fun v x => v * 64 + x.toNat % 64) cp := by
  simp only [appendBits, shiftLeft_or_and]

lemma lead_classes (l : UInt8) :
    (l < 0x80 → ¬ Stray l ∧ Utf8.announced l = 1 ∧ Utf8.leadBits l = l.toNat) ∧
      (l &&& 0xe0 = 0xc0 → ¬ Stray l ∧ Utf8.announced l = 2 ∧ Utf8.leadBits l = l.toNat &&& 0x1f) ∧
      (l &&& 0xf0 = 0xe0 → ¬ Stray l ∧ Utf8.announced l = 3 ∧ Utf8.leadBits l = l.toNat &&& 0x0f) ∧
      (l &&& 0xf8 = 0xf0 → ¬ Stray l ∧ Utf8.announced l = 4 ∧ Utf8.leadBits l = l.toNat &&& 0x07) ∧
      (¬ l < 0x80 → l &&& 0xe0 ≠ 0xc0 → l &&& 0xf0 ≠ 0xe0 → l &&& 0xf8 ≠ 0xf0 → Stray l) := by
  revert l
  decide +kernel

lemma workerPieces_cons (l : UInt8) (bs : Bytes) :
    workerPieces (l :: bs) =
      if Stray l then none :: workerPieces bs
      else if bs.length + 1 < Utf8.announced l then [none]
      else some (Utf8.value l (bs.take (Utf8.announced l - 1))) ::
        workerPieces (bs.drop (Utf8.announced l - 1)) := by
  obtain ⟨hone, htwo, hthree, hfour, hstray⟩ := lead_classes l
  have hcons := workerPieces.eq_def (l :: bs)
  dsimp only at hcons
  rw [hcons]
  by_cases h₁ : l < 0x80
  · obtain ⟨hs, hlen, hbits⟩ := hone h₁
    rw [if_pos h₁, if_neg hs, hlen, if_neg (by omega)]
    simp [Utf8.value, hbits]
  rw [if_neg h₁]
  by_cases h₂ : l &&& 0xe0 = 0xc0
  · obtain ⟨hs, hlen, hbits⟩ := htwo h₂
    rw [if_pos h₂, if_neg hs, hlen]
    obtain _ | ⟨x, bs⟩ := bs
    · rfl
    · simp [Utf8.value, foldl_appendBits, hbits]
  rw [if_neg h₂]
  by_cases h₃ : l &&& 0xf0 = 0xe0
  · obtain ⟨hs, hlen, hbits⟩ := hthree h₃
    rw [if_pos h₃, if_neg hs, hlen]
    obtain _ | ⟨x, _ | ⟨y, bs⟩⟩ := bs
    · rfl
    · rfl
    · simp [Utf8.value, foldl_appendBits, hbits]
  rw [if_neg h₃]
  by_cases h₄ : l &&& 0xf8 = 0xf0
  · obtain ⟨hs, hlen, hbits⟩ := hfour h₄
    rw [if_pos h₄, if_neg hs, hlen]
    obtain _ | ⟨x, _ | ⟨y, _ | ⟨z, bs⟩⟩⟩ := bs
    · rfl
    · rfl
    · rfl
    · simp [Utf8.value, foldl_appendBits, hbits]
  rw [if_neg h₄, if_pos (hstray h₁ h₂ h₃ h₄)]

/-! ### Plain texts are decoded alike -/

variable {b l : UInt8} {p q : Bytes}

lemma announced_table (l : UInt8) :
    0 < Utf8.announced l ∧ (1 < Utf8.announced l → ¬ Stray l) ∧
      (Utf8.Lead l → ¬ Stray l ∧ Utf8.announced l = Utf8.need l + 1) ∧
      (¬ Stray l → Utf8.announced l = 1 → Utf8.Lead l) := by
  revert l
  decide +kernel

lemma lead_announced (h : Utf8.Lead l) : ¬ Stray l ∧ Utf8.announced l = Utf8.need l + 1 :=
  (announced_table l).2.2.1 h

lemma length_encode {c : Char} (h : String.utf8EncodeChar c = l :: q) :
    Utf8.Lead l ∧ q.length + 1 = Utf8.announced l := by
  obtain ⟨⟨hlead, hlen⟩, -, -⟩ := Utf8.encode_iff.mp h
  exact ⟨hlead, by rw [(lead_announced hlead).2, hlen]⟩

lemma not_begins_of_stray (hb : Stray b) : ¬ Utf8.code.Begins [b] := by
  intro h
  exact (lead_announced (Utf8.begins_iff.mp h).1).1 hb

lemma workerPieces_char (c : Char) (bs : Bytes) :
    workerPieces (String.utf8EncodeChar c ++ bs) = some c.toNat :: workerPieces bs := by
  obtain ⟨l, q, hc⟩ := exists_cons_of_ne_nil (Utf8.encode_ne_nil c)
  obtain ⟨hlead, hlen⟩ := length_encode hc
  have hvalue := (Utf8.encode_iff.mp hc).2.2
  rw [hc, cons_append, workerPieces_cons, if_neg (lead_announced hlead).1, if_neg, ← hlen,
    Nat.add_sub_cancel, take_left, drop_left, hvalue]
  rw [length_append]
  omega

lemma workerPieces_stray (hb : Stray b) (bs : Bytes) :
    workerPieces (b :: bs) = none :: workerPieces bs := by
  rw [workerPieces_cons, if_pos hb]

lemma workerPieces_cut (h : q.length + 1 < Utf8.announced l) :
    workerPieces (l :: q) = [none] := by
  rw [workerPieces_cons, if_neg ((announced_table _).2.1 (by omega)), if_pos h]

lemma scan_char (c : Char) (bs : Bytes) :
    scan (String.utf8EncodeChar c ++ bs) = some c :: scan bs :=
  scan_eq (.word c (decodes_scan bs))

lemma scan_stray (hb : ¬ Utf8.code.Begins [b]) (bs : Bytes) :
    scan (b :: bs) = none :: scan bs :=
  scan_eq (.stray hb (decodes_scan bs))

lemma scan_broken (hp : p ≠ []) (h : Utf8.code.Partial p) : scan p = [none] := by
  have hbroken := PrefixCode.Decodes.broken hp h (fun b hb => by cases hb) .nil
  rw [append_nil] at hbroken
  exact scan_eq hbroken

lemma scan_last (hb : 1 < Utf8.announced b) : scan [b] = [none] := by
  by_cases h : Utf8.code.Begins [b]
  · rcases h.cases with hpart | ⟨c, hc⟩
    · exact scan_broken (cons_ne_nil b []) hpart
    · have hlen := (length_encode hc.symm).2
      rw [← hlen] at hb
      exact absurd hb (by simp)
  · exact scan_stray h []

lemma Plain.workerPieces_eq {b : Bytes} (h : Plain b) :
    workerPieces b = (scan b).map (Option.map Char.toNat) := by
  induction h with
  | nil => rfl
  | @char c bs _ ih =>
    rw [workerPieces_char, scan_char, ih]
    rfl
  | @stray b bs hb _ ih =>
    rw [workerPieces_stray hb, scan_stray (not_begins_of_stray hb), ih]
    rfl
  | @cut p hp hpart =>
    rw [scan_broken hp hpart]
    obtain ⟨l, q, rfl, -, hlen⟩ := Utf8.partial_unfinished hp hpart
    exact workerPieces_cut hlen
  | @last b hb =>
    rw [scan_last hb]
    exact workerPieces_cut hb

lemma Plain.workerDecode_eq {b : Bytes} (h : Plain b) : workerDecode b = utf8Decode b false := by
  rw [workerDecode, h.workerPieces_eq, utf8Decode, decodeBytes_scan]

lemma plain_of_beginning (h : Utf8.code.Partial q) (hp : p <+: q) : Plain p := by
  by_cases hnil : p = []
  · exact hnil ▸ .nil
  · obtain ⟨c, b, t, hc⟩ := h
    obtain ⟨r, rfl⟩ := hp
    refine .cut hnil ?_
    cases r with
    | nil => exact ⟨c, b, t, by rw [hc, append_nil]⟩
    | cons x r => exact ⟨c, x, r ++ b :: t, by rw [hc]; simp⟩

lemma Plain.of_beginning {b : Bytes} (h : Plain b) (hp : p <+: b) : Plain p := by
  induction h generalizing p with
  | nil => exact prefix_nil.mp hp ▸ .nil
  | @char c bs _ ih =>
    rcases prefix_or_prefix_of_prefix hp (prefix_append _ bs) with hshort | ⟨r, rfl⟩
    · obtain ⟨r, hr⟩ := hshort
      cases r with
      | nil =>
        rw [append_nil] at hr
        have hplain := Plain.char c .nil
        rw [append_nil] at hplain
        exact hr ▸ hplain
      | cons x r => exact plain_of_beginning ⟨c, x, r, hr.symm⟩ (prefix_refl p)
    · exact .char c (ih ((prefix_append_right_inj _).mp hp))
  | @stray b bs hb _ ih =>
    cases p with
    | nil => exact .nil
    | cons x p =>
      obtain ⟨rfl, hrest⟩ := cons_prefix_cons.mp hp
      exact .stray hb (ih hrest)
  | cut _ hpart => exact plain_of_beginning hpart hp
  | @last b hb =>
    cases p with
    | nil => exact .nil
    | cons x p =>
      obtain ⟨rfl, hrest⟩ := cons_prefix_cons.mp hp
      rw [prefix_nil.mp hrest]
      exact .last hb

/-! ### Texts decoded alike with all their beginnings are plain -/

/-- Both decoders give the same string for a text and its beginnings. -/
def Alike (b : Bytes) : Prop := ∀ p, p <+: b → workerDecode p = utf8Decode p false

lemma utf8Decode_scan (b : Bytes) : utf8Decode b false = some (textOf (scan b)) := by
  rw [utf8Decode_eq, if_neg]
  simp

lemma textOf_cons (o : Option Char) (os : List (Option Char)) :
    textOf (o :: os) = encodeCodePoint (o.getD replacement).toNat ++ textOf os := by
  rw [textOf, map_cons, utf16_cons]
  rfl

lemma textOf_none (os : List (Option Char)) : textOf (none :: os) = 0xFFFD :: textOf os :=
  textOf_cons none os

lemma encodeCodePoint_ne_nil (cp : ℕ) : encodeCodePoint cp ≠ [] := by
  unfold encodeCodePoint
  split_ifs <;> simp

lemma textOf_scan_eq_nil {b : Bytes} (h : textOf (scan b) = []) : b = [] := by
  have hscan : scan b = [] := by
    cases hos : scan b with
    | nil => rfl
    | cons o os =>
      rw [hos, textOf_cons] at h
      exact absurd (append_eq_nil_iff.mp h).1 (encodeCodePoint_ne_nil _)
  have hdecodes := decodes_scan b
  rw [hscan] at hdecodes
  cases hdecodes
  rfl

lemma fromCodePoint_ne {cp : ℕ} {s : JsString} (hs : s ≠ []) :
    fromCodePoint cp ≠ some (0xFFFD :: s) := by
  intro h
  unfold fromCodePoint at h
  split at h
  case isFalse => cases h
  case isTrue hle =>
    have heq := Option.some.inj h
    unfold encodeCodePoint at heq
    split at heq
    case isTrue => exact hs (List.cons.inj heq).2.symm
    case isFalse hbig =>
      have hhi := congrArg UInt16.toNat (List.cons.inj heq).1
      simp at hhi
      omega

lemma workerDecode_char (c : Char) (bs : Bytes) :
    workerDecode (String.utf8EncodeChar c ++ bs) =
      (workerDecode bs).map (encodeCodePoint c.toNat ++ ·) := by
  have hc : emit false (some c.toNat) = some (encodeCodePoint c.toNat) := by
    rw [emit, fromCodePoint, if_pos]
    have hvalid := Utf8.char_valid c
    omega
  rw [workerDecode, workerPieces_char, map_cons, joinAll, hc]
  rfl

lemma workerDecode_stray (hb : Stray b) (bs : Bytes) :
    workerDecode (b :: bs) = (workerDecode bs).map (0xFFFD :: ·) := by
  rw [workerDecode, workerPieces_stray hb]
  rfl

lemma Alike.of_append {u r : Bytes} {s : JsString} (h : Alike (u ++ r))
    (hw : ∀ p, workerDecode (u ++ p) = (workerDecode p).map (s ++ ·))
    (hd : ∀ p, utf8Decode (u ++ p) false = (utf8Decode p false).map (s ++ ·)) : Alike r := by
  intro p hp
  have hup := h (u ++ p) ((prefix_append_right_inj u).mpr hp)
  rw [hw, hd] at hup
  exact Option.map_injective (append_right_injective s) hup

/-- What the decoder of the main realm makes of a sequence that is not longer than announced. -/
lemma scan_sequence (l : UInt8) (q : Bytes) :
    (∃ c q' r, String.utf8EncodeChar c = l :: q' ∧ q = q' ++ r) ∨
      ∃ p r, l :: q = p ++ r ∧ scan (l :: q) = none :: scan r ∧
        (p = [l] ∨ p ≠ [] ∧ Utf8.code.Partial p) := by
  have hdecodes := decodes_scan (l :: q)
  generalize hb : l :: q = b at hdecodes ⊢
  generalize scan b = os at hdecodes ⊢
  cases hdecodes with
  | nil => cases hb
  | @word c bs _ _ =>
    obtain ⟨l', q', hl'⟩ := exists_cons_of_ne_nil (Utf8.encode_ne_nil c)
    rw [show Utf8.code.word c = l' :: q' from hl', cons_append] at hb
    obtain ⟨rfl, rfl⟩ := List.cons.inj hb
    exact .inl ⟨c, q', bs, hl', rfl⟩
  | @stray x bs _ _ h =>
    obtain ⟨rfl, rfl⟩ := List.cons.inj hb
    exact .inr ⟨[l], q, rfl, by rw [scan_eq h], .inl rfl⟩
  | @broken p bs _ hp hpart _ h => exact .inr ⟨p, bs, rfl, by rw [scan_eq h], .inr ⟨hp, hpart⟩⟩

lemma encode_of_alike (hs : ¬ Stray l)
    (hlen : q.length + 1 = Utf8.announced l)
    (h : workerDecode (l :: q) = utf8Decode (l :: q) false) :
    ∃ c, l :: q = String.utf8EncodeChar c := by
  have hworker : workerDecode (l :: q) = fromCodePoint (Utf8.value l q) := by
    rw [workerDecode, workerPieces_cons, if_neg hs, if_neg (by omega), ← hlen, Nat.add_sub_cancel,
      take_length, drop_length]
    cases hcp : fromCodePoint (Utf8.value l q) <;> simp [workerPieces, joinAll, emit, hcp]
  rw [hworker, utf8Decode_scan] at h
  rcases scan_sequence l q with ⟨c, q', r, hc, rfl⟩ | ⟨p, r, hb, hscan, hp⟩
  · have hlen' := (length_encode hc).2
    rw [length_append] at hlen
    have hr : r = [] := eq_nil_of_length_eq_zero (by omega)
    exact ⟨c, by rw [hc, hr, append_nil]⟩
  · -- nothing is left after the error, so the sequence is the part that is no encoding
    rw [hscan, textOf_none] at h
    have hr : r = [] := by
      by_contra hr
      exact fromCodePoint_ne (fun hnil => hr (textOf_scan_eq_nil hnil)) h
    rw [hr, append_nil] at hb
    rcases hp with rfl | ⟨hne, hpart⟩
    · obtain ⟨-, rfl⟩ := List.cons.inj hb
      have hlead := (announced_table _).2.2.2 hs hlen.symm
      have hneed : ([] : Bytes).length = Utf8.need l := by
        have hann := (lead_announced hlead).2
        rw [length_nil] at hlen ⊢
        omega
      obtain ⟨c, hc⟩ := Utf8.exists_encode ⟨hlead, hneed⟩ (Utf8.follows_nil l)
      exact ⟨c, hc.symm⟩
    · obtain ⟨l', q', hl', -, hlt⟩ := Utf8.partial_unfinished hne hpart
      rw [← hb] at hl'
      obtain ⟨rfl, rfl⟩ := List.cons.inj hl'
      omega

lemma plain_of_short (hlen : q.length + 1 < Utf8.announced l)
    (h : workerDecode (l :: q) = utf8Decode (l :: q) false) : Plain (l :: q) := by
  have hworker : workerDecode (l :: q) = some [0xFFFD] := by
    rw [workerDecode, workerPieces_cut hlen]
    rfl
  rw [hworker, utf8Decode_scan] at h
  rcases scan_sequence l q with ⟨c, q', r, hc, rfl⟩ | ⟨p, r, hb, hscan, hp⟩
  · have hlen' := (length_encode hc).2
    rw [length_append] at hlen
    omega
  · rw [hscan, textOf_none] at h
    have hr : r = [] := textOf_scan_eq_nil (List.cons.inj (Option.some.inj h)).2.symm
    rw [hr, append_nil] at hb
    rcases hp with rfl | ⟨hne, hpart⟩
    · rw [hb]
      exact .last (by omega)
    · exact hb ▸ .cut hne hpart

lemma Alike.plain {b : Bytes} (h : Alike b) : Plain b := by
  -- the text gets shorter with every character or stray that both decoders read
  induction hn : b.length using Nat.strong_induction_on generalizing b with
  | _ n ih =>
    cases b with
    | nil => exact .nil
    | cons l bs =>
      by_cases hs : Stray l
      · refine .stray hs (ih bs.length ?_ ?_ rfl)
        · rw [← hn, length_cons]
          exact Nat.lt_succ_self _
        · refine Alike.of_append (u := [l]) (s := [0xFFFD]) h (workerDecode_stray hs) ?_
          intro p
          rw [utf8Decode_scan, utf8Decode_scan, singleton_append,
            scan_stray (not_begins_of_stray hs), textOf_none]
          rfl
      by_cases hlen : bs.length + 1 < Utf8.announced l
      · exact plain_of_short hlen (h _ (prefix_refl _))
      set q := bs.take (Utf8.announced l - 1) with hq
      set r := bs.drop (Utf8.announced l - 1) with hr
      have hb : l :: bs = l :: q ++ r := by rw [hq, hr, cons_append, take_append_drop]
      have hqlen : q.length + 1 = Utf8.announced l := by
        have hpos := (announced_table l).1
        rw [hq, length_take]
        omega
      obtain ⟨c, hc⟩ := encode_of_alike hs hqlen (h _ (hb ▸ prefix_append _ r))
      rw [hb, hc] at h ⊢
      refine .char c (ih r.length ?_ ?_ rfl)
      · rw [← hn, hb, length_append, length_cons]
        omega
      · refine h.of_append (workerDecode_char c) fun p => ?_
        rw [utf8Decode_scan, utf8Decode_scan, scan_char, textOf_cons]
        rfl

/-- The decoders agree on a text and its beginnings exactly if the text is plain. -/
theorem worker_decoder_iff (b : Bytes) :
    Plain b ↔ ∀ p, p <+: b → workerDecode p = utf8Decode p false := by
  constructor
  · intro h p hp
    exact (h.of_beginning hp).workerDecode_eq
  · exact Alike.plain

-- Agreement on one text alone says less: here the errors of one decoder happen to spell the
-- characters of the other, and the beginning of four bytes is decoded differently.
example :
    workerDecode [0xF0, 0x4F, 0xBF, 0xBD, 0xC1, 0xCF, 0xAF, 0x80, 0x80, 0xCF, 0xEF, 0xBF,
        0xAF, 0x80, 0xEF, 0xBF, 0xEF, 0xBF, 0xAF, 0xEF, 0xBF, 0xEF, 0xBF, 0xBD] =
      utf8Decode [0xF0, 0x4F, 0xBF, 0xBD, 0xC1, 0xCF, 0xAF, 0x80, 0x80, 0xCF, 0xEF, 0xBF,
        0xAF, 0x80, 0xEF, 0xBF, 0xEF, 0xBF, 0xAF, 0xEF, 0xBF, 0xEF, 0xBF, 0xBD] false ∧
    workerDecode [0xF0, 0x4F, 0xBF, 0xBD] ≠ utf8Decode [0xF0, 0x4F, 0xBF, 0xBD] false := by
  decide +kernel

/-- An overlong sequence, a broken one, and one beyond U+10FFFF. -/
theorem worker_decoder_differs :
    workerDecode [0xC0, 0x80] = some [0] ∧ utf8Decode [0xC0, 0x80] false = some [0xFFFD, 0xFFFD] ∧
      workerDecode [0xC3, 0x41] = some [0xC1] ∧
      utf8Decode [0xC3, 0x41] false = some [0xFFFD, 0x41] ∧
      workerDecode [0xF7, 0xBF, 0xBF, 0xBF] = none ∧
      utf8Decode [0xF7, 0xBF, 0xBF, 0xBF] false = some [0xFFFD, 0xFFFD, 0xFFFD, 0xFFFD] := by
  decide

end GoSpidermonkey.Nodejs
