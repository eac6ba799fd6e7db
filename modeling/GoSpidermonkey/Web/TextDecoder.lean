import GoSpidermonkey.Lib.Utf8Stream
import GoSpidermonkey.Web.TextCodec

/-!
# TextDecoder

The methods of `TextDecoder`. With the option `stream`, a call holds back the bytes at the end of
its input that may be part of a character; they are put in front of the input of the next call. The
byte order mark is dropped at the beginning of the input of every call, and not only at the
beginning of the stream: this is where the result of a stream depends on its chunks
(`textDecoder_chunking_iff`).
-/

namespace GoSpidermonkey.Web

open Ecma List

inductive DecoderEncoding where
  | utf8
  | win1252
  | utf16le
  deriving DecidableEq

structure TextDecoder where
  enc : DecoderEncoding
  fatal : Bool
  ignoreBOM : Bool
  /-- `_pending`, where no bytes stand for `null` too. -/
  pending : Bytes := []

def WIN1252_80_9F : List UInt16 :=
  [0x20AC, 0x81, 0x201A, 0x0192, 0x201E, 0x2026, 0x2020, 0x2021, 0x02C6, 0x2030, 0x0160, 0x2039,
    0x0152, 0x8D, 0x017D, 0x8F, 0x90, 0x2018, 0x2019, 0x201C, 0x201D, 0x2022, 0x2013,
    0x2014, 0x02DC, 0x2122, 0x0161, 0x203A, 0x0153, 0x9D, 0x017E, 0x0178]

def win1252Unit (b : UInt8) : UInt16 :=
  if 0x80 ≤ b ∧ b ≤ 0x9F then WIN1252_80_9F.getD (b - 0x80).toNat 0 else b.toUInt16

def utf16leUnits : Bytes → JsString
  | b₀ :: b₁ :: bs => (b₀.toUInt16 ||| b₁.toUInt16 <<< 8) :: utf16leUnits bs
  | _ => []

/-- How many continuation bytes `incompleteUtf8Tail` skips, and the bytes from where it stops. -/
def skipCont : ℕ → Bytes → ℕ × Bytes
  | cont, [] => (cont, [])
  | cont, b :: bs =>
    if b &&& 0xc0 = 0x80 ∧ cont < 3 then skipCont (cont + 1) bs else (cont, b :: bs)

def sequenceLength (lead : UInt8) : Option ℕ :=
  if lead < 0x80 then some 1
  else if lead &&& 0xe0 = 0xc0 then some 2
  else if lead &&& 0xf0 = 0xe0 then some 3
  else if lead &&& 0xf8 = 0xf0 then some 4
  else none

def incompleteUtf8Tail (bytes : Bytes) : ℕ :=
  match skipCont 0 bytes.reverse with
  | (_, []) => 0
  | (cont, lead :: _) =>
    match sequenceLength lead with
    | none => 0
    | some need => if cont + 1 < need then cont + 1 else 0

def utf8BOM : Bytes := [0xef, 0xbb, 0xbf]

def utf16leBOM : Bytes := [0xff, 0xfe]

def dropBOM (ignoreBOM : Bool) (bom bytes : Bytes) : Bytes :=
  if ignoreBOM then bytes else Chunks.strip bom bytes

namespace TextDecoder

variable (t : TextDecoder)

/-- `decode`, with `none` if it throws; an input that is undefined is empty. -/
def decode (input : Bytes) (stream : Bool) : Option JsString × TextDecoder :=
  let bytes := t.pending ++ input
  match t.enc with
  | .win1252 => (some (bytes.map win1252Unit), { t with pending := [] })
  | .utf16le =>
    let keep := if stream ∧ bytes.length % 2 = 1 then 1 else 0
    let ready := bytes.take (bytes.length - keep)
    (some (utf16leUnits (dropBOM t.ignoreBOM utf16leBOM ready)),
      { t with pending := bytes.drop (bytes.length - keep) })
  | .utf8 =>
    let bytes := dropBOM t.ignoreBOM utf8BOM bytes
    let keep := if stream then incompleteUtf8Tail bytes else 0
    (utf8Decode (bytes.take (bytes.length - keep)) t.fatal,
      { t with pending := bytes.drop (bytes.length - keep) })

/-- The text of a stream: calls for the chunks and a last one without input. -/
def stream : TextDecoder → List Bytes → Option JsString
  | t, [] => (t.decode [] false).1
  | t, c :: cs =>
    (t.decode c true).1.bind fun out => (stream (t.decode c true).2 cs).map (out ++ ·)

end TextDecoder

/-! ### What is held back -/

lemma and_c0_iff (b : UInt8) : b &&& 0xc0 = 0x80 ↔ Utf8.Cont b := by
  revert b
  decide +kernel

lemma skipCont_spec (cont : ℕ) (bs : Bytes) :
    ∃ q r, bs = q ++ r ∧ skipCont cont bs = (cont + q.length, r) ∧ (∀ x ∈ q, Utf8.Cont x) ∧
      (r = [] ∨ (∃ l r', r = l :: r' ∧ ¬ Utf8.Cont l) ∨ 3 ≤ cont + q.length) := by
  induction bs generalizing cont with
  | nil => exact ⟨[], [], rfl, rfl, by simp, .inl rfl⟩
  | cons b bs ih =>
    rw [skipCont]
    split_ifs with h
    · obtain ⟨q, r, rfl, heq, hq, hr⟩ := ih (cont + 1)
      refine ⟨b :: q, r, rfl, ?_, ?_, ?_⟩
      · rw [heq, length_cons]
        congr 1
        omega
      · exact forall_mem_cons.mpr ⟨(and_c0_iff b).mp h.1, hq⟩
      · rw [length_cons]
        exact hr.imp_right fun h => h.imp_right fun h => by omega
    · refine ⟨[], b :: bs, rfl, rfl, by simp, .inr ?_⟩
      by_cases hb : Utf8.Cont b
      · exact .inr (by_contra fun hlt => h ⟨(and_c0_iff b).mpr hb, by simpa using hlt⟩)
      · exact .inl ⟨b, bs, rfl, hb⟩

lemma sequenceLength_cases (lead : UInt8) :
    sequenceLength lead = none ∧ Utf8.announced lead = 1 ∨
      sequenceLength lead = some (Utf8.announced lead) := by
  revert lead
  decide +kernel

lemma incompleteUtf8Tail_holdsBack : Utf8.HoldsBack incompleteUtf8Tail := by
  intro d
  obtain ⟨q, r, hrev, hskip, hq, hr⟩ := skipCont_spec 0 d.reverse
  have hd : d = r.reverse ++ q.reverse := by
    rw [← reverse_append, ← hrev, reverse_reverse]
  have hq' : ∀ x ∈ q.reverse, Utf8.Cont x := fun x hx => hq x (mem_reverse.mp hx)
  rw [Nat.zero_add] at hskip hr
  cases r with
  | nil =>
    have hkeep : incompleteUtf8Tail d = 0 := by rw [incompleteUtf8Tail, hskip]
    rw [(Chunks.rest_eq (append_nil d).symm hkeep).2]
    exact Utf8.tail_of_conts fun x hx => hq' x (by simpa [hd] using hx)
  | cons l r =>
    have hkeep : incompleteUtf8Tail d
        = if q.length + 1 < Utf8.announced l then q.length + 1 else 0 := by
      rw [incompleteUtf8Tail, hskip]
      rcases sequenceLength_cases l with ⟨hl, hone⟩ | hl
      · simp only [hl, hone]
        exact (if_neg (by omega)).symm
      · simp only [hl]
    rw [reverse_cons, append_assoc, singleton_append] at hd
    by_cases hl : Utf8.Cont l
    · have hthree : 3 ≤ q.length := by
        rcases hr with hr | ⟨l', r', hr, hl'⟩ | hr
        · cases hr
        · cases hr
          exact absurd hl hl'
        · exact hr
      have hle := (Utf8.announced_spec l).1
      rw [if_neg (by omega)] at hkeep
      rw [(Chunks.rest_eq (append_nil d).symm hkeep).2, hd, ← singleton_append,
        ← append_assoc]
      exact Utf8.tail_of_three _ hq' (by simpa using hthree)
    · have htail := Utf8.tail_of_lead r.reverse hl hq'
      rw [length_reverse] at htail
      split_ifs at hkeep htail
      · rw [(Chunks.rest_eq hd (by rw [hkeep, length_cons, length_reverse])).2, hd]
        exact htail
      · rw [(Chunks.rest_eq (append_nil d).symm hkeep).2, hd]
        exact htail

/-! ### Texts in parts -/

namespace DecoderEncoding

/-- How many bytes a call with the option `stream` holds back. -/
def keep : DecoderEncoding → Bytes → ℕ
  | .utf8 => incompleteUtf8Tail
  | .win1252 => fun _ => 0
  | .utf16le => Chunks.keepMod 2

def bom : DecoderEncoding → Option Bytes
  | .utf8 => some utf8BOM
  | .win1252 => none
  | .utf16le => some utf16leBOM

def text : DecoderEncoding → Bytes → JsString
  | .utf8, b => textOf (scan b)
  | .win1252, b => b.map win1252Unit
  | .utf16le, b => utf16leUnits b

end DecoderEncoding

lemma scan_cut {keep : Bytes → ℕ} (h : Utf8.HoldsBack keep) : Chunks.Cuts keep scan := by
  intro d r
  apply scan_eq
  have happend := (decodes_scan (Chunks.ready keep d)).append
    (fun p b hp hs hb => h.not_begins hp hs hb) (decodes_scan (Chunks.rest keep d ++ r))
  rwa [← append_assoc, Chunks.ready_append_rest] at happend

lemma utf16leUnits_append {a : Bytes} (b : Bytes) (h : 2 ∣ a.length) :
    utf16leUnits (a ++ b) = utf16leUnits a ++ utf16leUnits b := by
  induction a using utf16leUnits.induct with
  | case1 b₀ b₁ a ih =>
    have h' : 2 ∣ a.length := by
      simp only [length_cons] at h
      omega
    simp [utf16leUnits, ih h']
  | case2 a ha =>
    cases a with
    | nil => rfl
    | cons b₀ a =>
      cases a with
      | nil =>
        rw [length_singleton] at h
        omega
      | cons b₁ a => exact absurd rfl (ha b₀ b₁ a)

namespace DecoderEncoding

lemma cuts (enc : DecoderEncoding) : Chunks.Cuts enc.keep enc.text := by
  cases enc with
  | utf8 =>
    intro d r
    show textOf (scan (d ++ r)) = _
    rw [scan_cut incompleteUtf8Tail_holdsBack d r, textOf_append]
    rfl
  | win1252 =>
    intro d r
    simp [keep, text, Chunks.ready, Chunks.rest]
  | utf16le => exact Chunks.cuts_keepMod fun a b h => utf16leUnits_append b h

lemma stable (enc : DecoderEncoding) : Chunks.Stable enc.keep := by
  cases enc with
  | utf8 => exact incompleteUtf8Tail_holdsBack.stable
  | win1252 => exact ⟨rfl, fun d c => by simp [keep, Chunks.rest]⟩
  | utf16le => exact Chunks.stable_keepMod 2

lemma text_nil (enc : DecoderEncoding) : enc.text [] = [] := by
  cases enc <;> rfl

lemma word_bom : Utf8.code.word '\uFEFF' = utf8BOM := by
  decide

lemma scan_bom (r : Bytes) : scan (utf8BOM ++ r) = some '\uFEFF' :: scan r := by
  rw [← word_bom]
  exact scan_eq (.word _ (decodes_scan r))

variable {enc : DecoderEncoding} {bom : Bytes}

lemma text_bom (h : enc.bom = some bom) (r : Bytes) :
    enc.text (bom ++ r) = [0xFEFF] ++ enc.text r := by
  cases enc with
  | utf8 =>
    cases h
    show textOf (scan (utf8BOM ++ r)) = _
    rw [scan_bom]
    rfl
  | win1252 => cases h
  | utf16le =>
    cases h
    rfl

lemma bom_ne_nil (h : enc.bom = some bom) : bom ≠ [] := by
  cases enc <;> cases h <;> decide

lemma bom_ready (h : enc.bom = some bom) (d r : Bytes)
    (hready : Chunks.ready enc.keep d ≠ []) (hbom : bom <+: d ++ r) :
    bom <+: Chunks.ready enc.keep d := by
  cases enc with
  | utf8 =>
    cases h
    rw [← word_bom] at hbom ⊢
    exact incompleteUtf8Tail_holdsBack.word_ready hready hbom
  | win1252 => cases h
  | utf16le =>
    cases h
    have htake : Chunks.ready (Chunks.keepMod 2) d <+: d := take_prefix _ _
    refine prefix_of_prefix_length_le hbom (htake.trans (prefix_append _ _)) ?_
    have hpos := length_pos_of_ne_nil hready
    have heven := Chunks.dvd_length_ready_keepMod 2 d
    exact Nat.le_of_dvd hpos heven

lemma seamed (h : enc.bom = some bom) (held : Bytes)
    (cs : List Bytes) : Chunks.Seamed bom enc.text (Chunks.parts enc.keep held cs) :=
  Chunks.seamed_parts enc.cuts (bom_ready h) enc.text_nil held cs

end DecoderEncoding

namespace TextDecoder

variable (t : TextDecoder)

/-- One call without the option `stream`, with nothing held back before. -/
def decodeAll (bytes : Bytes) : Option JsString := ({ t with pending := [] }.decode bytes false).1

def dropped (bytes : Bytes) : Bytes := t.enc.bom.elim bytes fun bom => dropBOM t.ignoreBOM bom bytes

/-- The bytes have an error, and errors throw. -/
def Throws (bytes : Bytes) : Prop := t.enc = .utf8 ∧ t.fatal ∧ none ∈ scan bytes

instance (bytes : Bytes) : Decidable (t.Throws bytes) := inferInstanceAs (Decidable (_ ∧ _ ∧ _))

variable (fatal ignoreBOM : Bool) (pending bytes : Bytes)

lemma decodeAll_win1252 :
    decodeAll ⟨.win1252, fatal, ignoreBOM, pending⟩ bytes = some (bytes.map win1252Unit) := rfl

lemma decodeAll_utf16le :
    decodeAll ⟨.utf16le, fatal, ignoreBOM, pending⟩ bytes =
      some (utf16leUnits (dropBOM ignoreBOM utf16leBOM bytes)) := by
  simp [decodeAll, decode]

lemma decodeAll_utf8 :
    decodeAll ⟨.utf8, fatal, ignoreBOM, pending⟩ bytes =
      utf8Decode (dropBOM ignoreBOM utf8BOM bytes) fatal := by
  simp [decodeAll, decode]

lemma decode_flush : (t.decode [] false).1 = t.decodeAll t.pending := by
  simp only [decodeAll, decode, append_nil, nil_append]

lemma scan_dropBOM : none ∈ scan (dropBOM ignoreBOM utf8BOM bytes) ↔ none ∈ scan bytes := by
  rw [dropBOM]
  split_ifs
  · rfl
  · rw [Chunks.strip]
    split_ifs with hbom
    · obtain ⟨r, rfl⟩ := hbom
      rw [drop_left, DecoderEncoding.scan_bom]
      simp
    · rfl

lemma decodeAll_eq :
    t.decodeAll bytes = if t.Throws bytes then none else some (t.enc.text (t.dropped bytes)) := by
  obtain ⟨enc, fatal, ignoreBOM, pending⟩ := t
  cases enc with
  | utf8 =>
    rw [decodeAll_utf8, utf8Decode_eq]
    simp only [scan_dropBOM, Throws, true_and]
    rfl
  | win1252 =>
    rw [if_neg (fun h => nomatch h.1)]
    rfl
  | utf16le =>
    rw [if_neg (fun h => nomatch h.1), decodeAll_utf16le]
    rfl

lemma ready_dropBOM :
    Chunks.ready incompleteUtf8Tail (dropBOM ignoreBOM utf8BOM bytes) =
        dropBOM ignoreBOM utf8BOM (Chunks.ready incompleteUtf8Tail bytes) ∧
      Chunks.rest incompleteUtf8Tail (dropBOM ignoreBOM utf8BOM bytes) =
        Chunks.rest incompleteUtf8Tail bytes := by
  rw [dropBOM, dropBOM]
  split_ifs
  · exact ⟨rfl, rfl⟩
  · by_cases hbom : utf8BOM <+: bytes
    · obtain ⟨r, rfl⟩ := hbom
      obtain ⟨hready, hrest⟩ := incompleteUtf8Tail_holdsBack.append_word '\uFEFF' r
      rw [DecoderEncoding.word_bom] at hready hrest
      rw [Chunks.strip_append, hready, hrest, Chunks.strip_append]
      exact ⟨rfl, rfl⟩
    · have htake : Chunks.ready incompleteUtf8Tail bytes <+: bytes := take_prefix _ _
      have hready : ¬ utf8BOM <+: Chunks.ready incompleteUtf8Tail bytes := fun h =>
        hbom (h.trans htake)
      rw [Chunks.strip, Chunks.strip, if_neg hbom, if_neg hready]
      exact ⟨rfl, rfl⟩

/-- A call with the option `stream` decodes a part and holds back the rest. -/
lemma decode_stream (c : Bytes) :
    t.decode c true =
      (t.decodeAll (Chunks.ready t.enc.keep (t.pending ++ c)),
        { t with pending := Chunks.rest t.enc.keep (t.pending ++ c) }) := by
  obtain ⟨enc, fatal, ignoreBOM, pending⟩ := t
  cases enc with
  | utf8 =>
    obtain ⟨hready, hrest⟩ := ready_dropBOM ignoreBOM (pending ++ c)
    simp only [DecoderEncoding.keep, decodeAll_utf8, ← hready, ← hrest]
    rfl
  | win1252 =>
    simp [decode, decodeAll_win1252, DecoderEncoding.keep, Chunks.ready, Chunks.rest]
  | utf16le =>
    have hkeep : ∀ d : Bytes, (if d.length % 2 = 1 then 1 else 0) = Chunks.keepMod 2 d := by
      intro d
      unfold Chunks.keepMod
      split_ifs <;> omega
    simp only [decode, true_and, hkeep, decodeAll_utf16le]
    rfl

lemma stream_eq (cs : List Bytes) :
    t.stream cs = joinAll ((Chunks.parts t.enc.keep t.pending cs).map t.decodeAll) := by
  induction cs generalizing t with
  | nil =>
    rw [stream, decode_flush, Chunks.parts_nil, map_singleton]
    generalize t.decodeAll t.pending = r
    cases r <;> simp [joinAll]
  | cons c cs ih =>
    rw [stream, decode_stream, ih]
    rfl

/-- A stream throws if the bytes have an error, and gives the texts of its parts otherwise. -/
lemma stream_eq_ite (cs : List Bytes) (hpending : t.pending = []) :
    t.stream cs = if t.Throws cs.flatten then none
      else some ((Chunks.parts t.enc.keep [] cs).flatMap fun p => t.enc.text (t.dropped p)) := by
  have hmap : t.decodeAll = fun p => if t.Throws p then none else some (t.enc.text (t.dropped p)) :=
    funext (decodeAll_eq t)
  have hthrows : (∃ p ∈ Chunks.parts t.enc.keep [] cs, t.Throws p) ↔ t.Throws cs.flatten := by
    by_cases henc : t.enc = .utf8
    · have hscan := Chunks.flatMap_parts (scan_cut incompleteUtf8Tail_holdsBack) [] cs
      rw [nil_append] at hscan
      simp only [Throws, henc, ← hscan, mem_flatMap, DecoderEncoding.keep, true_and]
      exact ⟨fun ⟨p, hp, hfatal, hnone⟩ => ⟨hfatal, p, hp, hnone⟩,
        fun ⟨hfatal, p, hp, hnone⟩ => ⟨p, hp, hfatal, hnone⟩⟩
    · exact iff_of_false (fun ⟨_, _, hp⟩ => henc hp.1) (fun h => henc h.1)
  rw [stream_eq, hmap, joinAll_map, hpending]
  simp only [hthrows]

end TextDecoder

/-! ### Chunks -/

/-- The bytes are cut into those of whole characters and the ones that may belong to the next. -/
def HeldBack : DecoderEncoding → Bytes → Bytes → Prop
  | .utf8, front, held => Utf8.Tail (front ++ held) held
  | .win1252, _, held => held = []
  | .utf16le, front, held => 2 ∣ front.length ∧ held.length ≤ 1

/-- Between two chunks there is a byte order mark after the characters decoded so far. -/
def LateBOM (enc : DecoderEncoding) (chunks : List Bytes) : Prop :=
  ∃ cs cs' front held, chunks = cs ++ cs' ∧ cs.flatten = front ++ held ∧ HeldBack enc front held ∧
    front ≠ [] ∧ ∃ bom, enc.bom = some bom ∧ bom <+: held ++ cs'.flatten

lemma heldBack_iff {enc : DecoderEncoding} {front held : Bytes} :
    HeldBack enc front held ↔
      Chunks.ready enc.keep (front ++ held) = front ∧
        Chunks.rest enc.keep (front ++ held) = held := by
  constructor
  · intro h
    suffices hrest : Chunks.rest enc.keep (front ++ held) = held by
      have hsplit := Chunks.ready_append_rest enc.keep (front ++ held)
      rw [hrest] at hsplit
      exact ⟨append_cancel_right hsplit, hrest⟩
    cases enc with
    | utf8 => exact (incompleteUtf8Tail_holdsBack _).unique h
    | win1252 =>
      obtain rfl : held = [] := h
      simp [DecoderEncoding.keep, Chunks.rest]
    | utf16le =>
      refine (Chunks.rest_eq rfl ?_).2
      obtain ⟨⟨n, hn⟩, hheld⟩ := h
      rw [DecoderEncoding.keep, Chunks.keepMod, length_append, hn]
      omega
  · rintro ⟨hready, hrest⟩
    cases enc with
    | utf8 =>
      have htail := incompleteUtf8Tail_holdsBack (front ++ held)
      rwa [show Chunks.rest incompleteUtf8Tail (front ++ held) = held from hrest] at htail
    | win1252 =>
      rw [← hrest]
      simp [HeldBack, DecoderEncoding.keep, Chunks.rest]
    | utf16le =>
      have hdvd := Chunks.dvd_length_ready_keepMod 2 (front ++ held)
      have hlen := Chunks.length_rest_keepMod 2 (front ++ held)
      rw [show Chunks.ready (Chunks.keepMod 2) (front ++ held) = front from hready] at hdvd
      rw [show Chunks.rest (Chunks.keepMod 2) (front ++ held) = held from hrest] at hlen
      exact ⟨hdvd, by omega⟩

lemma not_lateBOM_iff {enc : DecoderEncoding} {bom : Bytes} (h : enc.bom = some bom)
    (chunks : List Bytes) :
    ¬ LateBOM enc chunks ↔ Chunks.NoLateMark bom (Chunks.parts enc.keep [] chunks) := by
  rw [Chunks.noLateMark_parts_iff enc.stable (DecoderEncoding.bom_ne_nil h)
    (DecoderEncoding.seamed h)]
  constructor
  · intro hno cs cs' hchunks hbom
    by_contra hne
    have hsplit := Chunks.ready_append_rest enc.keep cs.flatten
    refine hno ⟨cs, cs', _, _, hchunks, hsplit.symm, heldBack_iff.mpr ?_, hne, bom, h, hbom⟩
    rw [hsplit]
    exact ⟨rfl, rfl⟩
  · rintro hall ⟨cs, cs', front, held, hchunks, hflatten, hheld, hne, bom', hbom', hmark⟩
    obtain rfl : bom = bom' := Option.some.inj (h.symm.trans hbom')
    obtain ⟨hready, hrest⟩ := heldBack_iff.mp hheld
    rw [← hflatten] at hready hrest
    exact hne (hready.symm.trans (hall cs cs' hchunks (by rwa [hrest])))

/-- In fatal mode a stream throws exactly if one call for all bytes throws; its text is that of one
call unless a byte order mark after the beginning starts a part. -/
theorem textDecoder_chunking_iff (enc : DecoderEncoding) (fatal ignoreBOM : Bool)
    (chunks : List Bytes) :
    let t : TextDecoder := { enc, fatal, ignoreBOM }
    (t.stream chunks = none ↔ (t.decode chunks.flatten false).1 = none) ∧
      (t.stream chunks = (t.decode chunks.flatten false).1 ↔
        (t.decode chunks.flatten false).1 = none ∨ ignoreBOM ∨ ¬ LateBOM enc chunks) := by
  intro t
  have hone : (t.decode chunks.flatten false).1 = t.decodeAll chunks.flatten := rfl
  rw [hone, t.stream_eq_ite chunks rfl, t.decodeAll_eq]
  by_cases hthrows : t.Throws chunks.flatten
  · rw [if_pos hthrows, if_pos hthrows]
    exact ⟨Iff.rfl, iff_of_true rfl (.inl rfl)⟩
  · rw [if_neg hthrows, if_neg hthrows]
    refine ⟨iff_of_false (Option.some_ne_none _) (Option.some_ne_none _), ?_⟩
    have hnone : ∀ s : JsString, some s ≠ none := Option.some_ne_none
    rw [Option.some_inj, or_iff_right (hnone _)]
    have hparts := Chunks.flatMap_parts enc.cuts [] chunks
    cases hbom : enc.bom with
    | none =>
      have hdropped : ∀ p, t.dropped p = p := fun p => by
        simp [TextDecoder.dropped, t, hbom]
      simp only [hdropped]
      refine iff_of_true hparts (.inr ?_)
      rintro ⟨-, -, -, -, -, -, -, -, bom, h, -⟩
      exact nomatch hbom.symm.trans h
    | some bom =>
      have hdropped : ∀ p, t.dropped p = dropBOM ignoreBOM bom p := fun p => by
        simp [TextDecoder.dropped, t, hbom]
      simp only [hdropped]
      cases ignoreBOM with
      | true => exact iff_of_true hparts (.inl rfl)
      | false =>
        have hiff := Chunks.flatMap_strip_iff (DecoderEncoding.text_bom hbom)
          (DecoderEncoding.bom_ne_nil hbom) (by simp) enc.text_nil
          (DecoderEncoding.seamed hbom [] chunks)
        rw [Chunks.flatten_parts, nil_append, ← not_lateBOM_iff hbom] at hiff
        rw [or_iff_right Bool.false_ne_true]
        exact hiff

/-- A byte order mark at the beginning of the second chunk is lost. -/
theorem second_chunk_loses_mark :
    TextDecoder.stream { enc := .utf8, fatal := false, ignoreBOM := false }
        [[0x61], [0xef, 0xbb, 0xbf, 0x62]] = some [0x61, 0x62] ∧
      (TextDecoder.decode { enc := .utf8, fatal := false, ignoreBOM := false }
        [0x61, 0xef, 0xbb, 0xbf, 0x62] false).1 = some [0x61, 0xfeff, 0x62] := by
  decide

end GoSpidermonkey.Web
