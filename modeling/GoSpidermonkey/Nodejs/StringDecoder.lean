import GoSpidermonkey.Nodejs.Buffer

/-!
# StringDecoder

The results of `write` for the chunks of a stream and of `end` after them. Every encoding but utf8
can be cut where a decoder holds bytes back, so they make up the text of the whole stream. For utf8
every call has a new `TextDecoder`, which drops a byte order mark at the beginning of what it is
given: then a mark after the first characters is lost where it begins the input of a call
(`stringDecoder_chunking_iff`).
-/

namespace GoSpidermonkey.Nodejs.Buffer

open Ecma Web Nodejs.Stream List

def nameOf : Encoding → EncodingName
  | .utf8 => .utf8
  | .utf16le => .utf16le
  | .base64 => .base64
  | .base64url => .base64url
  | .hex => .hex
  | .latin1 => .latin1
  | .ascii => .ascii

/-- What `write` and `end` return for bytes; for utf8, `toString` is the `TextDecoder` they use. -/
def toText (enc : Encoding) (b : Bytes) : JsString := (toString b (nameOf enc) 0 b.length).getD []

/-- The results of `write` for the chunks and of `end` after them. -/
def results (d : StringDecoder) : List Bytes → List JsString
  | [] => [(d.flush toText).2]
  | c :: cs => (d.write toText c).2 :: results (d.write toText c).1 cs

lemma toText_eq (enc : Encoding) (b : Bytes) : toText enc b = text enc b := by
  rw [toText, toString_eq, Option.getD_some]
  cases enc <;> rfl

/-! ### What is held back -/

def keep (enc : Encoding) : Bytes → ℕ := StringDecoder.tail { encoding := enc }

lemma results_eq (d : StringDecoder) (chunks : List Bytes) :
    results d chunks = (Chunks.parts (keep d.encoding) d.pending chunks).map (text d.encoding) := by
  induction chunks generalizing d with
  | nil =>
    rw [results, Chunks.parts_nil, map_singleton, StringDecoder.flush]
    split_ifs with h
    · have hnil : text d.encoding [] = [] := by cases d.encoding <;> decide
      rw [h, hnil]
    · rw [toText_eq]
  | cons c cs ih =>
    rw [results, ih, Chunks.parts_cons, map_cons, StringDecoder.write, toText_eq]
    rfl

lemma expected_cases (b : UInt8) :
    b &&& 0xc0 ≠ 0x80 →
      sequenceLength b = none ∧ expected b = 1 ∨ sequenceLength b = some (expected b) := by
  revert b
  decide +kernel

lemma sequenceLength_le (b : UInt8) : ∀ need ∈ sequenceLength b, need ≤ 4 := by
  revert b
  decide +kernel

/-- How many bytes `incompleteUtf8Tail` holds back, from where it stops. -/
def heldFrom (cont : ℕ) : Bytes → ℕ
  | [] => 0
  | lead :: _ =>
    match sequenceLength lead with
    | none => 0
    | some need => if cont + 1 < need then cont + 1 else 0

lemma incompleteUtf8Tail_eq (b : Bytes) :
    incompleteUtf8Tail b = heldFrom (skipCont 0 b.reverse).1 (skipCont 0 b.reverse).2 := by
  rw [incompleteUtf8Tail]
  obtain ⟨cont, bs⟩ := skipCont 0 b.reverse
  cases bs <;> rfl

lemma heldFrom_three (b : UInt8) (bs : Bytes) : heldFrom 3 (b :: bs) = 0 := by
  rw [heldFrom]
  cases hneed : sequenceLength b with
  | none => rfl
  | some need =>
    have hle := sequenceLength_le b need hneed
    exact if_neg (by omega)

lemma heldFrom_lead {b : UInt8} (hb : b &&& 0xc0 ≠ 0x80) (cont : ℕ) (bs : Bytes) :
    heldFrom cont (b :: bs) = if cont + 1 < expected b then cont + 1 else 0 := by
  rw [heldFrom]
  rcases expected_cases b hb with ⟨hnone, hone⟩ | hsome
  · simp only [hnone, hone]
    exact (if_neg (by omega)).symm
  · simp only [hsome]

/-- The search over the last three bytes finds what `incompleteUtf8Tail` finds. -/
lemma leadFrom_eq (bs : Bytes) {cont : ℕ} (hcont : cont ≤ 3) :
    leadFrom (cont + 1) (bs.take (3 - cont)) =
      heldFrom (skipCont cont bs).1 (skipCont cont bs).2 := by
  induction bs generalizing cont with
  | nil =>
    rw [take_nil]
    rfl
  | cons b bs ih =>
    by_cases hthree : cont = 3
    · subst hthree
      rw [skipCont, if_neg (by omega), heldFrom_three]
      rfl
    · obtain ⟨k, hk⟩ : ∃ k, 3 - cont = k + 1 := ⟨2 - cont, by omega⟩
      rw [hk, take_succ_cons, leadFrom, skipCont]
      by_cases hb : b &&& 0xc0 = 0x80
      · have hk' : k = 3 - (cont + 1) := by omega
        have hskip : b &&& 0xc0 = 0x80 ∧ cont < 3 := ⟨hb, by omega⟩
        rw [if_neg (not_not.mpr hb), if_pos hskip, hk', ih (by omega)]
      · have hstop : ¬ (b &&& 0xc0 = 0x80 ∧ cont < 3) := fun h => hb h.1
        rw [if_pos hb, if_neg hstop, heldFrom_lead hb]

lemma utf8TailLength_eq : utf8TailLength = incompleteUtf8Tail := by
  funext b
  rw [incompleteUtf8Tail_eq]
  exact leadFrom_eq b.reverse (Nat.zero_le 3)

lemma keep_utf8 : keep .utf8 = DecoderEncoding.utf8.keep := utf8TailLength_eq

lemma keep_of_ne_utf8 {enc : Encoding} (h : enc ≠ .utf8) :
    keep enc = Chunks.keepMod (unitSize enc) := by
  cases enc with
  | utf8 => exact absurd rfl h
  | _ => rfl

/-! ### Texts in parts -/

lemma sextets_append {a : Bytes} (b : Bytes) (h : 3 ∣ a.length) :
    sextets (a ++ b) = sextets a ++ sextets b := by
  induction a using sextets.induct with
  | case1 => rfl
  | case2 x => simp at h
  | case3 x y => simp at h
  | case4 x y z a ih =>
    have h' : 3 ∣ a.length := by
      simp only [length_cons] at h
      omega
    simp [sextets, ih h']

lemma padding_append {a : Bytes} (b : Bytes) (h : 3 ∣ a.length) :
    padding a = [] ∧ padding (a ++ b) = padding b := by
  obtain ⟨n, hn⟩ := h
  constructor
  · rw [padding, hn, Nat.mul_mod_right]
    rfl
  · rw [padding, padding, length_append, hn, Nat.mul_add_mod]

lemma text_append {enc : Encoding} (henc : enc ≠ .utf8) (a b : Bytes)
    (h : unitSize enc ∣ a.length) :
    text enc (a ++ b) = text enc a ++ text enc b := by
  cases enc with
  | utf8 => exact absurd rfl henc
  | utf16le => exact utf16leUnits_append b h
  | base64 =>
    obtain ⟨ha, hab⟩ := padding_append b h
    simp only [text, sextets_append b h, map_append, ha, hab, append_nil, append_assoc]
  | base64url => simp only [text, sextets_append b h, map_append]
  | hex => exact flatMap_append
  | latin1 | ascii => exact map_append

/-- The results for a stream are the text of all its bytes, unless a byte order mark after the
beginning starts a part. -/
theorem stringDecoder_chunking_iff (enc : EncodingName) (chunks : List Bytes) :
    some (results { encoding := normEnc enc } chunks).flatten =
        toString chunks.flatten enc 0 chunks.flatten.length ↔
      ¬ (normEnc enc = .utf8 ∧ LateBOM .utf8 chunks) := by
  rw [toString_eq, Option.some_inj, results_eq, ← flatMap_def]
  by_cases henc : normEnc enc = .utf8
  · have hbom : DecoderEncoding.utf8.bom = some utf8BOM := rfl
    rw [henc, keep_utf8, not_and, imp_iff_right rfl]
    have hiff := Chunks.flatMap_strip_iff (DecoderEncoding.text_bom hbom)
      (DecoderEncoding.bom_ne_nil hbom) (by simp) DecoderEncoding.utf8.text_nil
      (DecoderEncoding.seamed hbom [] chunks)
    rw [Chunks.flatten_parts, nil_append, ← not_lateBOM_iff hbom] at hiff
    exact hiff
  · refine iff_of_true ?_ (fun h => henc h.1)
    have hparts := Chunks.flatMap_parts (Chunks.cuts_keepMod (text_append henc)) [] chunks
    rw [keep_of_ne_utf8 henc]
    exact hparts

/-- A byte order mark at the beginning of the second chunk is lost. -/
theorem second_write_loses_mark :
    results { encoding := .utf8 } [[0x61], [0xef, 0xbb, 0xbf, 0x62]] = [[0x61], [0x62], []] ∧
      toString [0x61, 0xef, 0xbb, 0xbf, 0x62] .utf8 0 5 = some [0x61, 0xfeff, 0x62] := by
  decide

end GoSpidermonkey.Nodejs.Buffer
