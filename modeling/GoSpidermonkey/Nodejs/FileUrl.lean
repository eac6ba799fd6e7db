import GoSpidermonkey.Web.Url
import GoSpidermonkey.Nodejs.PathLib
import GoSpidermonkey.Nodejs.Resolve

/-!
# File URLs

A path becomes a `file:` URL in two places: the host encodes the bytes of a file system path
(`fsPathToFileURLPath`), and the guest lets the `URL` class encode the characters of a resolved path
(`url.pathToFileURL`). The encoders keep different characters, but both escape the percent sign, so
the host's lenient decoder and the guest's strict one read back the path from either.
-/

namespace GoSpidermonkey.Nodejs

open GoSpidermonkey.Path GoSpidermonkey.Ecma GoSpidermonkey.Web List

/-! ### The host -/

/-- The bytes `fsPathToFileURLPath` writes as they are. -/
def pathSafe (c : UInt8) : Bool :=
  (str "/-._~").contains c ||
    (decide (ch 'a' ≤ c) && decide (c ≤ ch 'z')) || (decide (ch 'A' ≤ c) && decide (c ≤ ch 'Z')) ||
    (decide (ch '0' ≤ c) && decide (c ≤ ch '9')) ||
    (str "!$&'()*+,;=:@").contains c

/-- The digits in `hexDigits`. -/
def hexDigit (d : UInt8) : UInt8 := if d < 10 then ch '0' + d else ch 'A' + (d - 10)

def fsPathToFileURLPath (p : Bytes) : Bytes :=
  p.flatMap fun c => if pathSafe c then [c] else [ch '%', hexDigit (c >>> 4), hexDigit (c &&& 0xF)]

/-! ### The guest -/

def replaceAll (c : Char) (new s : List Char) : List Char :=
  s.flatMap fun x => if x = c then new else [x]

/-- What `new URL("file://")` gives: the authority is empty and so is the path after it. -/
def emptyFileUrl : URL :=
  { protocol := "file:".toList, pathname := normalizePath (encodeComponent ['/'] pathSet) }

/-- The replacements in `pathToFileURL`, the one of the percent sign first. -/
def preEncode (s : List Char) : List Char :=
  let s := replaceAll '%' "%25".toList s
  let s := replaceAll '\\' "%5C".toList s
  let s := replaceAll '\n' "%0A".toList s
  let s := replaceAll '\r' "%0D".toList s
  replaceAll '\t' "%09".toList s

def pathToFileURL (p : List Char) : URL :=
  emptyFileUrl.setPathname (preEncode (PathLib.resolve '/' '.' [p]))

/-- The exceptions of `fileURLToPath`. -/
inductive FileUrlError where
  | invalidScheme | invalidHost | encodedSlash | malformedEscape

/-- The test `/%2f/i`. -/
def hasEncodedSlash : List Char → Bool
  | a :: b :: c :: s =>
    (decide (a = '%') && decide (b = '2') && (decide (c = 'f') || decide (c = 'F'))) ||
      hasEncodedSlash (b :: c :: s)
  | _ => false

def fileURLToPath (u : URL) : Except FileUrlError (List Char) :=
  if u.protocol ≠ "file:".toList then .error .invalidScheme
  else if u.hostname ≠ [] ∧ u.hostname ≠ "localhost".toList then .error .invalidHost
  else if hasEncodedSlash u.pathname then .error .encodedSlash
  else
    match decodeURIComponent u.pathname with
    | some path => .ok path
    | none => .error .malformedEscape

/-! ### The host reads what it wrote -/

variable {c : Char} {b : UInt8}

lemma percentDecode_cons {c : UInt8} (h : c ≠ ch '%') (t : Bytes) :
    percentDecode (c :: t) = c :: percentDecode t := by
  match t with
  | [] | [_] => rfl
  | a :: b :: t => rw [percentDecode, if_neg h]

lemma percentDecode_escape (c : UInt8) (t : Bytes) :
    percentDecode (ch '%' :: hexDigit (c >>> 4) :: hexDigit (c &&& 0xF) :: t) =
      c :: percentDecode t := by
  have hdigits : unescape (hexDigit (c >>> 4)) (hexDigit (c &&& 0xF)) = some c := by
    revert c
    decide +kernel
  rw [percentDecode, if_pos rfl, hdigits]

lemma percentDecode_flatMap {α : Type*} {enc dec : α → Bytes} {s : List α}
    (h : ∀ a ∈ s, ∀ t, percentDecode (enc a ++ t) = dec a ++ percentDecode t) :
    percentDecode (s.flatMap enc) = s.flatMap dec := by
  induction s with
  | nil => rfl
  | cons a s ih =>
    rw [flatMap_cons, flatMap_cons, h a (.head _), ih fun b hb => h b (.tail _ hb)]

lemma percentDecode_fsPathToFileURLPath (p : Bytes) :
    percentDecode (fsPathToFileURLPath p) = p := by
  have hsafe : ∀ c : UInt8, pathSafe c → c ≠ ch '%' := by decide +kernel
  calc percentDecode (fsPathToFileURLPath p) = p.flatMap ([·]) :=
        percentDecode_flatMap fun c _ t => by
          split_ifs with hc
          · exact percentDecode_cons (hsafe c hc) t
          · exact percentDecode_escape c t
    _ = p := flatMap_singleton' p

lemma fileURLToFSPath_eq {s : Bytes} (h : s.head? ≠ some slash) :
    fileURLToFSPath (str "file:///" ++ s) = slash :: percentDecode s := by
  have hcut : cutLead (str "file://") (str "file:///" ++ s) = some (slash :: s) := rfl
  have hdrop : (slash :: s).dropWhile (· == slash) = s := by
    rw [dropWhile_cons_of_pos (by simp)]
    cases s with
    | nil => rfl
    | cons c s => exact dropWhile_cons_of_neg (by simpa using h)
  simp only [fileURLToFSPath, hcut, Option.some_or, hdrop]

lemma head_fsPathToFileURLPath {p : Bytes} (h : p.head? ≠ some slash) :
    (fsPathToFileURLPath p).head? ≠ some slash := by
  cases p with
  | nil => simp [fsPathToFileURLPath]
  | cons c p =>
    have hc : c ≠ slash := by simpa using h
    rw [fsPathToFileURLPath, flatMap_cons]
    split_ifs
    · simpa using hc
    · simp only [cons_append, head?_cons, ne_eq, Option.some.injEq]
      decide

/-! ### What the URL of the guest holds -/

def encodeChar (c : Char) : List Char :=
  if literal pathSet c ∧ c ≠ '%' ∧ c ≠ '\\' then [c] else escapeChar c

def setterEncode (s : List Char) : List Char :=
  encodeComponent
    ((s.filter (· ∉ ['\t', '\n', '\r'])).map fun c => if c = '\\' then '/' else c) pathSet

lemma setterEncode_preEncode_singleton (c : Char) :
    setterEncode (preEncode [c]) = encodeChar c := by
  by_cases hc : c ∈ ['%', '\\', '\n', '\r', '\t']
  · simp only [mem_cons, not_mem_nil, or_false] at hc
    rcases hc with rfl | rfl | rfl | rfl | rfl <;> rfl
  · simp only [mem_cons, not_mem_nil, or_false, not_or] at hc
    obtain ⟨hpercent, hback, hn, hr, ht⟩ := hc
    simp [setterEncode, preEncode, replaceAll, encodeComponent, encodeChar, *]

lemma setterEncode_preEncode (s : List Char) :
    setterEncode (preEncode s) = s.flatMap encodeChar := by
  induction s with
  | nil => rfl
  | cons c s ih =>
    have happ : setterEncode (preEncode ([c] ++ s)) =
        setterEncode (preEncode [c]) ++ setterEncode (preEncode s) := by
      simp only [setterEncode, preEncode, replaceAll, encodeComponent, flatMap_append,
        filter_append, map_append]
    rw [← singleton_append, happ, setterEncode_preEncode_singleton, ih, flatMap_append,
      flatMap_singleton]

lemma utf8EncodeChar_literal (h : literal pathSet c) :
    String.utf8EncodeChar c = [c.toNat.toUInt8] := by
  have hc : c.toNat < 0x7f := by
    simp only [literal, Bool.and_eq_true, decide_eq_true_eq] at h
    exact h.1.2
  unfold String.utf8EncodeChar
  rw [if_pos (by show c.toNat ≤ 127; omega)]
  rfl

lemma escapeByte_slash (b : UInt8) : '/' ∉ escapeByte b := by
  revert b
  decide +kernel

lemma slash_not_mem_encodeChar (h : c ≠ '/') : '/' ∉ encodeChar c := by
  unfold encodeChar escapeChar
  split_ifs
  · simpa using h.symm
  · simp only [mem_flatMap, not_exists, not_and]
    exact fun b _ => escapeByte_slash b

lemma decodeURIComponent_encodeChar (c : Char) (t : List Char) :
    decodeURIComponent (encodeChar c ++ t) = (decodeURIComponent t).map (c :: ·) := by
  unfold encodeChar
  split_ifs with h
  · exact decodeURIComponent_cons h.2.1 t
  · exact decodeURIComponent_escapeChar c t

lemma decodeURIComponent_encoded (s : List Char) :
    decodeURIComponent (s.flatMap encodeChar) = some s := by
  induction s with
  | nil => rw [flatMap_nil, decodeURIComponent]
  | cons c s ih => rw [flatMap_cons, decodeURIComponent_encodeChar, ih, Option.map_some]

/-- A byte below `0x80` in the encoding of a character is that character. -/
lemma toNat_of_mem_utf8EncodeChar (h : b ∈ String.utf8EncodeChar c)
    (hb : b < 0x80) : c.toNat = b.toNat := by
  have hlow : b.toNat < 128 := hb
  unfold String.utf8EncodeChar at h
  simp only at h
  change c.val.toNat = b.toNat
  generalize c.val.toNat = v at h
  split_ifs at h
  all_goals
    simp only [mem_cons, not_mem_nil, or_false] at h
  · rw [h, UInt8.toNat_ofNat']
    omega
  · rcases h with rfl | rfl <;> rw [UInt8.toNat_ofNat'] at hlow <;> omega
  · rcases h with rfl | rfl | rfl <;> rw [UInt8.toNat_ofNat'] at hlow <;> omega
  · rcases h with rfl | rfl | rfl | rfl <;> rw [UInt8.toNat_ofNat'] at hlow <;> omega

lemma byte_of_escaped (h : ¬ (literal pathSet c ∧ c ≠ '%' ∧ c ≠ '\\')) :
    ∀ b ∈ String.utf8EncodeChar c, b ≠ 0x2E ∧ b ≠ 0x2F := by
  refine fun b hb => ⟨?_, ?_⟩
  · rintro rfl
    have hc : c = '.' := Char.toNat_inj.mp (toNat_of_mem_utf8EncodeChar hb (by decide))
    exact h (by rw [hc]; decide)
  · rintro rfl
    have hc : c = '/' := Char.toNat_inj.mp (toNat_of_mem_utf8EncodeChar hb (by decide))
    exact h (by rw [hc]; decide)

/-! ### Nothing in it reads as a dot or a slash -/

lemma undot_escapeByte (h : b ≠ 0x2E) (t : List Char) :
    undot (escapeByte b ++ t) = escapeByte b ++ undot t := by
  have hdigits : ∀ b : UInt8, upperHex (b >>> 4) ≠ '%' ∧ upperHex (b &&& 15) ≠ '%' ∧ (b ≠ 0x2E →
      ¬ (upperHex (b >>> 4) = '2' ∧ (upperHex (b &&& 15) = 'e' ∨ upperHex (b &&& 15) = 'E'))) := by
    decide +kernel
  obtain ⟨hhi, hlo, hdot⟩ := hdigits b
  simp only [escapeByte, cons_append, nil_append]
  rw [undot_percent (hdot h), undot_cons hhi, undot_cons hlo]

lemma undot_escapeBytes {bs : Bytes} (h : ∀ b ∈ bs, b ≠ 0x2E) (t : List Char) :
    undot (bs.flatMap escapeByte ++ t) = bs.flatMap escapeByte ++ undot t := by
  induction bs with
  | nil => rfl
  | cons b bs ih =>
    rw [flatMap_cons, append_assoc, undot_escapeByte (h b (.head _)),
      ih fun b hb => h b (.tail _ hb), append_assoc]

lemma undot_encoded (s : List Char) : undot (s.flatMap encodeChar) = s.flatMap encodeChar := by
  induction s with
  | nil => rfl
  | cons c s ih =>
    rw [flatMap_cons, encodeChar]
    split_ifs with hc
    · rw [singleton_append, undot_cons hc.2.1, ih]
    · rw [escapeChar, undot_escapeBytes fun b hb => (byte_of_escaped hc b hb).1, ih]

lemma hasEncodedSlash_cons (h : c ≠ '%') (t : List Char) :
    hasEncodedSlash (c :: t) = hasEncodedSlash t := by
  match t with
  | [] | [_] => rfl
  | a :: b :: t => simp [hasEncodedSlash, h]

lemma hasEncodedSlash_escapeByte (h : b ≠ 0x2F) (t : List Char) :
    hasEncodedSlash (escapeByte b ++ t) = hasEncodedSlash t := by
  have hdigits : ∀ b : UInt8, upperHex (b >>> 4) ≠ '%' ∧ upperHex (b &&& 15) ≠ '%' ∧ (b ≠ 0x2F →
      ¬ (upperHex (b >>> 4) = '2' ∧ (upperHex (b &&& 15) = 'f' ∨ upperHex (b &&& 15) = 'F'))) := by
    decide +kernel
  obtain ⟨hhi, hlo, hslash⟩ := hdigits b
  have hnot := hslash h
  simp only [escapeByte, cons_append, nil_append]
  rw [hasEncodedSlash, hasEncodedSlash_cons hhi, hasEncodedSlash_cons hlo]
  simp only [decide_true, Bool.true_and, ← Bool.decide_or, ← Bool.decide_and, hnot, decide_false,
    Bool.false_or]

lemma hasEncodedSlash_escapeBytes {bs : Bytes} (h : ∀ b ∈ bs, b ≠ 0x2F) (t : List Char) :
    hasEncodedSlash (bs.flatMap escapeByte ++ t) = hasEncodedSlash t := by
  induction bs with
  | nil => rfl
  | cons b bs ih =>
    rw [flatMap_cons, append_assoc, hasEncodedSlash_escapeByte (h b (.head _)),
      ih fun b hb => h b (.tail _ hb)]

lemma hasEncodedSlash_encoded (s : List Char) : hasEncodedSlash (s.flatMap encodeChar) = false := by
  induction s with
  | nil => rfl
  | cons c s ih =>
    rw [flatMap_cons, encodeChar]
    split_ifs with hc
    · rw [singleton_append, hasEncodedSlash_cons hc.2.1, ih]
    · rw [escapeChar, hasEncodedSlash_escapeBytes fun b hb => (byte_of_escaped hc b hb).2, ih]

/-! ### The pathname -/

lemma flatMap_intercalate {f : Char → List Char} (hf : f '/' = ['/']) (segs : List (List Char)) :
    (['/'].intercalate segs).flatMap f = ['/'].intercalate (segs.map (·.flatMap f)) := by
  induction segs with
  | nil => rfl
  | cons seg segs ih =>
    cases segs with
    | nil => simp
    | cons next segs =>
      rw [map_cons] at ih
      simp only [map_cons, intercalate_cons_cons, flatMap_append, ih,
        flatMap_singleton, hf]

lemma pathname_pathToFileURL (p : List Char) :
    (pathToFileURL p).pathname = (PathLib.resolve '/' '.' [p]).flatMap encodeChar := by
  obtain ⟨segs, hsegs, hresolve⟩ := PathLib.resolve_eq '/' '.' [p]
  have hslash : encodeChar '/' = ['/'] := by decide
  have hencoded : (PathLib.resolve '/' '.' [p]).flatMap encodeChar =
      '/' :: ['/'].intercalate (segs.map (·.flatMap encodeChar)) := by
    rw [hresolve, flatMap_cons, hslash, flatMap_intercalate hslash, singleton_append]
  have hset : (pathToFileURL p).pathname =
      normalizePath ((PathLib.resolve '/' '.' [p]).flatMap encodeChar) := by
    have henc := setterEncode_preEncode (PathLib.resolve '/' '.' [p])
    have hspecial : emptyFileUrl.protocol ∈ specialSchemes := by decide
    simp only [setterEncode] at henc
    simp only [pathToFileURL, URL.setPathname, if_pos hspecial, henc]
    rw [if_pos (by rw [hencoded]; rfl)]
  rw [hset, hencoded]
  refine normalizePath_eq (fun s hs => ?_) fun s hs => ?_
  · obtain ⟨seg, hseg, rfl⟩ := mem_map.mp hs
    simp only [mem_flatMap, not_exists, not_and]
    exact fun c hc => slash_not_mem_encodeChar fun h => (hsegs seg hseg).noSlash (h ▸ hc)
  · obtain ⟨seg, hseg, rfl⟩ := mem_map.mp hs
    -- a segment that reads as dots is made of dots
    have hread : ∀ dots : List Char, dots.flatMap encodeChar = dots →
        undot (seg.flatMap encodeChar) = dots → seg = dots := by
      intro dots hdots h
      rw [undot_encoded] at h
      have h₁ := decodeURIComponent_encoded seg
      have h₂ := decodeURIComponent_encoded dots
      rw [h] at h₁
      rw [hdots, h₁] at h₂
      exact Option.some.inj h₂
    exact ⟨fun h => (hsegs seg hseg).ne_dot (hread _ (by decide) h),
      fun h => (hsegs seg hseg).ne_dotDot (hread _ (by decide) h)⟩

/-! ### The guest and the host read what the guest wrote -/

lemma percentDecode_utf8_escapeBytes (bs t : Bytes) :
    percentDecode (utf8 (bs.flatMap escapeByte) ++ t) = bs ++ percentDecode t := by
  have hbytes : ∀ b : UInt8,
      utf8 (escapeByte b) = [ch '%', hexDigit (b >>> 4), hexDigit (b &&& 0xF)] := by
    decide +kernel
  induction bs with
  | nil => rfl
  | cons b bs ih =>
    rw [flatMap_cons, utf8_append, hbytes, append_assoc]
    simp only [cons_append, nil_append]
    rw [percentDecode_escape, ih]

lemma byte_ne_of_literal {d : Char} (hc : literal pathSet c) (hd : d.toNat < 128) (hne : c ≠ d) :
    c.toNat.toUInt8 ≠ ch d := by
  intro h
  have hb : (ch d).toNat = d.toNat := by
    rw [ch, UInt8.toNat_ofNat']
    omega
  have hmem : ch d ∈ String.utf8EncodeChar c := by rw [utf8EncodeChar_literal hc, h]; exact .head _
  have hc := toNat_of_mem_utf8EncodeChar hmem (show (ch d).toNat < 128 by omega)
  exact hne (Char.toNat_inj.mp (hc.trans hb))

lemma percentDecode_utf8_encodeChar (c : Char) (t : Bytes) :
    percentDecode (utf8 (encodeChar c) ++ t) = String.utf8EncodeChar c ++ percentDecode t := by
  unfold encodeChar
  split_ifs with hc
  · rw [utf8, flatMap_singleton, utf8EncodeChar_literal hc.1]
    exact percentDecode_cons (byte_ne_of_literal hc.1 (by decide) hc.2.1) t
  · exact percentDecode_utf8_escapeBytes _ t

lemma utf8_flatMap (f : Char → List Char) (s : List Char) :
    utf8 (s.flatMap f) = s.flatMap fun c => utf8 (f c) := by
  rw [utf8, flatMap_assoc]
  rfl

lemma percentDecode_utf8_encoded (s : List Char) :
    percentDecode (utf8 (s.flatMap encodeChar)) = utf8 s := by
  rw [utf8_flatMap]
  exact percentDecode_flatMap fun c _ t => percentDecode_utf8_encodeChar c t

lemma head_utf8_encodeChar (h : c ≠ '/') (t : Bytes) :
    (utf8 (encodeChar c) ++ t).head? ≠ some slash := by
  unfold encodeChar
  split_ifs with hc
  · rw [utf8, flatMap_singleton, utf8EncodeChar_literal hc.1]
    have hbyte : c.toNat.toUInt8 ≠ slash := byte_ne_of_literal hc.1 (by decide) h
    simpa using hbyte
  · unfold escapeChar
    cases hbytes : String.utf8EncodeChar c with
    | nil => exact absurd hbytes String.utf8EncodeChar_ne_nil
    | cons b bs =>
      have hfirst : String.utf8EncodeChar '%' = [ch '%'] := rfl
      have hne : ch '%' ≠ slash := by decide
      simpa [flatMap_cons, escapeByte, utf8_cons, hfirst] using hne

lemma head_intercalate {segs : List (List Char)} (h : ∀ s ∈ segs, PathLib.IsName '/' '.' s) :
    (['/'].intercalate segs).head? ≠ some '/' := by
  cases segs with
  | nil => simp
  | cons seg segs =>
    obtain ⟨hne, hslash, -, -⟩ := h seg (.head _)
    cases seg with
    | nil => exact absurd rfl hne
    | cons c seg =>
      have hc : c ≠ '/' := fun e => hslash (e ▸ .head _)
      cases segs with
      | nil => simpa using hc
      | cons next segs => simpa [intercalate_cons_cons] using hc

lemma fileURLToFSPath_pathToFileURL (q : List Char) :
    fileURLToFSPath (utf8 (pathToFileURL q).href) = utf8 (PathLib.resolve '/' '.' [q]) := by
  obtain ⟨segs, hsegs, hresolve⟩ := PathLib.resolve_eq '/' '.' [q]
  have hhref : utf8 (pathToFileURL q).href =
      str "file:///" ++ utf8 ((['/'].intercalate segs).flatMap encodeChar) := by
    have hauthority : (pathToFileURL q).href = "file://".toList ++ (pathToFileURL q).pathname := by
      simp [URL.href, pathToFileURL, URL.setPathname, emptyFileUrl, URL.host, specialSchemes]
    rw [hauthority, pathname_pathToFileURL, hresolve, flatMap_cons, utf8_append, utf8_append]
    rfl
  rw [hhref, fileURLToFSPath_eq, percentDecode_utf8_encoded, hresolve]
  · rfl
  · have hhead := head_intercalate hsegs
    cases hpath : ['/'].intercalate segs with
    | nil => simp
    | cons c path =>
      rw [hpath] at hhead
      rw [flatMap_cons, utf8_append]
      exact head_utf8_encodeChar (by simpa using hhead) _

/-- The host takes back every path it encodes; a path the guest turns into a URL comes back resolved
from the guest and from the host. -/
theorem file_urls_agree :
    (∀ p : Bytes, p.head? ≠ some slash →
      fileURLToFSPath (str "file:///" ++ fsPathToFileURLPath p) = slash :: p) ∧
    ∀ q : List Char,
      fileURLToPath (pathToFileURL q) = .ok (PathLib.resolve '/' '.' [q]) ∧
      fileURLToFSPath (utf8 (pathToFileURL q).href) = utf8 (PathLib.resolve '/' '.' [q]) := by
  refine ⟨fun p hp => ?_, fun q => ⟨?_, fileURLToFSPath_pathToFileURL q⟩⟩
  · rw [fileURLToFSPath_eq (head_fsPathToFileURLPath hp), percentDecode_fsPathToFileURLPath]
  · have hprotocol : (pathToFileURL q).protocol = "file:".toList := rfl
    have hhost : (pathToFileURL q).hostname = [] := rfl
    simp [fileURLToPath, hprotocol, hhost, pathname_pathToFileURL, hasEncodedSlash_encoded,
      decodeURIComponent_encoded]

/-- A name with a space, a percent sign, a question mark and a byte that is no text. -/
theorem file_urls_agree_awkward :
    fileURLToFSPath (str "file:///" ++ fsPathToFileURLPath (str "a b/50%25?" ++ [0xFF])) =
      slash :: (str "a b/50%25?" ++ [0xFF]) :=
  file_urls_agree.1 _ (by decide)

end GoSpidermonkey.Nodejs
