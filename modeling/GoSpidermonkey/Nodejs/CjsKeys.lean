import GoSpidermonkey.Ecma.ObjectLiteral
import GoSpidermonkey.Nodejs.CjsSource

/-!
# Keys against the grammar of object literals

`objectLiteralKeys` reads the keys of an object literal with a depth and a flag that says whether a
key may come. It finds the names the literal gives, unless the literal has one of four things: a
number as a name that leaves the flag up over the value or ends in letters that the loop takes for a
name; an identifier that is not all ASCII letters; an escape in a string that is a name, which is
taken as it is written; and white space after a key that the loop does not skip.
-/

namespace GoSpidermonkey.Nodejs.Cjs

open GoSpidermonkey.Ecma List

/-! ### The rounds of the loop -/

/-- What the loop finds in a text, however many rounds it may make. -/
def Finds (depth : ℕ) (expectKey : Bool) (s : Bytes) (keys : List Bytes) : Prop :=
  ∀ n, s.length ≤ n → keysLoop n depth expectKey s = keys

def isFiller (b : UInt8) : Bool :=
  !isQuote b && !isOpener b && !isCloser b && b != ch ',' && b != ch '.'

/-- What the branches of the loop find out about a byte. -/
lemma byte_classes (b : UInt8) :
    (isOpener b → ¬ (b = 39 ∨ b = 34) ∧ (b = 123 ∨ b = ch '[' ∨ b = ch '(')) ∧
    (isCloser b → ¬ (b = 39 ∨ b = 34) ∧ ¬ (b = 123 ∨ b = ch '[' ∨ b = ch '(') ∧
      (b = 125 ∨ b = ch ']' ∨ b = ch ')')) ∧
    (isQuote b → b ≠ ch '\\' ∧ (b = 39 ∨ b = 34)) := by
  revert b
  decide +kernel

lemma key_classes (b : UInt8) :
    (isKeyStart b → ¬ (b = 39 ∨ b = 34) ∧ ¬ (b = 123 ∨ b = ch '[' ∨ b = ch '(') ∧
      ¬ (b = 125 ∨ b = ch ']' ∨ b = ch ')') ∧ b ≠ ch ',' ∧ isKeySpace b = false ∧
      isModifier.isModified b) ∧ (isIdentStart b → isKeyStart b) := by
  revert b
  decide +kernel

namespace Finds

variable {depth : ℕ} {expectKey : Bool} {b : UInt8} {t : Bytes} {keys : List Bytes}

lemma of_round {s : Bytes}
    (h : ∀ n, s.length ≤ n → keysLoop (n + 1) depth expectKey (b :: s) = keys) :
    Finds depth expectKey (b :: s) keys := by
  intro n hn
  cases n with
  | zero => simp at hn
  | succ n => exact h n (Nat.le_of_succ_le_succ hn)

lemma filler (h : Finds depth expectKey t keys) (hb : isFiller b)
    (hkey : depth = 1 → expectKey → isKeyStart b = false) :
    Finds depth expectKey (b :: t) keys := by
  refine of_round fun n hn => ?_
  simp only [isFiller, isQuote, isOpener, isCloser, Bool.and_eq_true, Bool.not_eq_true',
    Bool.or_eq_false_iff, beq_eq_false_iff_ne, bne_iff_ne] at hb
  obtain ⟨⟨⟨⟨⟨h₁, h₂⟩, ⟨h₃, h₄⟩, h₅⟩, ⟨h₆, h₇⟩, h₈⟩, h₉⟩, hdot⟩ := hb
  have hletter : ¬ (depth = 1 ∧ expectKey = true ∧ isKeyStart b = true) := fun hk => by
    rw [hkey hk.1 hk.2.1] at hk
    exact absurd hk.2.2 (by decide)
  rw [keysLoop, if_neg (by tauto), if_neg (by tauto), if_neg (by tauto), if_neg h₉, if_neg hletter,
    if_neg hdot]
  exact h n hn

example : keysLoop 3 1 true (str " b,") = [str "b"] := by decide +kernel

lemma dot (h : Finds depth false t keys) : Finds depth expectKey (ch '.' :: t) keys := by
  refine of_round fun n hn => ?_
  rw [keysLoop, if_neg (by decide), if_neg (by decide), if_neg (by decide), if_neg (by decide),
    if_neg (by simp [show isKeyStart (ch '.') = false from rfl]), if_pos rfl]
  exact h n hn

lemma comma (h : Finds depth (depth == 1 || expectKey) t keys) :
    Finds depth expectKey (ch ',' :: t) keys := by
  refine of_round fun n hn => ?_
  rw [keysLoop, if_neg (by decide), if_neg (by decide), if_neg (by decide), if_pos rfl]
  exact h n hn

lemma opener (hb : isOpener b) (h : Finds (depth + 1) (b == 123 && depth == 0) t keys) :
    Finds depth expectKey (b :: t) keys := by
  refine of_round fun n hn => ?_
  obtain ⟨hquote, hopen⟩ := (byte_classes b).1 hb
  rw [keysLoop, if_neg hquote, if_pos hopen]
  exact h n hn

lemma keysLoop_closer (hb : isCloser b) (n : ℕ) : keysLoop (n + 1) depth expectKey (b :: t) =
    if depth ≤ 1 then [] else keysLoop n (depth - 1) expectKey t := by
  obtain ⟨hquote, hopen, hclose⟩ := (byte_classes b).2.1 hb
  rw [keysLoop, if_neg hquote, if_neg hopen, if_pos hclose]

lemma closer (hb : isCloser b) (hdepth : 1 ≤ depth) (h : Finds depth expectKey t keys) :
    Finds (depth + 1) expectKey (b :: t) keys := by
  refine of_round fun n hn => ?_
  rw [keysLoop_closer hb, if_neg (by omega)]
  exact h n hn

lemma closer_last (hb : isCloser b) : Finds 1 expectKey (b :: t) [] := by
  refine of_round fun n _ => ?_
  rw [keysLoop_closer hb, if_pos le_rfl]

end Finds

lemma stringLiteral_append {q : UInt8} {body : Bytes} (hq : isQuote q) (h : Quoted q body)
    (t : Bytes) :
    stringLiteral q (body ++ q :: t) = (body ++ [q], t) := by
  obtain ⟨hback, -⟩ := (byte_classes q).2.2 hq
  induction h with
  | nil =>
    cases t with
    | nil => rfl
    | cons d t => rw [nil_append, stringLiteral, if_pos rfl]; rfl
  | @byte b body hbq hb _ ih =>
    obtain ⟨d, s, hs⟩ : ∃ d s, body ++ q :: t = d :: s := by
      cases body <;> exact ⟨_, _, rfl⟩
    rw [cons_append, hs, stringLiteral, if_neg hbq, if_neg hb, ← hs, ih]
    rfl
  | @escape b body _ ih =>
    rw [cons_append, cons_append, stringLiteral, if_neg hback.symm, if_pos rfl, ih]
    rfl

namespace Finds

variable {depth : ℕ} {expectKey : Bool} {q : UInt8} {body t : Bytes} {keys : List Bytes}

lemma keysLoop_string (hq : isQuote q) (hbody : Quoted q body) (n : ℕ) :
    keysLoop (n + 1) depth expectKey (q :: (body ++ q :: t)) =
      if depth = 1 ∧ expectKey ∧ (t.dropWhile isKeySpace).head? = some (ch ':') then
        body :: keysLoop n depth false t
      else keysLoop n depth expectKey t := by
  rw [keysLoop, if_pos ((byte_classes q).2.2 hq).2]
  simp only [stringLiteral_append hq hbody, dropLast_concat]

lemma string (hq : isQuote q) (hbody : Quoted q body)
    (hkey : depth = 1 → expectKey → (t.dropWhile isKeySpace).head? ≠ some (ch ':'))
    (h : Finds depth expectKey t keys) : Finds depth expectKey (q :: (body ++ q :: t)) keys := by
  refine of_round fun n hn => ?_
  rw [keysLoop_string hq hbody, if_neg fun hk => hkey hk.1 hk.2.1 hk.2.2]
  refine h n ?_
  simp only [length_append, length_cons] at hn
  omega

lemma stringKey (hq : isQuote q) (hbody : Quoted q body)
    (hcolon : (t.dropWhile isKeySpace).head? = some (ch ':')) (h : Finds 1 false t keys) :
    Finds 1 true (q :: (body ++ q :: t)) (body :: keys) := by
  refine of_round fun n hn => ?_
  rw [keysLoop_string hq hbody, if_pos ⟨rfl, rfl, hcolon⟩]
  congr 1
  refine h n ?_
  simp only [length_append, length_cons] at hn
  omega

end Finds

/-! ### Words -/

def isKeyPart (b : UInt8) : Bool := isKeyStart b || isDigit b

/-- A word as the loop takes it. -/
structure Word (w : Bytes) : Prop where
  parts : ∀ b ∈ w, isKeyPart b
  start : w.head?.any isKeyStart

/-- A text that does not go on with a letter or a digit. -/
def EndsWord (t : Bytes) : Prop := t.head?.any isKeyPart = false

variable {s t w : Bytes} {d : UInt8} {keys : List Bytes} {g : Gap} {flag : Bool}

lemma takeWhile_word (hw : Word w) (ht : EndsWord t) :
    (w ++ t).takeWhile isKeyPart = w ∧ (w ++ t).dropWhile isKeyPart = t := by
  have hnone : t.takeWhile isKeyPart = [] ∧ t.dropWhile isKeyPart = t := by
    cases t with
    | nil => exact ⟨rfl, rfl⟩
    | cons b t =>
      have hb : isKeyPart b = false := by simpa [EndsWord] using ht
      simp [hb]
  rw [takeWhile_append_of_pos hw.parts, dropWhile_append_of_pos hw.parts, hnone.1, hnone.2]
  simp

lemma isModifier_sign (w : Bytes) (h : isModifier.isModified d = false ∧ d ≠ ch '*') :
    isModifier w (some d) = false := by
  simp [isModifier, h]

namespace Finds

variable {w t : Bytes} {keys : List Bytes}

lemma keysLoop_word (hw : Word w) (ht : EndsWord t) (n : ℕ) :
    keysLoop (n + 1) 1 true (w ++ t) =
      if isModifier w (t.dropWhile isKeySpace).head? then keysLoop n 1 true (t.dropWhile isKeySpace)
      else
        match t.dropWhile isKeySpace with
        | [] => keysLoop n 1 true t
        | d :: _ =>
          if d = ch ':' ∨ d = ch '(' ∨ d = ch ',' ∨ d = 125 then w :: keysLoop n 1 false t
          else keysLoop n 1 false t := by
  obtain ⟨htake, hdrop⟩ := takeWhile_word hw ht
  have hstart := hw.start
  cases w with
  | nil => simp at hstart
  | cons c w =>
    have hc : isKeyStart c := by simpa using hstart
    obtain ⟨h₁, h₂, h₃, h₄, -⟩ := (key_classes c).1 hc
    rw [List.cons_append] at htake hdrop ⊢
    rw [keysLoop, if_neg h₁, if_neg h₂, if_neg h₃, if_neg h₄, if_pos ⟨rfl, rfl, hc⟩]
    rw [show isKeyPart = fun c => isKeyStart c || isDigit c from rfl] at htake hdrop
    cases hnext : t.dropWhile isKeySpace <;> simp only [htake, hdrop, hnext]

lemma length_word {n : ℕ} (hw : Word w) (hn : (w ++ t).length ≤ n + 1) : t.length ≤ n := by
  have hstart := hw.start
  cases w with
  | nil => simp at hstart
  | cons c w =>
    simp only [cons_append, length_cons, length_append] at hn
    omega

lemma of_word (hw : Word w) (h : ∀ n, t.length ≤ n → keysLoop (n + 1) 1 true (w ++ t) = keys) :
    Finds 1 true (w ++ t) keys := by
  intro n hn
  cases n with
  | zero =>
    have hstart := hw.start
    simp only [Nat.le_zero, length_eq_zero_iff, append_eq_nil_iff] at hn
    simp [hn.1] at hstart
  | succ n => exact h n (length_word hw hn)

lemma key (hw : Word w) (ht : EndsWord t) {d : UInt8} (hd : (t.dropWhile isKeySpace).head? = some d)
    (hsign : d = ch ':' ∨ d = ch '(' ∨ d = ch ',' ∨ d = 125) (h : Finds 1 false t keys) :
    Finds 1 true (w ++ t) (w :: keys) := by
  refine of_word hw fun n hn => ?_
  have hmod : isModifier w (some d) = false := by
    rcases hsign with rfl | rfl | rfl | rfl <;> exact isModifier_sign w (by decide)
  obtain ⟨rest, hrest⟩ := List.head?_eq_some_iff.mp hd
  rw [keysLoop_word hw ht, hd, hmod, if_neg (by decide), hrest]
  simp only [if_pos hsign, h n hn]

lemma modifier (hw : Word w) (ht : EndsWord t) (hmod : isModifier w (t.dropWhile isKeySpace).head?)
    (h : Finds 1 true (t.dropWhile isKeySpace) keys) : Finds 1 true (w ++ t) keys := by
  refine of_word hw fun n hn => ?_
  rw [keysLoop_word hw ht, if_pos hmod]
  exact h n ((length_dropWhile_le _ _).trans hn)

lemma noKey (hw : Word w) (ht : EndsWord t) {d : UInt8}
    (hd : (t.dropWhile isKeySpace).head? = some d)
    (hmod : isModifier w (some d) = false)
    (hsign : ¬ (d = ch ':' ∨ d = ch '(' ∨ d = ch ',' ∨ d = 125))
    (h : Finds 1 false t keys) : Finds 1 true (w ++ t) keys := by
  refine of_word hw fun n hn => ?_
  obtain ⟨rest, hrest⟩ := List.head?_eq_some_iff.mp hd
  rw [keysLoop_word hw ht, hd, hmod, if_neg (by decide), hrest]
  simp only [if_neg hsign, h n hn]

end Finds

/-! ### Expressions and gaps -/

lemma opener_of_mem_brackets {o c : UInt8} (h : (o, c) ∈ brackets) : isOpener o ∧ isCloser c := by
  simp only [brackets, mem_cons, Prod.mk.injEq, not_mem_nil, or_false] at h
  rcases h with ⟨rfl, rfl⟩ | ⟨rfl, rfl⟩ | ⟨rfl, rfl⟩ <;> exact ⟨rfl, rfl⟩

lemma Finds.expr {comma : Bool} {e : Bytes} (he : Balanced comma e) {depth : ℕ} (hdepth : 1 ≤ depth)
    (hcomma : comma → 2 ≤ depth) (h : Finds depth false t keys) :
    Finds depth false (e ++ t) keys := by
  induction he generalizing depth t with
  | nil => exact h
  | @byte comma b e hquote hopen hclose hb _ ih =>
    have hrest := ih hdepth hcomma h
    by_cases hdot : b = ch '.'
    · exact hdot ▸ hrest.dot
    by_cases hc : b = ch ','
    · have hne : (depth == 1 || false) = false := by
        have := hcomma (hb hc)
        simp
        omega
      exact hc ▸ Finds.comma (by rwa [hne])
    · exact hrest.filler (by simp [isFiller, hquote, hopen, hclose, hc, hdot]) (by simp)
  | string hq hbody _ ih =>
    rw [cons_append, append_assoc, cons_append]
    exact .string hq hbody (by simp) (ih hdepth hcomma h)
  | @group comma o c inner e hb _ _ ihinner ih =>
    obtain ⟨ho, hc⟩ := opener_of_mem_brackets hb
    have hflag : (o == 123 && depth == 0) = false := by
      have : (depth == 0) = false := by simp; omega
      rw [this, Bool.and_false]
    rw [cons_append, append_assoc, cons_append]
    refine .opener ho ?_
    rw [hflag]
    exact ihinner (by omega) (by omega) (.closer hc hdepth (ih hdepth hcomma h))

def isSilent (b : UInt8) : Bool :=
  !isModifier.isModified b && b != ch '*' && b != ch ':' && b != ch '(' && b != ch ',' && b != 125

lemma space_bytes (s : Space) : ∀ b ∈ s.text, isFiller b ∧ isKeyPart b = false ∧ isSilent b := by
  cases s with
  | common b hb =>
    have hall : ∀ b ∈ commonSpaces, isFiller b ∧ isKeyPart b = false ∧ isSilent b := by
      decide +kernel
    intro c hc
    rw [mem_singleton.mp hc]
    exact hall b hb
  | other s hs =>
    have hall : otherSpaces.all fun s =>
        s.all fun b => isFiller b && !isKeyPart b && isSilent b := by
      decide +kernel
    simpa [Space.text, and_assoc] using all_eq_true.mp hall s hs

lemma gap_bytes (g : Gap) : ∀ b ∈ g.text, isFiller b ∧ isKeyPart b = false ∧ isSilent b := by
  intro b hb
  obtain ⟨s, -, hs⟩ := mem_flatMap.mp hb
  exact space_bytes s b hs

lemma Finds.fillers {depth : ℕ} {expectKey : Bool}
    (hs : ∀ b ∈ s, isFiller b ∧ isKeyStart b = false) (h : Finds depth expectKey t keys) :
    Finds depth expectKey (s ++ t) keys := by
  induction s with
  | nil => exact h
  | cons b s ih =>
    obtain ⟨hb, hstart⟩ := hs b (.head _)
    exact (ih fun c hc => hs c (.tail _ hc)).filler hb fun _ _ => hstart

lemma Finds.gap {depth : ℕ} {expectKey : Bool} (g : Gap)
    (h : Finds depth expectKey t keys) : Finds depth expectKey (g.text ++ t) keys := by
  refine .fillers (fun b hb => ?_) h
  obtain ⟨hfiller, hpart, -⟩ := gap_bytes g b hb
  rw [isKeyPart, Bool.or_eq_false_iff] at hpart
  exact ⟨hfiller, hpart.1⟩

lemma endsWord_gap (g : Gap) (ht : EndsWord t) : EndsWord (g.text ++ t) := by
  have hbytes := gap_bytes g
  generalize g.text = s at hbytes
  cases s with
  | nil => exact ht
  | cons b s => simpa [EndsWord] using (hbytes b (.head _)).2.1

lemma endsWord_of_ne_nil (hne : g ≠ []) (t : Bytes) : EndsWord (g.text ++ t) := by
  have htext : g.text ≠ [] := by
    cases g with
    | nil => exact absurd rfl hne
    | cons s g =>
      have hs : s.text ≠ [] := by
        cases s with
        | common => simp [Space.text]
        | other s hs =>
          have hall : ∀ s ∈ otherSpaces, s ≠ [] := by decide
          exact hall s hs
      simp [Gap.text, hs]
  have hbytes := gap_bytes g
  generalize g.text = s at hbytes htext
  cases s with
  | nil => exact absurd rfl htext
  | cons b s => simpa [EndsWord] using (hbytes b (.head _)).2.1

lemma dropWhile_gap (hg : g.isCommon) (t : Bytes) :
    (g.text ++ t).dropWhile isKeySpace = t.dropWhile isKeySpace := by
  refine dropWhile_append_of_pos fun b hb => ?_
  obtain ⟨s, hs, hbs⟩ := mem_flatMap.mp hb
  have hcommon := all_eq_true.mp hg s hs
  cases s with
  | common c hc =>
    have hall : ∀ b ∈ commonSpaces, isKeySpace b := by simp [commonSpaces, isKeySpace]
    rw [mem_singleton.mp hbs]
    exact hall c hc
  | other => simp [Space.isCommon] at hcommon

lemma head_gap (hg : g.isCommon) (hd : isKeySpace d = false) (t : Bytes) :
    ((g.text ++ d :: t).dropWhile isKeySpace).head? = some d := by
  rw [dropWhile_gap hg, dropWhile_cons_of_neg (by simp [hd])]
  rfl

/-- White space the loop does not skip stands where it looks for a sign. -/
lemma gap_silent (hg : g.isCommon = false) (t : Bytes) :
    ∃ c, ((g.text ++ t).dropWhile isKeySpace).head? = some c ∧ isSilent c := by
  induction g with
  | nil => simp [Gap.isCommon] at hg
  | cons sp g ih =>
    have htext : Gap.text (sp :: g) ++ t = sp.text ++ (Gap.text g ++ t) := by simp [Gap.text]
    rw [htext]
    cases sp with
    | common b hb =>
      rw [← dropWhile_gap (g := [.common b hb]) rfl (Gap.text g ++ t)] at ih
      simpa [Gap.text] using ih (by simpa [Gap.isCommon, Space.isCommon] using hg)
    | other w hw =>
      have hall : ∀ s ∈ otherSpaces, s.head?.any fun b => !isKeySpace b && isSilent b := by
        decide +kernel
      have hw := hall w hw
      cases w with
      | nil => simp at hw
      | cons b w =>
        obtain ⟨hspace, hsilent⟩ : isKeySpace b = false ∧ isSilent b := by simpa using hw
        refine ⟨b, ?_, hsilent⟩
        rw [Space.text, cons_append, dropWhile_cons_of_neg (by simp [hspace])]
        rfl

lemma isSilent_iff (b : UInt8) : isSilent b ↔ (isModifier.isModified b = false ∧ b ≠ ch '*') ∧
    ¬ (b = ch ':' ∨ b = ch '(' ∨ b = ch ',' ∨ b = 125) := by
  simp only [isSilent, Bool.and_eq_true, Bool.not_eq_true', bne_iff_ne]
  tauto

lemma Finds.silent (hw : Word w) (hends : EndsWord t) {c : UInt8}
    (hhead : (t.dropWhile isKeySpace).head? = some c) (hc : isSilent c) (h : Finds 1 false t keys) :
    Finds 1 true (w ++ t) keys := by
  obtain ⟨hmod, hsign⟩ := (isSilent_iff c).mp hc
  exact .noKey hw hends hhead (isModifier_sign w hmod) hsign h

lemma Finds.word_gap (hw : Word w) (g : Gap) (hd : isKeySpace d = false)
    (hends : EndsWord (g.text ++ d :: t)) (hword : isModifier w (some d) ∨ isSilent d)
    (htrue : g.isCommon → isModifier w (some d) → Finds 1 true (d :: t) keys)
    (hfalse : Finds 1 false (d :: t) keys) : Finds 1 true (w ++ (g.text ++ d :: t)) keys := by
  by_cases hg : g.isCommon
  · have hdrop : (g.text ++ d :: t).dropWhile isKeySpace = d :: t := by
      rw [dropWhile_gap hg, dropWhile_cons_of_neg (by simp [hd])]
    rcases hword with hmod | hd'
    · exact .modifier hw hends (by rwa [hdrop]) (by rw [hdrop]; exact htrue hg hmod)
    · exact .silent hw hends (by rw [hdrop]; rfl) hd' (.gap g hfalse)
  · obtain ⟨c, hhead, hc⟩ := gap_silent (by simpa using hg) (d :: t)
    exact .silent hw hends hhead hc (.gap g hfalse)

/-! ### Numbers -/

/-- A number from its first letter or dot on. -/
def numberTail (t : Bytes) : Bytes := t.dropWhile fun b => !isKeyStart b && b != ch '.'

/-- The number ends in letters and digits that the loop takes for a word. -/
def endsInLetters (t : Bytes) : Bool := !(numberTail t).isEmpty && (numberTail t).all isKeyPart

lemma number_bytes (b : UInt8) (hb : isNumberByte b) :
    isQuote b = false ∧ isOpener b = false ∧ isCloser b = false ∧ b ≠ ch ',' ∧
      (b ≠ ch '.' → isFiller b) ∧ (isKeyPart b = false → isKeySpace b = false ∧ isSilent b) := by
  revert b
  decide +kernel

lemma balanced_number (h : ∀ b ∈ s, isNumberByte b) : Balanced false s := by
  induction s with
  | nil => exact .nil
  | cons b s ih =>
    obtain ⟨hquote, hopen, hclose, hcomma, -⟩ := number_bytes b (h b (.head _))
    exact .byte hquote hopen hclose (fun e => absurd e hcomma) (ih fun c hc => h c (.tail _ hc))

lemma digit_classes (b : UInt8) (hb : (ch '0' ≤ b && b ≤ ch '9') || b == ch '.') :
    isKeySpace b = false ∧ isSilent b ∧ (b = ch '.' → isKeyPart b = false) := by
  revert b
  decide +kernel

lemma isNumeric_bytes (h : isNumeric s) :
    (∃ b u, s = b :: u ∧ ((ch '0' ≤ b && b ≤ ch '9') || b == ch '.')) ∧
      ∀ b ∈ s, isNumberByte b := by
  rw [isNumeric, Bool.and_eq_true] at h
  refine ⟨?_, all_eq_true.mp h.2⟩
  cases s with
  | nil => simp at h
  | cons b u => exact ⟨b, u, rfl, h.1⟩

/-- The letters of a number, if it has any, are not taken for a name. -/
lemma Finds.numberTail (hs : ∀ b ∈ s, isNumberByte b) (hstart : s.head?.any isKeyStart)
    (hquiet : s.all isKeyPart → g.isCommon = false) (h : Finds 1 false (g.text ++ d :: t) keys)
    (hd : isKeyPart d = false) : Finds 1 true (s ++ (g.text ++ d :: t)) keys := by
  have hw : Word (s.takeWhile isKeyPart) := by
    refine ⟨fun b hb => mem_takeWhile_imp hb, ?_⟩
    cases s with
    | nil => simp at hstart
    | cons b s =>
      have hb : isKeyStart b := by simpa using hstart
      simp [isKeyPart, hb]
  have hrest :=
    h.expr (balanced_number fun b hb => hs b (dropWhile_subset isKeyPart hb)) le_rfl (by simp)
  rw [← takeWhile_append_dropWhile (p := isKeyPart) (l := s), append_assoc]
  cases htail : s.dropWhile isKeyPart with
  | nil =>
    obtain ⟨c, hhead, hc⟩ :=
      gap_silent (hquiet (by simpa using dropWhile_eq_nil_iff.mp htail)) (d :: t)
    exact .silent hw (endsWord_gap g (by simpa [EndsWord] using hd)) hhead hc h
  | cons c u =>
    have hpart : isKeyPart c = false := by
      simpa [htail] using head?_dropWhile_not isKeyPart s
    have hc : c ∈ s := dropWhile_subset isKeyPart (htail ▸ .head _)
    obtain ⟨hspace, hsilent⟩ := (number_bytes c (hs c hc)).2.2.2.2.2 hpart
    rw [htail] at hrest
    refine .silent hw (by simpa [EndsWord] using hpart) ?_ hsilent hrest
    rw [cons_append, dropWhile_cons_of_neg (by simp [hspace])]
    rfl

lemma Finds.number (hs : ∀ b ∈ s, isNumberByte b) (hquiet : endsInLetters s → g.isCommon = false)
    (htrue : Cjs.numberTail s = [] → Finds 1 true (g.text ++ d :: t) keys)
    (hfalse : Finds 1 false (g.text ++ d :: t) keys) (hd : isKeyPart d = false) :
    Finds 1 true (s ++ (g.text ++ d :: t)) keys := by
  have hsub : Cjs.numberTail s ⊆ s := dropWhile_subset _
  rw [← takeWhile_append_dropWhile (p := fun b => !isKeyStart b && b != ch '.') (l := s),
    append_assoc]
  refine .fillers (fun b hb => ?_) ?_
  · have hb' := mem_takeWhile_imp hb
    simp only [Bool.and_eq_true, Bool.not_eq_true', bne_iff_ne] at hb'
    exact ⟨(number_bytes b (hs b (takeWhile_subset _ hb))).2.2.2.2.1 hb'.2, hb'.1⟩
  change Finds 1 true (Cjs.numberTail s ++ _) keys
  cases htail : Cjs.numberTail s with
  | nil => exact htrue htail
  | cons c u =>
    have hc : isKeyStart c ∨ c = ch '.' := by
      have := head?_dropWhile_not (fun b => !isKeyStart b && b != ch '.') s
      rw [Cjs.numberTail] at htail
      simpa [htail, imp_iff_not_or] using this
    have hall : ∀ b ∈ c :: u, isNumberByte b := fun b hb => hs b (hsub (htail ▸ hb))
    rcases hc with hc | rfl
    · refine .numberTail hall (by simpa using hc) (fun hparts => hquiet ?_) hfalse hd
      simpa [endsInLetters, htail] using hparts
    · exact .dot (.expr (balanced_number fun b hb => hall b (.tail _ hb)) le_rfl (by simp) hfalse)

/-! ### What the loop does not know -/

/-- The things in an object literal that make the loop miss a name or find one too many. -/
inductive KeyHazard where
  | numberKey
  | wideName
  | escapedKey
  /-- White space other than space, tab, line feed and carriage return, after a name or modifier. -/
  | otherSpace

/-- The flag is up after the modifier, before a name that is not a word. -/
def keepsFlag : Modifier → Bool
  | .none | .generator _ => true
  | .asyncGenerator gap _ => gap.isCommon
  | .get _ | .set _ | .async _ => false

def KeyHazard.shows (f : KeyHazard) (p : PropertyDef) : Bool :=
  match f, p with
  | .numberKey, .pair (.number t _) gap _ =>
    (numberTail t).isEmpty || (endsInLetters t && gap.isCommon)
  | .numberKey, .method m (.number t _) _ gap .. => keepsFlag m && endsInLetters t && gap.isCommon
  | .wideName, .shorthand n _ | .wideName, .pair (.ident n) ..
  | .wideName, .method _ (.ident n) .. => !n.isAscii
  | .escapedKey, .pair (.string k) .. => !k.isVerbatim
  | .otherSpace, .shorthand _ gap | .otherSpace, .pair (.ident _) gap _
  | .otherSpace, .pair (.string _) gap _ => !gap.isCommon
  | .otherSpace, .method m (.ident _) _ gap .. => !(m.wordGap.isCommon && gap.isCommon)
  | _, _ => false

/-! ### Properties -/

lemma word_of_isAscii {n : Identifier} (h : n.isAscii) : Word n.text ∧ n.name = n.text := by
  have hstart (b : UInt8) : isIdentStart b → isKeyStart b := (key_classes b).2
  have hpart (b : UInt8) (hb : isIdentPart b) : isKeyPart b := by
    simp only [isIdentPart, isKeyPart, Bool.or_eq_true] at hb ⊢
    exact hb.imp_left (hstart b)
  obtain ⟨parts, hstarts⟩ := n
  have hall := all_eq_true.mp h
  refine ⟨⟨fun b hb => ?_, ?_⟩, flatMap_congr fun p hp => ?_⟩
  · obtain ⟨p, hp, hbp⟩ := mem_flatMap.mp hb
    have hp := hall p hp
    cases p with
    | ascii c hc => rw [mem_singleton.mp hbp]; exact hpart c hc
    | wide | escape => simp [IdentPart.isAscii] at hp
  · cases parts with
    | nil => simp at hstarts
    | cons p parts =>
      have hp := hall p (.head _)
      cases p with
      | ascii c hc =>
        have hc : isIdentStart c := by simpa [IdentPart.isStart] using hstarts
        simpa [Identifier.text, IdentPart.text] using hstart c hc
      | wide | escape => simp [IdentPart.isAscii] at hp
  · have hp := hall p hp
    cases p with
    | ascii => rfl
    | wide | escape => simp [IdentPart.isAscii] at hp

lemma name_of_isVerbatim {k : StringKey} (h : k.isVerbatim) : k.name = k.body := by
  refine flatMap_congr fun p hp => ?_
  have hp := all_eq_true.mp h p hp
  cases p with
  | byte => rfl
  | single | hex | code | continuation => simp [StringPart.isByte] at hp

lemma Finds.value (value : ExprText false) (gap : Gap)
    (h : Finds 1 false t keys) : Finds 1 false (gap.text ++ ch ':' :: (value.text ++ t)) keys :=
  .gap gap (.filler (.expr value.balanced le_rfl (by simp) h) (by decide) (by simp))

lemma Finds.computed (e : ExprText true)
    (h : Finds 1 false t keys) : Finds 1 flag (ch '[' :: (e.text ++ ch ']' :: t)) keys :=
  .opener rfl (.expr e.balanced (by omega) (by omega) (.closer rfl le_rfl h))

def methodTail (params : ExprText true) (between : Gap) (body : ExprText true) (after : Gap)
    (t : Bytes) : Bytes :=
  ch '(' ::
    (params.text ++ ch ')' :: (between.text ++ 123 :: (body.text ++ 125 :: (after.text ++ t))))

lemma Finds.methodTail (params : ExprText true) (between : Gap) (body : ExprText true) (after : Gap)
    (h : Finds 1 false t keys) :
    Finds 1 flag (methodTail params between body after t) keys :=
  have hbody : Finds 1 false (123 :: (body.text ++ 125 :: (after.text ++ t))) keys :=
    .opener rfl (.expr body.balanced (by omega) (by omega) (.closer rfl le_rfl (.gap after h)))
  .opener rfl (.expr params.balanced (by omega) (by omega)
    (.closer rfl le_rfl (.gap between hbody)))

lemma Finds.methodString (k : StringKey) (gap : Gap)
    (h : Finds 1 flag (ch '(' :: s) keys) :
    Finds 1 flag (k.quote :: (k.body ++ k.quote :: (gap.text ++ ch '(' :: s))) keys := by
  refine .string k.isQuote k.quoted (fun _ _ hcolon => ?_) (.gap gap h)
  by_cases hg : gap.isCommon
  · rw [head_gap hg rfl, Option.some.injEq] at hcolon
    exact absurd hcolon (by decide)
  · obtain ⟨c, hc, hsilent⟩ := gap_silent (by simpa using hg) (ch '(' :: s)
    rw [hc] at hcolon
    cases hcolon
    exact absurd hsilent (by decide)

def modifierWords : List Bytes := [str "get", str "set", str "async"]

lemma word_of_mem (h : w ∈ modifierWords) : Word w := by
  have hall : ∀ w ∈ modifierWords, w.all isKeyPart ∧ w.head?.any isKeyStart := by decide
  exact ⟨all_eq_true.mp (hall w h).1, (hall w h).2⟩

lemma isModifier_of_mem (h : w ∈ modifierWords) (hd : isModifier.isModified d) :
    isModifier w (some d) := by
  simp only [modifierWords, mem_cons, not_mem_nil, or_false] at h
  simp only [isModifier, hd, Bool.and_true, Bool.true_or, Bool.or_eq_true, beq_iff_eq]
  tauto

lemma Finds.modifierIdent (hw : w ∈ modifierWords) (hg : g.isCommon) (hne : g ≠ [])
    {n : Bytes} (hn : Word n) (h : Finds 1 true (n ++ t) keys) :
    Finds 1 true (w ++ (g.text ++ (n ++ t))) keys := by
  have hstart := hn.start
  cases n with
  | nil => simp at hstart
  | cons d n =>
    have hd : isKeyStart d := by simpa using hstart
    obtain ⟨-, -, -, -, hspace, hmodified⟩ := (key_classes d).1 hd
    have hdrop : (g.text ++ (d :: n ++ t)).dropWhile isKeySpace = d :: n ++ t := by
      rw [dropWhile_gap hg, cons_append, dropWhile_cons_of_neg (by simp [hspace])]
    have hends : EndsWord (g.text ++ (d :: n ++ t)) := endsWord_of_ne_nil hne _
    refine .modifier (word_of_mem hw) hends ?_ (by rwa [hdrop])
    rw [hdrop]
    exact isModifier_of_mem hw hmodified

lemma Finds.star (g : Gap) (h : Finds 1 flag t keys) :
    Finds 1 flag (ch '*' :: (g.text ++ t)) keys :=
  .filler (.gap g h) (by decide) fun _ _ => by decide

lemma reads_method_ident {m : Modifier} {n : Bytes} (hn : Word n) (hword : m.endsInWord = false)
    (hgap : m.wordGap.isCommon) (h : Finds 1 true (n ++ s) keys) :
    Finds 1 true (m.text ++ (n ++ s)) keys := by
  cases m with
  | none => exact h
  | generator g => exact .star g h
  | get g | set g | async g =>
    have hne : g ≠ [] := by
      rintro rfl
      simp [Modifier.endsInWord] at hword
    rw [Modifier.text, append_assoc]
    exact .modifierIdent (by simp [modifierWords]) hgap hne hn h
  | asyncGenerator g star =>
    have hstar : (g.text ++ ch '*' :: (star.text ++ (n ++ s))).dropWhile isKeySpace =
        ch '*' :: (star.text ++ (n ++ s)) := by
      have hgap : g.isCommon := hgap
      rw [dropWhile_gap hgap, dropWhile_cons_of_neg (by decide)]
    rw [Modifier.text, append_assoc, append_assoc, cons_append]
    refine .modifier (word_of_mem (by simp [modifierWords])) (endsWord_gap g rfl) ?_ ?_
    · rw [hstar]
      rfl
    · rw [hstar]
      exact .star star h

lemma reads_method_silent (m : Modifier) (hspace : isKeySpace d = false)
    (hpart : m.endsInWord = false ∨ isKeyPart d = false) (hsilent : isSilent d)
    (htrue : keepsFlag m → Finds 1 true (d :: s) keys) (hfalse : Finds 1 false (d :: s) keys) :
    Finds 1 true (m.text ++ (d :: s)) keys := by
  cases m with
  | none => exact htrue rfl
  | generator g => exact .star g (htrue rfl)
  | get g | set g | async g =>
    have hends : EndsWord (g.text ++ d :: s) := by
      cases g with
      | nil => simpa [Modifier.endsInWord, EndsWord, Gap.text] using hpart
      | cons => exact endsWord_of_ne_nil (by simp) _
    rw [Modifier.text, append_assoc]
    refine .word_gap (word_of_mem (by simp [modifierWords])) g hspace hends (.inr hsilent) ?_ hfalse
    intro _ hmod
    rw [isModifier_sign _ ((isSilent_iff d).mp hsilent).1] at hmod
    simp at hmod
  | asyncGenerator g star =>
    rw [Modifier.text, append_assoc, append_assoc, cons_append]
    exact .word_gap (word_of_mem (by simp [modifierWords])) g rfl (endsWord_gap g rfl) (.inl rfl)
      (fun hg _ => .star star (htrue hg)) (.star star hfalse)

lemma reads_method {p : PropertyDef} {m : Modifier} {key : PropertyName}
    {apart : m.endsInWord = false ∨ key.isWord = false} {gap between after : Gap}
    {params body : ExprText true} (hmethod : p = .method m key apart gap params between body after)
    (hp : ∀ f : KeyHazard, f.shows p = false) (h : Finds 1 false (d :: t) keys) :
    Finds 1 true (p.text ++ d :: t) (p.names ++ keys) := by
  subst hmethod
  have htail (flag : Bool) :
      Finds 1 flag (Cjs.methodTail params between body after (d :: t)) keys :=
    .methodTail params between body after h
  have htext : (PropertyDef.method m key apart gap params between body after).text ++ d :: t =
      m.text ++ (key.text ++
        (gap.text ++ Cjs.methodTail params between body after (d :: t))) := by
    simp only [PropertyDef.text, Cjs.methodTail, append_assoc, cons_append]
  rw [htext]
  cases key with
  | ident n =>
    have hascii : n.isAscii := by simpa [KeyHazard.shows] using hp .wideName
    have hgaps : m.wordGap.isCommon ∧ gap.isCommon := by
      simpa [KeyHazard.shows] using hp .otherSpace
    obtain ⟨hw, hname⟩ := word_of_isAscii hascii
    rw [PropertyDef.names, hname]
    refine reads_method_ident hw (by simpa [PropertyName.isWord] using apart) hgaps.1 ?_
    exact .key hw (endsWord_gap gap rfl) (head_gap hgaps.2 rfl _) (.inr (.inl rfl))
      (.gap gap (htail false))
  | number n hn =>
    have hquiet : keepsFlag m → endsInLetters n → gap.isCommon = false := by
      simpa [KeyHazard.shows] using hp .numberKey
    obtain ⟨⟨c, u, rfl, hdigit⟩, hbytes⟩ := isNumeric_bytes hn
    obtain ⟨hspace, hsilent, hword⟩ := digit_classes c hdigit
    have hfalse :
        Finds 1 false (gap.text ++ Cjs.methodTail params between body after (d :: t)) keys :=
      .gap gap (htail false)
    refine reads_method_silent m hspace (apart.imp_right fun hc => ?_) hsilent (fun hm => ?_)
      (.expr (balanced_number hbytes) le_rfl (by simp) hfalse)
    · exact hword (by simpa [PropertyName.isWord] using hc)
    · exact .number hbytes (hquiet hm) (fun _ => .gap gap (htail true)) hfalse rfl
  | string k =>
    have hquote : ∀ q : UInt8, isQuote q →
        isKeySpace q = false ∧ isKeyPart q = false ∧ isSilent q := by
      decide +kernel
    obtain ⟨hspace, hpart, hsilent⟩ := hquote k.quote k.isQuote
    show Finds 1 true _ keys
    rw [PropertyName.text, cons_append, append_assoc, singleton_append]
    exact reads_method_silent m hspace (.inr hpart) hsilent
      (fun _ => .methodString k gap (htail true)) (.methodString k gap (htail false))
  | computed e =>
    show Finds 1 true _ keys
    rw [PropertyName.text, cons_append, append_assoc, singleton_append]
    have htail := Finds.gap gap (htail false)
    exact reads_method_silent m rfl (.inr rfl) rfl (fun _ => .computed e htail)
      (.computed e htail)

lemma reads_property {p : PropertyDef} (hp : ∀ f : KeyHazard, f.shows p = false)
    (hd : d = ch ',' ∨ d = 125) (h : Finds 1 false (d :: t) keys) :
    Finds 1 true (p.text ++ d :: t) (p.names ++ keys) := by
  have hends : EndsWord (d :: t) := by rcases hd with rfl | rfl <;> rfl
  have hspace : isKeySpace d = false := by rcases hd with rfl | rfl <;> rfl
  cases p with
  | shorthand n gap =>
    have hascii : n.isAscii := by simpa [KeyHazard.shows] using hp .wideName
    have hgap : gap.isCommon := by simpa [KeyHazard.shows] using hp .otherSpace
    obtain ⟨hw, hname⟩ := word_of_isAscii hascii
    rw [PropertyDef.text, PropertyDef.names, append_assoc, hname]
    exact .key hw (endsWord_gap gap hends) (head_gap hgap hspace t) (by tauto) (.gap gap h)
  | spread value =>
    show Finds 1 true _ keys
    rw [PropertyDef.text, append_assoc]
    exact .dot (.dot (.dot (.expr value.balanced le_rfl (by simp) h)))
  | pair key gap value =>
    have hvalue := Finds.value value gap h
    rw [PropertyDef.text, append_assoc, append_assoc, cons_append]
    cases key with
    | ident n =>
      have hascii : n.isAscii := by simpa [KeyHazard.shows] using hp .wideName
      have hgap : gap.isCommon := by simpa [KeyHazard.shows] using hp .otherSpace
      obtain ⟨hw, hname⟩ := word_of_isAscii hascii
      rw [PropertyDef.names, PropertyName.text, hname]
      exact .key hw (endsWord_gap gap rfl) (head_gap hgap rfl _) (.inl rfl) hvalue
    | string k =>
      have hverbatim : k.isVerbatim := by simpa [KeyHazard.shows] using hp .escapedKey
      have hgap : gap.isCommon := by simpa [KeyHazard.shows] using hp .otherSpace
      rw [PropertyDef.names, PropertyName.text, name_of_isVerbatim hverbatim, cons_append,
        append_assoc, singleton_append]
      exact .stringKey k.isQuote k.quoted (head_gap hgap rfl _) hvalue
    | number n hn =>
      obtain ⟨hne, hquiet⟩ : numberTail n ≠ [] ∧ (endsInLetters n → gap.isCommon = false) := by
        simpa [KeyHazard.shows] using hp .numberKey
      exact .number (isNumeric_bytes hn).2 hquiet (fun e => absurd e hne) hvalue rfl
    | computed e =>
      show Finds 1 true _ keys
      rw [PropertyName.text, cons_append, append_assoc, singleton_append]
      exact .computed e hvalue
  | method => exact reads_method rfl hp h

/-! ### Object literals -/

/-- The hazards a literal has. -/
def KeyHazard.absent (f : KeyHazard) (l : ObjectLiteral) : Prop := ∀ p ∈ l.all, f.shows p = false

lemma reads_props {ps : List (Gap × PropertyDef)}
    (hps : ∀ p ∈ ps, ∀ f : KeyHazard, f.shows p.2 = false)
    (h : Finds 1 true t keys) :
    Finds 1 true (ps.flatMap (fun p => p.1.text ++ p.2.text ++ [ch ',']) ++ t)
      ((ps.map Prod.snd).flatMap PropertyDef.names ++ keys) := by
  induction ps with
  | nil => exact h
  | cons p ps ih =>
    have hrest := ih fun q hq => hps q (.tail _ hq)
    rw [flatMap_cons, map_cons, flatMap_cons, append_assoc, append_assoc,
      append_assoc, append_assoc, singleton_append]
    exact .gap p.1 (reads_property (hps p (.head _)) (.inl rfl) hrest.comma)

lemma objectLiteralKeys_eq {l : ObjectLiteral} (h : ∀ f : KeyHazard, f.absent l) (rest : Bytes) :
    objectLiteralKeys (l.text ++ rest) = l.names := by
  have hprops : ∀ p ∈ l.props, ∀ f : KeyHazard, f.shows p.2 = false := fun p hp f =>
    h f p.2 (mem_append_left _ (mem_map_of_mem hp))
  have hlast : Finds 1 true (l.last.toList.flatMap PropertyDef.text ++ 125 :: rest)
      (l.last.toList.flatMap PropertyDef.names) := by
    cases hl : l.last with
    | none => exact .closer_last rfl
    | some p =>
      have hp : ∀ f : KeyHazard, f.shows p = false := fun f =>
        h f p (mem_append_right _ (by simp [hl]))
      simpa using reads_property hp (.inr rfl) (.closer_last rfl)
  have hopen : Finds 0 true (l.text ++ rest) l.names := by
    rw [ObjectLiteral.text, ObjectLiteral.names, ObjectLiteral.all, flatMap_append, cons_append,
      append_assoc, append_assoc, append_assoc, singleton_append]
    exact .opener rfl (reads_props hprops (.gap l.gap hlast))
  exact hopen _ le_rfl

/-! ### The hazards are real -/

/-- The name `b`. -/
def nameB : Identifier where
  parts := [.ascii (ch 'b') (by decide)]
  starts := by decide

/-- The value `a`. -/
def valueA : ExprText false where
  text := str "a"
  balanced := .byte rfl rfl rfl (by decide) .nil

def KeyHazard.sample (f : KeyHazard) : ObjectLiteral where
  props := []
  gap := []
  last := some <| match f with
    | .numberKey => .pair (.number (str "1") (by decide)) [] valueA
    | .wideName => .pair (.ident ⟨[.wide 'é' (by decide)], rfl⟩) [] valueA
    | .escapedKey =>
      .pair (.string ⟨39, rfl, [.hex (str "62")],
        .escape (.byte (by decide) (by decide) (.byte (by decide) (by decide) .nil))⟩) [] valueA
    | .otherSpace => .shorthand nameB [.other [11] (by decide)]

lemma key_sample_fails (f : KeyHazard) : (∀ g, g ≠ f → g.absent f.sample) ∧
    objectLiteralKeys f.sample.text ≠ f.sample.names := by
  refine ⟨fun g hg p hp => ?_, ?_⟩
  · obtain rfl := mem_singleton.mp hp
    cases f <;> cases g <;> first | exact absurd rfl hg | rfl
  · cases f <;> decide +kernel

/-- The keys are the names on all literals with certain hazards only if and only if there are no
such kinds. -/
theorem objectLiteralKeys_exact_iff (F : Set KeyHazard) :
    (∀ (l : ObjectLiteral) (rest : Bytes), (∀ f ∉ F, f.absent l) →
      objectLiteralKeys (l.text ++ rest) = l.names) ↔ F = ∅ := by
  constructor
  · intro h
    refine Set.eq_empty_of_forall_notMem fun f hf => ?_
    obtain ⟨hothers, hne⟩ := key_sample_fails f
    have hkeys := h f.sample [] fun g hg => hothers g fun e => hg (e ▸ hf)
    exact hne (by rwa [append_nil] at hkeys)
  · rintro rfl l rest h
    exact objectLiteralKeys_eq (fun f => h f (Set.notMem_empty f)) rest

/-- The literal `1: a, b: 2` in braces. -/
def numbered : ObjectLiteral where
  props := [([], .pair (.number (str "1") (by decide)) []
    ⟨str " a", .byte rfl rfl rfl (by decide) valueA.balanced⟩)]
  gap := [.common 32 (by decide)]
  last := some (.pair (.ident nameB) []
    ⟨str " 2", .byte rfl rfl rfl (by decide) (.byte rfl rfl rfl (by decide) .nil)⟩)

/-- The value of a number key is taken for a key. -/
theorem number_key_adds_name :
    numbered.text = str "\x7b1: a, b: 2\x7d" ∧ numbered.names = [str "b"] ∧
      objectLiteralKeys numbered.text = [str "a", str "b"] := by
  decide +kernel

end GoSpidermonkey.Nodejs.Cjs
