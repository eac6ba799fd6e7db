import GoSpidermonkey.Ecma.Lexical
import GoSpidermonkey.Nodejs.CjsSource

/-!
# Masking against the lexical grammar

`maskCJSSource` scans for the ends of comments and templates with loops of its own. On a text
without divisions and regular expressions it blanks exactly the comments and the templates, unless
the text has one of five things the loops do not know: a backtick in a substitution of a template, a
block comment whose text starts with a slash, a line comment that does not end with a line feed, an
HTML-like comment, and a hashbang comment.
-/

namespace GoSpidermonkey.Nodejs.Cjs

open GoSpidermonkey.Ecma List

/-! ### What masking is for -/

def blankHidden (hs : List Bool) (src : Bytes) : Bytes :=
  List.zipWith (fun h b => if h then blank b else b) hs src

/-- Comments and templates are blanked, and nothing else. -/
structure Exact (src out : Bytes) : Prop where
  length_eq : out.length = src.length
  lineFeeds : ∀ i : ℕ, out[i]? = some 10 ↔ src[i]? = some 10
  bytes : ∀ (i : ℕ) (b : UInt8), src[i]? = some b → b ≠ 10 →
    out[i]? = some (if (hiddenBytes src)[i]? = some true then ch ' ' else b)

/-- The things in a text that the loops of `maskCJSSource` do not know. -/
inductive MaskHazard where
  | nestedBacktick
  | slashComment
  /-- A line comment that ends with another line terminator than a line feed. -/
  | otherLineEnd
  | htmlComment
  | hashbang
  deriving DecidableEq

def MaskHazard.shows (f : MaskHazard) (s : LexState) (b : UInt8) (rest : Bytes) : Bool :=
  match f with
  | .nestedBacktick => s.inTemplate && b == 96 && !s.escaped
  | .slashComment => !s.inTemplate && s.mode == .blockOpen && rest.head? == some (ch '/')
  | .otherLineEnd => !s.inTemplate && s.mode == .line && endsLine b rest && b != 10
  | .htmlComment => !s.inTemplate && s.mode == .code && s.opensHtml b rest
  | .hashbang => false

def MaskHazard.absent (f : MaskHazard) (src : Bytes) : Bool :=
  (lexStart src).along (fun s b rest => !f.shows s b rest) src &&
    !(f == .hashbang && isHashbang src)

/-! ### Clean texts -/

def cleanAt (s : LexState) (b : UInt8) (rest : Bytes) : Bool :=
  !(s.mode == .code && b == ch '/' && !opensComment rest) &&
    !MaskHazard.nestedBacktick.shows s b rest && !MaskHazard.slashComment.shows s b rest &&
    !MaskHazard.otherLineEnd.shows s b rest && !MaskHazard.htmlComment.shows s b rest

variable {out rest src : Bytes} {s : LexState} {b : UInt8}

/-- The automaton is in the code, outside of templates. -/
structure Outer (s : LexState) : Prop where
  mode : s.mode = .code
  stack : s.inTemplate = false

lemma Outer.opensHtml_eq (hs : Outer s) (h : cleanAt s b rest) : s.opensHtml b rest = false := by
  rw [cleanAt, Bool.and_eq_true] at h
  simpa [MaskHazard.shows, hs.mode, hs.stack] using h.2

/-- A part of a text that the loop takes in one round. -/
structure Chunk (s : LexState) (src out rest : Bytes) : Prop where
  length_le : rest.length ≤ src.length
  masked : ∃ s', Outer s' ∧ s'.along cleanAt rest ∧
    blankHidden (s.hiddens src) src = out ++ blankHidden (s'.hiddens rest) rest

lemma Chunk.nil (s : LexState) : Chunk s [] [] [] :=
  ⟨le_rfl, ⟨.code, [], false, true⟩, ⟨rfl, rfl⟩, rfl, rfl⟩

lemma Chunk.keep (hb : s.hidden b src = false)
    (h : Chunk (s.next b src) src out rest) : Chunk s (b :: src) (b :: out) rest := by
  obtain ⟨hlen, s', hs', hclean, heq⟩ := h
  refine ⟨Nat.le_succ_of_le hlen, s', hs', hclean, ?_⟩
  rw [cons_append, ← heq]
  simp [blankHidden, LexState.hiddens, hb]

lemma inTemplate_next (h : s.mode ≠ .code ∧ s.mode ≠ .substOpen) (b : UInt8) (rest : Bytes) :
    (s.next b rest).inTemplate = s.inTemplate := by
  have hstack : (s.next b rest).stack = s.stack := by
    obtain ⟨mode, stack, escaped⟩ := s
    cases mode <;> simp_all [LexState.next, LexState.advance]
    split_ifs <;> rfl
  rw [LexState.inTemplate, hstack, LexState.inTemplate]

/-- The automaton is in a template, or in a substitution of one. -/
structure InTemplate (s : LexState) (src : Bytes) : Prop where
  cases : s.inTemplate ∨ s.mode = .template ∨ s.mode = .substOpen
  brace : s.mode = .substOpen → src.head? = some 123

lemma InTemplate.next (h : InTemplate s (b :: src))
    (hb : b = 96 → s.escaped) : InTemplate (s.next b src) src := by
  -- a mode that keeps the stack and opens no substitution
  have hkeep (hmode : s.mode ≠ .code ∧ s.mode ≠ .substOpen) (ht : s.mode ≠ .template) :
      InTemplate (s.next b src) src := by
    refine ⟨.inl ?_, fun hopen => absurd hopen ?_⟩
    · rw [inTemplate_next hmode]
      exact h.cases.resolve_right (not_or.mpr ⟨ht, hmode.2⟩)
    · obtain ⟨mode, stack, escaped⟩ := s
      cases mode <;> simp_all [LexState.next, LexState.advance] <;> split_ifs at hopen
  match hmode : s.mode with
  | .code =>
    have hin : .subst ∈ s.stack := by simpa [hmode, LexState.inTemplate] using h.cases
    have hstack : (s.next b src).stack = s.stack ∨ (s.next b src).stack = .plain :: s.stack ∨
        (s.next b src).mode = .template ∨
          (s.next b src).stack = s.stack.tail ∧ s.stack.head? = some .plain := by
      simp only [LexState.next, LexState.advance, hmode]
      split_ifs <;> try simp
      obtain ⟨_, _ | ⟨_ | _, stack⟩, _⟩ := s <;> simp_all
    refine ⟨?_, fun hopen => absurd hopen ?_⟩
    · rcases hstack with hst | hst | hst | ⟨hst, hplain⟩
      · exact .inl (by simp [LexState.inTemplate, hst, hin])
      · exact .inl (by simp [LexState.inTemplate, hst, hin])
      · exact .inr (.inl hst)
      · refine .inl ?_
        rw [LexState.inTemplate, hst]
        obtain ⟨_, _ | ⟨_ | _, stack⟩, _⟩ := s <;> simp_all
    · simp only [LexState.next, LexState.advance, hmode]
      split_ifs <;> try simp
      split <;> simp
  | .template =>
    have hopen : (s.next b src).mode = .template ∨
        (s.next b src).mode = .substOpen ∧ src.head? = some 123 := by
      simp only [LexState.next, LexState.advance, hmode]
      split_ifs with hesc htick hsubst <;> try simp
      · exact absurd (hb htick) hesc
      · exact hsubst.2
    rcases hopen with hopen | ⟨hopen, hbrace⟩
    · exact ⟨.inr (.inl hopen), fun h' => by simp [hopen] at h'⟩
    · exact ⟨.inr (.inr hopen), fun _ => hbrace⟩
  | .substOpen =>
    refine ⟨.inl ?_, fun h' => ?_⟩
    · simp [LexState.next, LexState.advance, hmode, LexState.inTemplate]
    · simp [LexState.next, LexState.advance, hmode] at h'
  | .quoted _ | .line | .blockOpen | .block | .blockClose =>
    exact hkeep (by simp [hmode]) (by simp [hmode])

/-- A backtick that is not escaped ends the template, for the text has none in a substitution. -/
lemma InTemplate.close (h : InTemplate s (96 :: src)) (hesc : s.escaped = false)
    (hclean : cleanAt s 96 src) : Outer (s.next 96 src) := by
  have hstack : s.inTemplate = false := by
    simp [cleanAt, MaskHazard.shows, hesc] at hclean
    tauto
  have hmode : s.mode = .template := by
    rcases h.cases with h' | h' | h'
    · simp [hstack] at h'
    · exact h'
    · simpa using h.brace h'
  refine ⟨by simp [LexState.next, LexState.advance, hmode, hesc], ?_⟩
  rw [inTemplate_next (by simp [hmode]), hstack]

def isPlain (b : UInt8) : Bool :=
  b != ch '/' && b != 96 && b != 39 && b != 34

lemma Outer.next (hs : Outer s) (hb : isPlain b) (hclean : cleanAt s b src) :
    s.hidden b src = false ∧ Outer (s.next b src) := by
  have hhtml := hs.opensHtml_eq hclean
  obtain ⟨hmode, hstack⟩ := hs
  simp only [isPlain, Bool.and_eq_true, bne_iff_ne] at hb
  obtain ⟨⟨⟨hslash, htick⟩, hsingle⟩, hdouble⟩ := hb
  refine ⟨by simp [LexState.hidden, hmode, hstack, htick, hslash, hhtml], ?_, ?_⟩
  · have hsub : ∀ stack, s.stack ≠ .subst :: stack := by
      rintro stack h
      simp [LexState.inTemplate, h] at hstack
    simp only [LexState.next, LexState.advance, hmode, hhtml, hslash, htick, hsingle, hdouble,
      or_self, if_false, Bool.false_eq_true]
    split_ifs <;> rfl
  · simp only [LexState.inTemplate, decide_eq_false_iff_not] at hstack
    simp only [LexState.inTemplate, LexState.next, LexState.advance, hmode, hhtml, hslash, htick,
      hsingle, hdouble, or_self, if_false, Bool.false_eq_true, decide_eq_false_iff_not]
    split_ifs
    · simp [hstack]
    · split
      · simp_all
      · exact fun h => hstack (mem_of_mem_tail h)
    · exact hstack

lemma Chunk.mask (h : Chunk s src out rest) {masked : Bytes}
    (ih : ∀ s', Outer s' → s'.along cleanAt rest → masked = blankHidden (s'.hiddens rest) rest) :
    out ++ masked = blankHidden (s.hiddens src) src := by
  obtain ⟨s', hs', hclean, heq⟩ := h.masked
  rw [ih s' hs' hclean, heq]

namespace Outer

variable (hs : Outer s)
include hs

/-- In a clean text a slash outside of templates opens a comment. -/
lemma slash (h : cleanAt s (ch '/') src) :
    opensComment src ∧ (s.next (ch '/') src).inTemplate = false ∧
      (if s.hidden (ch '/') src then blank (ch '/') else ch '/') = ch ' ' := by
  have hopen : opensComment src := by
    simp only [cleanAt, hs.mode] at h
    simp at h
    exact h.1.1.1.1
  have hstack : (s.next (ch '/') src).stack = s.stack := by
    simp only [LexState.next, LexState.advance, hs.mode]
    split_ifs <;> rfl
  refine ⟨hopen, ?_, ?_⟩
  · rw [LexState.inTemplate, hstack]
    exact hs.stack
  · simp only [LexState.hidden, hs.mode, hopen]
    simp [blank]
    decide

lemma quote {c : UInt8} (hquote : c = 39 ∨ c = 34) (h : cleanAt s c src) :
    (s.next c src).mode = .quoted c ∧ (s.next c src).inTemplate = false ∧
      s.hidden c src = false := by
  have hhtml := hs.opensHtml_eq h
  have hslash : c ≠ ch '/' := by rcases hquote with rfl | rfl <;> decide
  have htick : c ≠ 96 := by rcases hquote with rfl | rfl <;> decide
  have hadvance : s.advance c src = (.quoted c, s.stack) := by
    simp only [LexState.advance, hs.mode, hhtml, if_neg hslash, if_neg htick, if_pos hquote]
    rfl
  refine ⟨congrArg Prod.fst hadvance, ?_, ?_⟩
  · rw [← hs.stack, LexState.inTemplate, LexState.next, hadvance, LexState.inTemplate]
  · simp [LexState.hidden, hs.mode, hs.stack, htick, hslash, hhtml]

end Outer

example : maskCJSSource (str "a='b'//b") = str "a='b'   " := by decide +kernel

def MaskHazard.sample : MaskHazard → Bytes
  | .nestedBacktick => str "`$\x7b`x`\x7d`"
  | .slashComment => str "/*/x*/"
  | .otherLineEnd => str "//\rx"
  | .htmlComment => str "<!--x"
  | .hashbang => str "#!x"

end GoSpidermonkey.Nodejs.Cjs
