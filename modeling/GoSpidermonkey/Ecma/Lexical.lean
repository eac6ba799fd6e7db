import GoSpidermonkey.Go.Bytes

/-!
# The lexical grammar of ECMAScript

Which bytes of a script stand in comments and in template literals, for a text without divisions and
regular expression literals. A pushdown automaton reads the text byte by byte and looks at the bytes
that follow; its stack holds the braces that are open, so that it knows which `}` ends a
substitution of a template. A string literal is read without a look at its line ends: a text with a
line end in it is not valid. The comments of a script include the HTML-like ones of the annex:
`<!--` opens one everywhere in the code, and `-->` where the line has only white space and comments
before it.
-/

namespace GoSpidermonkey.Ecma

/-! ### White space -/

def commonSpaces : List UInt8 := [32, 9, 10, 13]

/-- The other white space and line terminators: vertical tab, form feed, and those outside ASCII. -/
def otherSpaces : List Bytes :=
  [[11], [12], [0xC2, 0xA0], [0xEF, 0xBB, 0xBF], [0xE1, 0x9A, 0x80], [0xE2, 0x80, 0xA8],
    [0xE2, 0x80, 0xA9], [0xE2, 0x80, 0xAF], [0xE2, 0x81, 0x9F], [0xE3, 0x80, 0x80]] ++
  (List.range 11).map fun i => [0xE2, 0x80, 0x80 + .ofNat i]

def isSpace (b : UInt8) (rest : Bytes) : Bool :=
  commonSpaces.contains b || otherSpaces.any (·.isPrefixOf (b :: rest))

/-! ### The automaton -/

inductive LexMode where
  | code
  | quoted (q : UInt8)
  | line
  /-- The star that opens a block comment, what is in the comment, and the slash that ends it. -/
  | blockOpen | block | blockClose
  | template
  | substOpen
  deriving DecidableEq

/-- An open brace: one of the code, or that of a substitution. -/
inductive Brace where
  | plain | subst
  deriving DecidableEq

structure LexState where
  mode : LexMode
  stack : List Brace
  /-- The byte before this one is a backslash that is not escaped itself. -/
  escaped : Bool
  /-- The line has only white space and comments so far. -/
  fresh : Bool

def endsLine (b : UInt8) (rest : Bytes) : Bool :=
  b == 10 || b == 13 || (b == 0xE2 && (rest.take 2 == [0x80, 0xA8] || rest.take 2 == [0x80, 0xA9]))

def opensComment (rest : Bytes) : Bool :=
  rest.head? == some (ch '/') || rest.head? == some (ch '*')

namespace LexState

def opensHtml (s : LexState) (b : UInt8) (rest : Bytes) : Bool :=
  (str "<!--").isPrefixOf (b :: rest) || s.fresh && (str "-->").isPrefixOf (b :: rest)

def advance (s : LexState) (b : UInt8) (rest : Bytes) : LexMode × List Brace :=
  match s.mode with
  | .code =>
    if s.opensHtml b rest then (.line, s.stack)
    else if b = ch '/' then
      if rest.head? = some (ch '/') then (.line, s.stack)
      else if rest.head? = some (ch '*') then (.blockOpen, s.stack)
      else (.code, s.stack)
    else if b = 96 then (.template, s.stack)
    else if b = 39 ∨ b = 34 then (.quoted b, s.stack)
    else if b = 123 then (.code, .plain :: s.stack)
    else if b = 125 then
      match s.stack with
      | .subst :: stack => (.template, stack)
      | _ => (.code, s.stack.tail)
    else (.code, s.stack)
  | .quoted q => (if b = q ∧ s.escaped = false then .code else .quoted q, s.stack)
  | .line => (if endsLine b rest then .code else .line, s.stack)
  | .blockOpen => (.block, s.stack)
  | .block => (if b = ch '*' ∧ rest.head? = some (ch '/') then .blockClose else .block, s.stack)
  | .blockClose => (.code, s.stack)
  | .template =>
    if s.escaped then (.template, s.stack)
    else if b = 96 then (.code, s.stack)
    else if b = ch '$' ∧ rest.head? = some 123 then (.substOpen, s.stack)
    else (.template, s.stack)
  | .substOpen => (.code, .subst :: s.stack)

def keepsFresh (s : LexState) (b : UInt8) (rest : Bytes) : Bool :=
  match s.mode with
  -- the bytes of a character after its first one follow the first
  | .code => isSpace b rest || (b == ch '/' && opensComment rest) || decide (0x80 ≤ b ∧ b < 0xC0)
  | .quoted _ | .template | .substOpen => false
  | .line | .blockOpen | .block | .blockClose => true

def next (s : LexState) (b : UInt8) (rest : Bytes) : LexState where
  mode := (s.advance b rest).1
  stack := (s.advance b rest).2
  escaped := b == ch '\\' && !s.escaped
  fresh := endsLine b rest || (s.fresh && s.keepsFresh b rest)

def inTemplate (s : LexState) : Bool := decide (.subst ∈ s.stack)

def hidden (s : LexState) (b : UInt8) (rest : Bytes) : Bool :=
  s.inTemplate ||
    match s.mode with
    | .code => b == 96 || (b == ch '/' && opensComment rest) || s.opensHtml b rest
    | .quoted _ => false
    | .line => !endsLine b rest
    | _ => true

def along (p : LexState → UInt8 → Bytes → Bool) : LexState → Bytes → Bool
  | _, [] => true
  | s, b :: rest => p s b rest && along p (s.next b rest) rest

def hiddens : LexState → Bytes → List Bool
  | _, [] => []
  | s, b :: rest => s.hidden b rest :: hiddens (s.next b rest) rest

end LexState

def isHashbang (src : Bytes) : Bool := src.take 2 == str "#!"

def lexStart (src : Bytes) : LexState where
  mode := if isHashbang src then .line else .code
  stack := []
  escaped := false
  fresh := true

def hiddenBytes (src : Bytes) : List Bool := (lexStart src).hiddens src

end GoSpidermonkey.Ecma
