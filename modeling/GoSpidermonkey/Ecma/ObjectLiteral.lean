import GoSpidermonkey.Ecma.Lexical
import GoSpidermonkey.Ecma.Module
import GoSpidermonkey.Ecma.Uri

/-!
# Object literals

The property definitions of an object literal, with what each is written as and which name it gives.
Comments, templates and regular expressions are taken to be blanks already. An expression is any
text that is balanced: its brackets match, its strings end, and there is a comma only in brackets.
Of Unicode only the white space is distinguished; every character that is not ASCII may stand in an
identifier.
-/

namespace GoSpidermonkey.Ecma

/-! ### White space -/

inductive Space where
  | common (b : UInt8) (h : b ∈ commonSpaces)
  | other (s : Bytes) (h : s ∈ otherSpaces)

def Space.text : Space → Bytes
  | .common b _ => [b]
  | .other s _ => s

def Space.isCommon : Space → Bool
  | .common .. => true
  | .other .. => false

abbrev Gap := List Space

def Gap.text (g : Gap) : Bytes := g.flatMap Space.text

def Gap.isCommon (g : Gap) : Bool := g.all Space.isCommon

/-! ### Expressions -/

/-- What stands between the quotes of a string literal. -/
inductive Quoted (q : UInt8) : Bytes → Prop
  | nil : Quoted q []
  | byte {b : UInt8} {t : Bytes} (hq : b ≠ q) (hb : b ≠ ch '\\') (h : Quoted q t) :
      Quoted q (b :: t)
  | escape {b : UInt8} {t : Bytes} (h : Quoted q t) : Quoted q (ch '\\' :: b :: t)

def isQuote (b : UInt8) : Bool := b == 39 || b == 34

def isOpener (b : UInt8) : Bool := b == 123 || b == ch '[' || b == ch '('

def isCloser (b : UInt8) : Bool := b == 125 || b == ch ']' || b == ch ')'

def brackets : List (UInt8 × UInt8) := [(123, 125), (ch '[', ch ']'), (ch '(', ch ')')]

/-- Text whose brackets match and whose strings end, with or without commas outside of brackets. -/
inductive Balanced : Bool → Bytes → Prop
  | nil {comma : Bool} : Balanced comma []
  | byte {comma : Bool} {b : UInt8} {t : Bytes} (hquote : isQuote b = false)
      (hopen : isOpener b = false)
      (hclose : isCloser b = false) (hcomma : b = ch ',' → comma) (h : Balanced comma t) :
      Balanced comma (b :: t)
  | string {comma : Bool} {q : UInt8} {body t : Bytes} (hq : isQuote q) (hbody : Quoted q body)
      (h : Balanced comma t) : Balanced comma (q :: (body ++ q :: t))
  | group {comma : Bool} {o c : UInt8} {inner t : Bytes} (hb : (o, c) ∈ brackets)
      (hinner : Balanced true inner) (h : Balanced comma t) :
      Balanced comma (o :: (inner ++ c :: t))

/-- A balanced text. -/
structure ExprText (comma : Bool) where
  text : Bytes
  balanced : Balanced comma text

/-! ### Names -/

def hexNumber (digits : Bytes) : ℕ :=
  digits.foldl (fun n d => 16 * n + ((hexValue (.ofNat d.toNat)).getD 0).toNat) 0

/-- An escape for a code point: `\uHHHH`, or `\u` with the digits in braces. -/
structure CodeEscape where
  digits : Bytes
  braces : Bool

def CodeEscape.text (e : CodeEscape) : Bytes :=
  str "\\u" ++ if e.braces then 123 :: (e.digits ++ [125]) else e.digits

def CodeEscape.value (e : CodeEscape) : Bytes := String.utf8EncodeChar (.ofNat (hexNumber e.digits))

inductive IdentPart where
  | ascii (b : UInt8) (h : isIdentPart b)
  | wide (c : Char) (h : 0x80 ≤ c.toNat)
  | escape (e : CodeEscape)

def IdentPart.text : IdentPart → Bytes
  | .ascii b _ => [b]
  | .wide c _ => String.utf8EncodeChar c
  | .escape e => e.text

def IdentPart.value : IdentPart → Bytes
  | .escape e => e.value
  | p => p.text

def IdentPart.isAscii : IdentPart → Bool
  | .ascii .. => true
  | _ => false

def IdentPart.isStart : IdentPart → Bool
  | .ascii b _ => isIdentStart b
  | _ => true

/-- An identifier name: it has a first part, which is no digit. -/
structure Identifier where
  parts : List IdentPart
  starts : parts.head?.any IdentPart.isStart

def Identifier.text (n : Identifier) : Bytes := n.parts.flatMap IdentPart.text

def Identifier.name (n : Identifier) : Bytes := n.parts.flatMap IdentPart.value

def Identifier.isAscii (n : Identifier) : Bool := n.parts.all IdentPart.isAscii

def singleEscape (b : UInt8) : UInt8 :=
  if b = ch 'b' then 8 else if b = ch 't' then 9 else if b = ch 'n' then 10
    else if b = ch 'v' then 11
  else if b = ch 'f' then 12 else if b = ch 'r' then 13 else if b = ch '0' then 0 else b

inductive StringPart where
  | byte (b : UInt8)
  | single (b : UInt8)
  | hex (digits : Bytes)
  | code (e : CodeEscape)
  | continuation (lineEnd : Bytes)

def StringPart.text : StringPart → Bytes
  | .byte b => [b]
  | .single b => [ch '\\', b]
  | .hex digits => str "\\x" ++ digits
  | .code e => e.text
  | .continuation lineEnd => ch '\\' :: lineEnd

def StringPart.value : StringPart → Bytes
  | .byte b => [b]
  | .single b => [singleEscape b]
  | .hex digits => String.utf8EncodeChar (.ofNat (hexNumber digits))
  | .code e => e.value
  | .continuation _ => []

def StringPart.isByte : StringPart → Bool
  | .byte _ => true
  | _ => false

/-- A string literal that is a property name. -/
structure StringKey where
  quote : UInt8
  isQuote : isQuote quote
  parts : List StringPart
  quoted : Quoted quote (parts.flatMap StringPart.text)

def StringKey.body (k : StringKey) : Bytes := k.parts.flatMap StringPart.text

def StringKey.name (k : StringKey) : Bytes := k.parts.flatMap StringPart.value

def StringKey.isVerbatim (k : StringKey) : Bool := k.parts.all StringPart.isByte

def isNumberByte (b : UInt8) : Bool :=
  isIdentPart b || b == ch '.' || b == ch '+' || b == ch '-'

def isNumeric (t : Bytes) : Bool :=
  t.head?.any (fun b => (ch '0' ≤ b && b ≤ ch '9') || b == ch '.') && t.all isNumberByte

inductive PropertyName where
  | ident (n : Identifier)
  | string (k : StringKey)
  | number (t : Bytes) (h : isNumeric t)
  | computed (e : ExprText true)

def PropertyName.text : PropertyName → Bytes
  | .ident n => n.text
  | .string k => k.quote :: (k.body ++ [k.quote])
  | .number t _ => t
  | .computed e => ch '[' :: (e.text ++ [ch ']'])

def PropertyName.isWord : PropertyName → Bool
  | .ident _ => true
  | .number t _ => t.head? != some (ch '.')
  | _ => false

/-! ### Property definitions -/

inductive Modifier where
  | none
  | get (gap : Gap)
  | set (gap : Gap)
  | async (gap : Gap)
  | generator (gap : Gap)
  | asyncGenerator (gap star : Gap)

def Modifier.text : Modifier → Bytes
  | .none => []
  | .get gap => str "get" ++ gap.text
  | .set gap => str "set" ++ gap.text
  | .async gap => str "async" ++ gap.text
  | .generator gap => ch '*' :: gap.text
  | .asyncGenerator gap star => str "async" ++ gap.text ++ ch '*' :: star.text

def Modifier.wordGap : Modifier → Gap
  | .none | .generator _ => []
  | .get gap | .set gap | .async gap | .asyncGenerator gap _ => gap

def Modifier.endsInWord : Modifier → Bool
  | .get [] | .set [] | .async [] => true
  | _ => false

inductive PropertyDef where
  | shorthand (n : Identifier) (gap : Gap)
  | pair (key : PropertyName) (gap : Gap) (value : ExprText false)
  | spread (value : ExprText false)
  | method (m : Modifier) (key : PropertyName) (apart : m.endsInWord = false ∨ key.isWord = false)
      (gap : Gap) (params : ExprText true) (between : Gap) (body : ExprText true) (after : Gap)

def PropertyDef.text : PropertyDef → Bytes
  | .shorthand n gap => n.text ++ gap.text
  | .pair key gap value => key.text ++ (gap.text ++ ch ':' :: value.text)
  | .spread value => str "..." ++ value.text
  | .method m key _ gap params between body after =>
    m.text ++ (key.text ++ (gap.text ++ ch '(' :: (params.text ++ ch ')' ::
      (between.text ++ 123 :: (body.text ++ 125 :: after.text)))))

/-- The names of properties and methods that are identifiers, and of properties that are strings. -/
def PropertyDef.names : PropertyDef → List Bytes
  | .shorthand n _ => [n.name]
  | .pair (.ident n) .. => [n.name]
  | .pair (.string k) .. => [k.name]
  | .method _ (.ident n) .. => [n.name]
  | _ => []

/-- The properties with a comma after each, then the one without, if there is one. -/
structure ObjectLiteral where
  props : List (Gap × PropertyDef)
  gap : Gap
  last : Option PropertyDef

def ObjectLiteral.all (l : ObjectLiteral) : List PropertyDef :=
  l.props.map Prod.snd ++ l.last.toList

def ObjectLiteral.text (l : ObjectLiteral) : Bytes :=
  123 :: (l.props.flatMap (fun p => p.1.text ++ p.2.text ++ [ch ',']) ++
    (l.gap.text ++ (l.last.toList.flatMap PropertyDef.text ++ [125])))

def ObjectLiteral.names (l : ObjectLiteral) : List Bytes := l.all.flatMap PropertyDef.names

end GoSpidermonkey.Ecma
