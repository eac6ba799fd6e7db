import GoSpidermonkey.Go.Bytes

/-!
# The text of a CommonJS file

`cjs_exports.go` does not parse a file. `maskCJSSource` blanks its comments, its template literals
and its regular expression literals, so that the patterns of the exports find nothing in them, and
`objectLiteralKeys` reads the keys of an object literal in the masked text.

The loops of the source run over the indices of one slice; here they run over what is left of the
text. `maskLoop` and `keysLoop` take the number of rounds they may still make, which is at first the
length of the text: every round takes at least one byte.
-/

namespace GoSpidermonkey.Nodejs.Cjs

def isLower (c : UInt8) : Bool := ch 'a' ≤ c && c ≤ ch 'z'

def isUpper (c : UInt8) : Bool := ch 'A' ≤ c && c ≤ ch 'Z'

def isDigit (c : UInt8) : Bool := ch '0' ≤ c && c ≤ ch '9'

/-! ### Masking -/

def isIdentByte (c : UInt8) : Bool :=
  c == ch '_' || c == ch '$' || isLower c || isUpper c || isDigit c || 0x80 ≤ c

def regexPrecedingKeywords : List Bytes :=
  ["return", "typeof", "instanceof", "in", "of", "new", "delete", "void", "throw", "case", "do",
    "else", "yield", "await"].map str

/-- `regexCanFollow`: a slash starts a regular expression here. -/
def regexCanFollow (lastSig : UInt8) (lastWord : Bytes) : Bool :=
  if lastSig = 0 then true
  else if lastWord ≠ [] ∧ lastWord ∈ regexPrecedingKeywords then true
  else if lastSig = ch ')' ∨ lastSig = ch ']' ∨ lastSig = ch '"' then false
  else !isIdentByte lastSig

/-- `scanRegexLiteral` after the first slash: the text after the literal and its flags. -/
def scanRegexLiteral (inClass : Bool) : Bytes → Option Bytes
  | [] => none
  | c :: s =>
    if c = ch '\\' then
      match s with
      | [] => none
      | d :: s => if d = 10 ∨ d = 13 then none else scanRegexLiteral inClass s
    else if c = 10 ∨ c = 13 then none
    else if c = ch '[' then scanRegexLiteral true s
    else if c = ch ']' then scanRegexLiteral false s
    else if c = ch '/' ∧ inClass = false then some (s.dropWhile isLower)
    else scanRegexLiteral inClass s

def blank (c : UInt8) : UInt8 := if c = 10 then c else ch ' '

/-- A block comment, blanked, and the text after it. The search for its end starts at its slash. -/
def blockComment : Bytes → Bytes × Bytes
  | [] => ([], [])
  | [c] => ([blank c], [])
  | c :: d :: s =>
    if c = ch '*' ∧ d = ch '/' then (str "  ", s)
    else
      let r := blockComment (d :: s)
      (blank c :: r.1, r.2)

/-- A template literal after its first backtick, blanked, and the text after it. -/
def templateLiteral : Bytes → Bytes × Bytes
  | [] => ([], [])
  | [c] => ([blank c], [])
  | c :: d :: s =>
    if c = ch '\\' then
      let r := templateLiteral s
      (ch ' ' :: blank d :: r.1, r.2)
    else if c = 96 then (str " ", d :: s)
    else
      let r := templateLiteral (d :: s)
      (blank c :: r.1, r.2)

def stringLiteral (q : UInt8) : Bytes → Bytes × Bytes
  | [] => ([], [])
  | [c] => ([c], [])
  | c :: d :: s =>
    if c = q then ([c], d :: s)
    else if c = ch '\\' then
      let r := stringLiteral q s
      (c :: d :: r.1, r.2)
    else
      let r := stringLiteral q (d :: s)
      (c :: r.1, r.2)

/-- The loop of `maskCJSSource`, with the last significant byte and the word it ended. -/
def maskLoop : ℕ → UInt8 → Bytes → Bytes → Bytes
  | 0, _, _, s => s
  | _ + 1, _, _, [] => []
  | n + 1, lastSig, lastWord, c :: s =>
    if c = ch '/' then
      if s.head? = some (ch '/') then
        let line := (c :: s).takeWhile (· != 10)
        let rest := (c :: s).dropWhile (· != 10)
        line.map (fun _ => ch ' ') ++ rest.take 1 ++ maskLoop n lastSig lastWord (rest.drop 1)
      else if s.head? = some (ch '*') then
        let r := blockComment (c :: s)
        r.1 ++ maskLoop n lastSig lastWord r.2
      else
        match if regexCanFollow lastSig lastWord then scanRegexLiteral false s else none with
        | some rest =>
          List.replicate (s.length + 1 - rest.length) (ch ' ') ++ maskLoop n (ch ')') [] rest
        | none => c :: maskLoop n (ch '/') [] s
    else if c = 96 then
      let r := templateLiteral s
      ch ' ' :: r.1 ++ maskLoop n (ch '"') [] r.2
    else if c = 39 ∨ c = 34 then
      let r := stringLiteral c s
      c :: r.1 ++ maskLoop n (ch '"') [] r.2
    else if c = 32 ∨ (9 ≤ c ∧ c ≤ 13) then c :: maskLoop n lastSig lastWord s
    else if isIdentByte c then
      let word := (c :: s).takeWhile isIdentByte
      word ++ maskLoop n (word.getLastD 0) word ((c :: s).dropWhile isIdentByte)
    else c :: maskLoop n c [] s

def maskCJSSource (src : Bytes) : Bytes := maskLoop src.length 0 [] src

/-! ### Object literals -/

def isKeyStart (c : UInt8) : Bool := c == ch '_' || c == ch '$' || isLower c || isUpper c

def isKeySpace (c : UInt8) : Bool := c == 32 || c == 9 || c == 10 || c == 13

def isModifier (word : Bytes) (next : Option UInt8) : Bool :=
  match next with
  | none => false
  | some c =>
    word == str "get" && isModified c || word == str "set" && isModified c
      || word == str "async" && (isModified c || c == ch '*')
where
  isModified (c : UInt8) : Bool := c == ch '_' || c == ch '$' || isLower (c ||| 0x20)

/-- The loop of `objectLiteralKeys`: the keys in what is left of the text. -/
def keysLoop : ℕ → ℕ → Bool → Bytes → List Bytes
  | 0, _, _, _ => []
  | _ + 1, _, _, [] => []
  | n + 1, depth, expectKey, c :: s =>
    if c = 39 ∨ c = 34 then
      let r := stringLiteral c s
      if depth = 1 ∧ expectKey ∧ (r.2.dropWhile isKeySpace).head? = some (ch ':') then
        r.1.dropLast :: keysLoop n depth false r.2
      else keysLoop n depth expectKey r.2
    else if c = 123 ∨ c = ch '[' ∨ c = ch '(' then
      keysLoop n (depth + 1) (c == 123 && depth == 0) s
    else if c = 125 ∨ c = ch ']' ∨ c = ch ')' then
      if depth ≤ 1 then [] else keysLoop n (depth - 1) expectKey s
    else if c = ch ',' then keysLoop n depth (depth == 1 || expectKey) s
    else if depth = 1 ∧ expectKey ∧ isKeyStart c then
      let word := (c :: s).takeWhile (fun c => isKeyStart c || isDigit c)
      let rest := (c :: s).dropWhile (fun c => isKeyStart c || isDigit c)
      let after := rest.dropWhile isKeySpace
      if isModifier word after.head? then keysLoop n depth expectKey after
      else
        match after with
        | [] => keysLoop n depth expectKey rest
        | d :: _ =>
          if d = ch ':' ∨ d = ch '(' ∨ d = ch ',' ∨ d = 125 then
            word :: keysLoop n depth false rest
          else keysLoop n depth false rest
    else if c = ch '.' then keysLoop n depth false s
    else keysLoop n depth expectKey s

def objectLiteralKeys (s : Bytes) : List Bytes :=
  if s.head? = some 123 then keysLoop s.length 0 true s else []

end GoSpidermonkey.Nodejs.Cjs
