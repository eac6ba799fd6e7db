import GoSpidermonkey.Go.Path

/-!
# JSON texts

What `encoding/json` reads from a byte string. `Json.parse` accepts the texts its scanner accepts:
white space, literals, numbers, strings with escapes, and containers nested at most
`maxNestingDepth` deep. Strings are decoded on the way, so a byte that is not part of valid UTF-8
and an unpaired surrogate both become `U+FFFD`. An object keeps its members in the order of the
text, duplicates included; a number keeps its text.

`Unmarshal` into a struct walks the members of an object in order: a member belongs to the field
whose name it equals when case is folded, and what a member does to a field depends on the field's
type (`anyField`, `stringField`, `rawField`, `rawMapField`). A `json.RawMessage` holds the text of a
value, modelled by the value itself, or is empty.
-/

open GoSpidermonkey.Path (utf8Two utf8Three utf8Four)

namespace GoSpidermonkey

inductive Json where
  | null
  | bool (b : Bool)
  | num (text : Bytes)
  | str (s : Bytes)
  | arr (items : List Json)
  | obj (fields : List (Bytes × Json))

namespace Json

/-! ### Strings -/

/-- `utf8.AppendRune` on a code point. -/
def encodeRune (r : ℕ) : Bytes :=
  if r < 0x80 then [.ofNat r]
  else if r < 0x800 then [.ofNat (0xC0 + r / 0x40), .ofNat (0x80 + r % 0x40)]
  else if r < 0x10000 then
    [.ofNat (0xE0 + r / 0x1000), .ofNat (0x80 + r / 0x40 % 0x40), .ofNat (0x80 + r % 0x40)]
  else
    [.ofNat (0xF0 + r / 0x40000), .ofNat (0x80 + r / 0x1000 % 0x40),
      .ofNat (0x80 + r / 0x40 % 0x40), .ofNat (0x80 + r % 0x40)]

/-- `unicode.ReplacementChar`. -/
def replacement : ℕ := 0xFFFD

def hexDigit (c : UInt8) : Option ℕ :=
  if ch '0' ≤ c ∧ c ≤ ch '9' then some (c - ch '0').toNat
  else if ch 'a' ≤ c ∧ c ≤ ch 'f' then some ((c - ch 'a').toNat + 10)
  else if ch 'A' ≤ c ∧ c ≤ ch 'F' then some ((c - ch 'A').toNat + 10)
  else none

def hexUnit : Bytes → Option (ℕ × Bytes)
  | a :: b :: c :: d :: rest => do
    let a ← hexDigit a
    let b ← hexDigit b
    let c ← hexDigit c
    let d ← hexDigit d
    return (((a * 16 + b) * 16 + c) * 16 + d, rest)
  | _ => none

def lowSurrogate : Bytes → Option (ℕ × Bytes)
  | b :: u :: rest =>
    if b = ch '\\' ∧ u = ch 'u' then
      match hexUnit rest with
      | some (r, rest) => if 0xDC00 ≤ r ∧ r < 0xE000 then some (r, rest) else none
      | none => none
    else none
  | _ => none

/-- The rune a `\u` escape stands for, and the text after it. -/
def unicodeEscape (s : Bytes) : Option (ℕ × Bytes) :=
  match hexUnit s with
  | none => none
  | some (r, rest) =>
    if r < 0xD800 ∨ 0xE000 ≤ r then some (r, rest)
    else if r < 0xDC00 then
      match lowSurrogate rest with
      | some (r', rest') => some (0x10000 + (r - 0xD800) * 0x400 + (r' - 0xDC00), rest')
      | none => some (replacement, rest)
    else some (replacement, rest)

def simpleEscape (c : UInt8) : Option UInt8 :=
  if c = ch '"' ∨ c = ch '\\' ∨ c = ch '/' then some c
  else if c = ch 'b' then some 8
  else if c = ch 'f' then some 12
  else if c = ch 'n' then some 10
  else if c = ch 'r' then some 13
  else if c = ch 't' then some 9
  else none

def stringPiece (c : UInt8) (rest : Bytes) : Option (Bytes × Bytes) :=
  if c = ch '\\' then
    match rest with
    | [] => none
    | e :: rest =>
      match simpleEscape e with
      | some b => some ([b], rest)
      | none =>
        if e = ch 'u' then (unicodeEscape rest).map fun (r, rest) => (encodeRune r, rest)
        else none
  else if c < 0x20 then none
  else if c < 0x80 then some ([c], rest)
  else
    match rest with
    | b₁ :: b₂ :: b₃ :: rest' =>
      if utf8Two c b₁ then some ([c, b₁], b₂ :: b₃ :: rest')
      else if utf8Three c b₁ b₂ then some ([c, b₁, b₂], b₃ :: rest')
      else if utf8Four c b₁ b₂ b₃ then some ([c, b₁, b₂, b₃], rest')
      else some (encodeRune replacement, rest)
    | [b₁, b₂] =>
      if utf8Two c b₁ then some ([c, b₁], [b₂])
      else if utf8Three c b₁ b₂ then some ([c, b₁, b₂], [])
      else some (encodeRune replacement, rest)
    | [b₁] => if utf8Two c b₁ then some ([c, b₁], []) else some (encodeRune replacement, rest)
    | [] => some (encodeRune replacement, [])

def stringTail : ℕ → Bytes → Option (Bytes × Bytes)
  | 0, _ => none
  | _ + 1, [] => none
  | n + 1, c :: rest =>
    if c = ch '"' then some ([], rest)
    else do
      let (piece, rest) ← stringPiece c rest
      let (s, rest) ← stringTail n rest
      return (piece ++ s, rest)

/-! ### Numbers -/

def isDigit (c : UInt8) : Bool := ch '0' ≤ c && c ≤ ch '9'

def digits (s : Bytes) : Option (Bytes × Bytes) :=
  if s.takeWhile isDigit = [] then none else some (s.takeWhile isDigit, s.dropWhile isDigit)

def intPart : Bytes → Option (Bytes × Bytes)
  | c :: rest => if c = ch '0' then some ([c], rest) else digits (c :: rest)
  | [] => none

def fracPart : Bytes → Option (Bytes × Bytes)
  | c :: rest =>
    if c = ch '.' then (digits rest).map fun (ds, rest) => (c :: ds, rest)
    else some ([], c :: rest)
  | [] => some ([], [])

def expPart : Bytes → Option (Bytes × Bytes)
  | c :: rest =>
    if c = ch 'e' ∨ c = ch 'E' then
      let sign := (rest.take 1).filter fun s => s = ch '+' || s = ch '-'
      (digits (rest.drop sign.length)).map fun (ds, rest) => (c :: sign ++ ds, rest)
    else some ([], c :: rest)
  | [] => some ([], [])

def number (s : Bytes) : Option (Bytes × Bytes) := do
  let sign := (s.take 1).filter fun c => c = ch '-'
  let (int, rest) ← intPart (s.drop sign.length)
  let (frac, rest) ← fracPart rest
  let (exp, rest) ← expPart rest
  return (sign ++ int ++ frac ++ exp, rest)

def digitsValue (ds : Bytes) : ℕ := ds.foldl (fun n d => n * 10 + (d - ch '0').toNat) 0

/-- The decimal exponent as `strconv` reads it: past 10000 further digits are dropped. -/
def expValue (ds : Bytes) : ℕ :=
  ds.foldl (fun n d => if n < 10000 then n * 10 + (d - ch '0').toNat else n) 0

/-- `strconv.ParseFloat` reports a number too large for a `float64`: what rounds to `2 ^ 1024`. -/
def overflows (text : Bytes) : Bool :=
  let text := if text.head? = some (ch '-') then text.drop 1 else text
  let mantissa := text.takeWhile fun c => c != ch 'e' && c != ch 'E'
  let exp := (text.drop mantissa.length).drop 1
  let frac := ((mantissa.dropWhile (· != ch '.')).drop 1).length
  let m := digitsValue (mantissa.filter isDigit)
  let e := expValue (exp.filter isDigit)
  let limit := 2 ^ 1024 - 2 ^ 970
  if exp.head? = some (ch '-') then limit * 10 ^ (e + frac) ≤ m
  else limit * 10 ^ frac ≤ m * 10 ^ e

/-! ### Values -/

def skipSpace (s : Bytes) : Bytes :=
  s.dropWhile fun c => c = ch ' ' || c = 9 || c = 10 || c = 13

def expect (c : UInt8) (s : Bytes) : Option Bytes :=
  match skipSpace s with
  | [] => none
  | b :: rest => if b = c then some rest else none

def literal (l s : Bytes) : Option Bytes := if l.isPrefixOf s then some (s.drop l.length) else none

mutual

/-- A value at the head of the text; `depth` containers may still be opened. -/
def value : ℕ → ℕ → Bytes → Option (Json × Bytes)
  | 0, _, _ => none
  | _ + 1, _, [] => none
  | n + 1, depth, c :: rest =>
    if c = ch '"' then (stringTail (rest.length + 1) rest).map fun (s, rest) => (.str s, rest)
    else if c = ch '{' then
      if depth = 0 then none
      else match expect (ch '}') rest with
        | some rest => some (.obj [], rest)
        | none => (members n (depth - 1) rest).map fun (fs, rest) => (.obj fs, rest)
    else if c = ch '[' then
      if depth = 0 then none
      else match expect (ch ']') rest with
        | some rest => some (.arr [], rest)
        | none => (elements n (depth - 1) rest).map fun (vs, rest) => (.arr vs, rest)
    else if c = ch 'n' then (literal (GoSpidermonkey.str "ull") rest).map fun rest => (.null, rest)
    else if c = ch 't' then
      (literal (GoSpidermonkey.str "rue") rest).map fun rest => (.bool true, rest)
    else if c = ch 'f' then
      (literal (GoSpidermonkey.str "alse") rest).map fun rest => (.bool false, rest)
    else (number (c :: rest)).map fun (text, rest) => (.num text, rest)

def members : ℕ → ℕ → Bytes → Option (List (Bytes × Json) × Bytes)
  | 0, _, _ => none
  | n + 1, depth, s => do
    let rest ← expect (ch '"') s
    let (key, rest) ← stringTail (rest.length + 1) rest
    let rest ← expect (ch ':') rest
    let (v, rest) ← value n depth (skipSpace rest)
    match expect (ch '}') rest with
    | some rest => return ([(key, v)], rest)
    | none =>
      let rest ← expect (ch ',') rest
      let (more, rest) ← members n depth rest
      return ((key, v) :: more, rest)

def elements : ℕ → ℕ → Bytes → Option (List Json × Bytes)
  | 0, _, _ => none
  | n + 1, depth, s => do
    let (v, rest) ← value n depth (skipSpace s)
    match expect (ch ']') rest with
    | some rest => return ([v], rest)
    | none =>
      let rest ← expect (ch ',') rest
      let (more, rest) ← elements n depth rest
      return (v :: more, rest)

end

/-- `maxNestingDepth` of the scanner. -/
def maxNestingDepth : ℕ := 10000

mutual

def depth : Json → ℕ
  | .arr items => itemsDepth items + 1
  | .obj fields => fieldsDepth fields + 1
  | _ => 0

def itemsDepth : List Json → ℕ
  | [] => 0
  | v :: rest => max (depth v) (itemsDepth rest)

def fieldsDepth : List (Bytes × Json) → ℕ
  | [] => 0
  | (_, v) :: rest => max (depth v) (fieldsDepth rest)

end

/-- The value of a whole text. Every nested call consumes a byte, so the fuel is never used up. -/
def parse (s : Bytes) : Option Json :=
  match value (s.length + 1) maxNestingDepth (skipSpace s) with
  | some (v, rest) => if skipSpace rest = [] then some v else none
  | none => none

/-! ### Decoding into a struct -/

/-- `foldName`: upper case, with the two letters outside ASCII that fold into it. -/
def foldName : Bytes → Bytes
  | 0xE2 :: 0x84 :: 0xAA :: rest => ch 'K' :: foldName rest
  | 0xC5 :: 0xBF :: rest => ch 'S' :: foldName rest
  | c :: rest => (if ch 'a' ≤ c ∧ c ≤ ch 'z' then c - 32 else c) :: foldName rest
  | [] => []

/-- The members a struct is filled from: `null` fills nothing, and only an object has members. -/
def structMembers : Json → Option (List (Bytes × Json))
  | .null => some []
  | .obj fields => some fields
  | _ => none

def membersOf (name : Bytes) (fields : List (Bytes × Json)) : List Json :=
  (fields.filter fun (k, _) => foldName k == foldName name).map Prod.snd

mutual

/-- Some number of the value is too large for a `float64`. -/
def hasOverflow : Json → Bool
  | .num text => overflows text
  | .arr items => itemsOverflow items
  | .obj fields => fieldsOverflow fields
  | _ => false

def itemsOverflow : List Json → Bool
  | [] => false
  | v :: rest => hasOverflow v || itemsOverflow rest

def fieldsOverflow : List (Bytes × Json) → Bool
  | [] => false
  | (_, v) :: rest => hasOverflow v || fieldsOverflow rest

end

/-- A field of type `any`: the last member counts; `none` when a member is not representable. -/
def anyField (name : Bytes) (fields : List (Bytes × Json)) : Option Json :=
  if (membersOf name fields).any hasOverflow then none
  else some ((membersOf name fields).getLastD .null)

/-- A field of type `string`: `null` changes nothing, every other value must be a string. -/
def stringField (name : Bytes) (fields : List (Bytes × Json)) : Option Bytes :=
  (membersOf name fields).foldlM (fun old v =>
    match v with
    | .null => some old
    | .str s => some s
    | _ => none) []

/-- A field of type `json.RawMessage`: the last member counts; `none` is the empty message. -/
def rawField (name : Bytes) (fields : List (Bytes × Json)) : Option Json :=
  (membersOf name fields).getLast?

/-- The entries of a `map[string]json.RawMessage`: a later member replaces an earlier one. -/
def rawMap (fields : List (Bytes × Json)) (m : Finmap fun _ : Bytes => Json) :
    Finmap fun _ : Bytes => Json :=
  fields.foldl (fun m (k, v) => m.insert k v) m

/-- A field of type `map[string]json.RawMessage`; the inner `none` is the nil map. -/
def rawMapField (name : Bytes) (fields : List (Bytes × Json)) :
    Option (Option (Finmap fun _ : Bytes => Json)) :=
  (membersOf name fields).foldlM (fun old v =>
    match v with
    | .null => some none
    | .obj entries => some (some (rawMap entries (old.getD ∅)))
    | _ => none) none

end Json

end GoSpidermonkey
