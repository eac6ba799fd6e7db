import GoSpidermonkey.Go.Bytes

/-!
# Modules of ECMAScript

A part of the language of modules, which are strict code: what `parseModule` accepts and
`Module.Valid` allows is a module without early errors. Names are ASCII identifiers. The
declarations are `const x = e;`, `let x;`, `export default e;` and `export { x };`, and the one
statement is `try { e; } catch {}`. Expressions have assignments to names, conditionals, one `||`,
one `===`, and chains of members and calls of one argument.

The lexer takes the text byte by byte. A string literal is kept as it is written.
-/

namespace GoSpidermonkey.Ecma

/-! ### Names -/

def isIdentStart (c : UInt8) : Bool :=
  (ch 'a' ≤ c && c ≤ ch 'z') || (ch 'A' ≤ c && c ≤ ch 'Z') || c == ch '_' || c == ch '$'

def isIdentPart (c : UInt8) : Bool := isIdentStart c || (ch '0' ≤ c && c ≤ ch '9')

/-- An `IdentifierName` of ASCII characters. -/
def isIdentifierName : Bytes → Bool
  | [] => false
  | c :: s => isIdentStart c && s.all isIdentPart

/-- The words that are no identifiers in a module: reserved always, in strict code, or
in modules. -/
def reservedWords : List Bytes :=
  ["await", "break", "case", "catch", "class", "const", "continue", "debugger", "default", "delete",
    "do", "else", "enum", "export", "extends", "false", "finally", "for", "function",
    "if", "import", "in", "instanceof", "new", "null", "return", "super", "switch", "this", "throw",
    "true", "try", "typeof", "var", "void", "while", "with", "yield", "let", "static", "implements",
    "interface", "package", "private", "protected", "public"].map str

/-- An `IdentifierReference` of strict code. -/
def isIdentifier (n : Bytes) : Bool := isIdentifierName n && decide (n ∉ reservedWords)

def unbindable : List Bytes := [str "eval", str "arguments"]

/-- A `BindingIdentifier` of strict code. -/
def isBindingIdentifier (n : Bytes) : Bool := isIdentifier n && decide (n ∉ unbindable)

/-! ### Tokens -/

inductive Punct
  | assign | same | or | question | colon | dot | semicolon
  | lparen | rparen | lbrace | rbrace | lbracket | rbracket
deriving DecidableEq

inductive Token
  | name (n : Bytes)
  | text (body : Bytes)
  | punct (p : Punct)
deriving DecidableEq

inductive Mode
  | between
  | word (w : Bytes)
  | text (body : Bytes)
  | escape (body : Bytes)
  | hex (digits : ℕ) (body : Bytes)
  | equals (two : Bool)
  | bar
deriving DecidableEq

def punct (c : UInt8) : Option Punct :=
  if c = ch '?' then some .question
  else if c = ch ':' then some .colon
  else if c = ch '.' then some .dot
  else if c = ch ';' then some .semicolon
  else if c = ch '(' then some .lparen
  else if c = ch ')' then some .rparen
  else if c = 123 then some .lbrace
  else if c = 125 then some .rbrace
  else if c = ch '[' then some .lbracket
  else if c = ch ']' then some .rbracket
  else none

def isHexDigit (c : UInt8) : Bool :=
  (ch '0' ≤ c && c ≤ ch '9') || (ch 'a' ≤ c && c ≤ ch 'f') || (ch 'A' ≤ c && c ≤ ch 'F')

def begins (c : UInt8) : Option (List Token × Mode) :=
  if c = 32 ∨ (9 ≤ c ∧ c ≤ 13) then some ([], .between)
  else if isIdentStart c then some ([], .word [c])
  else if c = 34 then some ([], .text [])
  else if c = ch '=' then some ([], .equals false)
  else if c = ch '|' then some ([], .bar)
  else (punct c).map fun p => ([.punct p], .between)

namespace Mode

def step : Mode → UInt8 → Option (List Token × Mode)
  | between, c => begins c
  | word w, c =>
    if isIdentPart c then some ([], .word (w ++ [c]))
    else (begins c).map fun r => (.name w :: r.1, r.2)
  | text body, c =>
    if c = 34 then some ([.text body], .between)
    else if c = ch '\\' then some ([], .escape (body ++ [c]))
    else if c = 10 ∨ c = 13 then none
    else some ([], .text (body ++ [c]))
  | escape body, c =>
    if c = ch 'x' then some ([], .hex 2 (body ++ [c]))
    else if c = ch 'u' then some ([], .hex 4 (body ++ [c]))
    -- octal escapes are errors in strict code, and a line continuation is not in this part
    else if (ch '0' ≤ c ∧ c ≤ ch '9') ∨ c = 10 ∨ c = 13 then none
    else some ([], .text (body ++ [c]))
  | hex digits body, c =>
    if isHexDigit c then
      some ([], if digits ≤ 1 then .text (body ++ [c]) else .hex (digits - 1) (body ++ [c]))
    else none
  | equals two, c =>
    if c = ch '=' then some (if two then ([.punct .same], .between) else ([], .equals true))
    else if two then none
    else (begins c).map fun r => (.punct .assign :: r.1, r.2)
  | bar, c => if c = ch '|' then some ([.punct .or], .between) else none

def scan : Mode → Bytes → Option (List Token × Mode)
  | m, [] => some ([], m)
  | m, c :: s => (m.step c).bind fun r => (scan r.2 s).map fun r' => (r.1 ++ r'.1, r'.2)

def finish : Mode → Option (List Token)
  | between => some []
  | word w => some [.name w]
  | _ => none

end Mode

def lex (s : Bytes) : Option (List Token) :=
  (Mode.between.scan s).bind fun r => r.2.finish.map fun last => r.1 ++ last

/-! ### Expressions -/

inductive Expr
  | ident (n : Bytes)
  | null
  | text (body : Bytes)
  | object
  | member (e : Expr) (field : Bytes)
  | index (e i : Expr)
  | call (f a : Expr)
  | same (a b : Expr)
  | or (a b : Expr)
  | cond (c a b : Expr)
  | assign (x : Bytes) (e : Expr)
deriving DecidableEq

def Expr.reads : Expr → List Bytes
  | ident n => [n]
  | null | text _ | object => []
  | member e _ => e.reads
  | index a b | call a b | same a b | or a b => a.reads ++ b.reads
  | cond c a b => c.reads ++ a.reads ++ b.reads
  | assign _ e => e.reads

abbrev Parser (α : Type) := List Token → Option (α × List Token)

def expect (p : Punct) : List Token → Option (List Token)
  | .punct q :: ts => if p = q then some ts else none
  | _ => none

section

variable (sub : Parser Expr)

def primary : Parser Expr
  | .name n :: ts =>
    if n = str "null" then some (.null, ts)
    else if isIdentifier n then some (.ident n, ts)
    else none
  | .text body :: ts => some (.text body, ts)
  | .punct .lparen :: ts => do
    let (e, ts) ← sub ts
    let ts ← expect .rparen ts
    return (e, ts)
  | .punct .lbrace :: .punct .rbrace :: ts => some (.object, ts)
  | _ => none

/-- Members and calls, of which at most `n` follow one another. -/
def suffixes : ℕ → Expr → Parser Expr
  | n + 1, e, .punct .dot :: .name field :: ts => suffixes n (.member e field) ts
  | n + 1, e, .punct .lbracket :: ts => do
    let (i, ts) ← sub ts
    let ts ← expect .rbracket ts
    suffixes n (.index e i) ts
  | n + 1, e, .punct .lparen :: ts => do
    let (a, ts) ← sub ts
    let ts ← expect .rparen ts
    suffixes n (.call e a) ts
  | _, e, ts => some (e, ts)

def leftHandSide : Parser Expr := fun ts => do
  let (e, ts) ← primary sub ts
  suffixes sub 8 e ts

def equality : Parser Expr := fun ts => do
  let (a, ts) ← leftHandSide sub ts
  match ts with
  | .punct .same :: ts => do
    let (b, ts) ← leftHandSide sub ts
    return (.same a b, ts)
  | ts => return (a, ts)

def disjunction : Parser Expr := fun ts => do
  let (a, ts) ← equality sub ts
  match ts with
  | .punct .or :: ts => do
    let (b, ts) ← equality sub ts
    return (.or a b, ts)
  | ts => return (a, ts)

def conditional : Parser Expr := fun ts => do
  let (c, ts) ← disjunction sub ts
  match ts with
  | .punct .question :: ts => do
    let (a, ts) ← sub ts
    let ts ← expect .colon ts
    let (b, ts) ← sub ts
    return (.cond c a b, ts)
  | ts => return (c, ts)

def assignment : Parser Expr := fun ts =>
  match ts with
  | .name x :: .punct .assign :: ts =>
    if isBindingIdentifier x then do
      let (e, ts) ← sub ts
      return (.assign x e, ts)
    else none
  | ts => conditional sub ts

end

def expression : ℕ → Parser Expr
  | 0 => fun _ => none
  | n + 1 => assignment (expression n)

def nesting : ℕ := 8

/-! ### Modules -/

inductive Item
  /-- `const x = e;`. -/
  | const (x : Bytes) (e : Expr)
  /-- `let x;`. -/
  | declare (x : Bytes)
  /-- `export default e;`. -/
  | exportDefault (e : Expr)
  /-- `export { x };`. -/
  | exportName (x : Bytes)
  /-- `try { e; } catch {}`. -/
  | attempt (e : Expr)
deriving DecidableEq

def Item.reads : Item → List Bytes
  | const _ e | exportDefault e | attempt e => e.reads
  | declare _ | exportName _ => []

def terminated : Parser Expr := fun ts => do
  let (e, ts) ← expression nesting ts
  let ts ← expect .semicolon ts
  return (e, ts)

def attempt : Parser Item := fun ts => do
  let (e, ts) ← terminated ts
  match ts with
  | .punct .rbrace :: .name w :: .punct .lbrace :: .punct .rbrace :: ts =>
    if w = str "catch" then some (.attempt e, ts) else none
  | _ => none

def item : Parser Item
  | .name w :: .name x :: .punct .assign :: ts =>
    if w = str "const" ∧ isBindingIdentifier x then do
      let (e, ts) ← terminated ts
      return (.const x e, ts)
    else none
  | .name w :: .punct .lbrace :: ts =>
    if w = str "try" then attempt ts
    else if w = str "export" then
      match ts with
      | .name x :: .punct .rbrace :: .punct .semicolon :: ts =>
        if isBindingIdentifier x then some (.exportName x, ts) else none
      | _ => none
    else none
  | .name w :: .name x :: ts =>
    if w = str "let" then
      if isBindingIdentifier x then do
        let ts ← expect .semicolon ts
        return (.declare x, ts)
      else none
    else if w = str "export" ∧ x = str "default" then do
      let (e, ts) ← terminated ts
      return (.exportDefault e, ts)
    else none
  | _ => none

def items : ℕ → List Token → Option (List Item)
  | _, [] => some []
  | 0, _ :: _ => none
  | n + 1, t :: ts => (item (t :: ts)).bind fun r => (items n r.2).map (r.1 :: ·)

structure Module where
  items : List Item
deriving DecidableEq

def parseModule (s : Bytes) : Option Module :=
  (lex s).bind fun ts => (items ts.length ts).map Module.mk

namespace Module

variable (m : Module)

/-- The names that `let` binds. -/
def lets : List Bytes := m.items.filterMap fun
  | .declare x => some x
  | _ => none

def bindings : List Bytes := m.items.filterMap fun
  | .const x _ | .declare x => some x
  | _ => none

def exportedBindings : List Bytes := m.items.filterMap fun
  | .exportName x => some x
  | _ => none

def exportedNames : List Bytes := m.items.filterMap fun
  | .exportName x => some x
  | .exportDefault _ => some (str "default")
  | _ => none

def reads : List Bytes := m.items.flatMap Item.reads

/-- There is no early error. -/
structure Valid : Prop where
  bindings_nodup : m.bindings.Nodup
  exports_nodup : m.exportedNames.Nodup
  exports_bound : ∀ x ∈ m.exportedBindings, x ∈ m.bindings

end Module

/-! ### How texts compose -/

namespace Mode

lemma scan_cons (m : Mode) (c : UInt8) (s : Bytes) :
    m.scan (c :: s) = (m.step c).bind fun r => (r.2.scan s).map fun r' => (r.1 ++ r'.1, r'.2) := rfl

lemma scan_append (m : Mode) (s t : Bytes) :
    m.scan (s ++ t) = (m.scan s).bind fun r => (r.2.scan t).map fun r' => (r.1 ++ r'.1, r'.2) := by
  induction s generalizing m with
  | nil => simp [scan]
  | cons c s ih =>
    simp only [List.cons_append, scan, ih, Option.bind_assoc, Option.map_bind]
    congr 1
    funext r
    cases r.2.scan s <;> simp [Function.comp_def]

lemma scan_append_of {m m' : Mode} {s : Bytes} {ts : List Token} (h : m.scan s = some (ts, m'))
    (t : Bytes) : m.scan (s ++ t) = (m'.scan t).map fun r => (ts ++ r.1, r.2) := by
  rw [scan_append, h, Option.bind_some]

lemma scan_word_all (w : Bytes) {s : Bytes} (hs : s.all isIdentPart = true) :
    (word w).scan s = some ([], word (w ++ s)) := by
  induction s generalizing w with
  | nil => simp [scan]
  | cons c s ih =>
    simp only [List.all_cons, Bool.and_eq_true] at hs
    simp [scan, step, hs.1, ih (w ++ [c]) hs.2]

lemma isIdentStart_not_space :
    ∀ c : UInt8, isIdentStart c = true → ¬ (c = 32 ∨ (9 ≤ c ∧ c ≤ 13)) := by
  decide +kernel

lemma scan_name {n : Bytes} (hn : isIdentifierName n = true) :
    between.scan n = some ([], word n) := by
  cases n with
  | nil => simp [isIdentifierName] at hn
  | cons c s =>
    simp only [isIdentifierName, Bool.and_eq_true] at hn
    have hspace := isIdentStart_not_space c hn.1
    simp [scan, step, begins, hspace, hn.1, scan_word_all [c] hn.2]

lemma scan_word_end (w : Bytes) {c : UInt8} (hc : isIdentPart c = false) (s : Bytes) :
    (word w).scan (c :: s)
      = (between.scan (c :: s)).map fun r => (.name w :: r.1, r.2) := by
  simp only [scan, step, hc, Bool.false_eq_true, if_false]
  cases begins c with
  | none => rfl
  | some r => simp [Function.comp_def]

end Mode

end GoSpidermonkey.Ecma
