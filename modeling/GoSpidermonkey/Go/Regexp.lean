import GoSpidermonkey.Go.Bytes

/-!
# Regular expressions

The part of the package `regexp` that the loaders use, with its leftmost-first matches: `Re.run`
lists the ways to match at a position in the order in which a backtracking search tries them, and
the first one is the match. Repetitions are of classes only and are greedy.

Texts are matched byte by byte. A class that excludes ASCII characters then takes a longer character
one byte at a time, which changes neither where a match ends nor what its groups hold.
-/

namespace GoSpidermonkey.Regexp

inductive Re
  /-- `^`. -/
  | start
  | lit (s : Bytes)
  | cls (p : UInt8 → Bool)
  /-- `[p]*`. -/
  | many (p : UInt8 → Bool)
  | seq (a b : Re)
  | alt (a b : Re)
  | group (i : ℕ) (a : Re)

/-- `(?:a)?`. -/
def Re.opt (a : Re) : Re := .alt a (.lit [])

/-- `[p]+`. -/
def Re.plus (p : UInt8 → Bool) : Re := .seq (.cls p) (.many p)

def Re.all : List Re → Re
  | [] => .lit []
  | [a] => a
  | a :: as => .seq a (all as)

/-- A match in progress: whether it is at the start of the text, its groups, and the text
after it. -/
structure Match where
  first : Bool
  groups : List (ℕ × Bytes)
  rest : Bytes

def Match.group (m : Match) (i : ℕ) : Bytes := (m.groups.lookup i).getD []

def Match.advance (m : Match) (n : ℕ) : Match :=
  if n = 0 then m else { m with first := false, rest := m.rest.drop n }

def Re.run : Re → Match → List Match
  | .start, m => if m.first then [m] else []
  | .lit s, m => if s.isPrefixOf m.rest then [m.advance s.length] else []
  | .cls p, m =>
    match m.rest with
    | c :: _ => if p c then [m.advance 1] else []
    | [] => []
  | .many p, m =>
    (List.range ((m.rest.takeWhile p).length + 1)).reverse.map m.advance
  | .seq a b, m => (a.run m).flatMap b.run
  | .alt a b, m => a.run m ++ b.run m
  | .group i a, m => (a.run m).map fun m' =>
    { m' with groups := (i, m.rest.take (m.rest.length - m'.rest.length)) :: m'.groups }

/-- The matches in what is left of a text, of which some bytes belong to the match before. -/
def findFrom (re : Re) (first : Bool) : ℕ → Bytes → List Match
  | _, [] => []
  | skip + 1, _ :: s => findFrom re false skip s
  | 0, c :: s =>
    match (re.run { first := first, groups := [], rest := c :: s }).head? with
    | some m => m :: findFrom re false (s.length - m.rest.length) s
    | none => findFrom re false 0 s

/-- `FindAllSubmatch`, for an expression that does not match the empty text. -/
def findAll (re : Re) (s : Bytes) : List Match := findFrom re true 0 s

end GoSpidermonkey.Regexp
