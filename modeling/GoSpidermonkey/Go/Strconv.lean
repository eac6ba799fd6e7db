import GoSpidermonkey.Go.Path

/-!
# Quoted strings

`strconv.Quote`, which is what `%q` prints: the characters of the string, with escapes for quotes,
backslashes, bytes that are no character and characters that are not printable. Which of the
characters above ASCII are printable is a table of the package (`isPrint`).
-/

open GoSpidermonkey.Path

namespace GoSpidermonkey.Strconv

/-- A digit of `lowerhex`. -/
def lowerhex (n : ℕ) : UInt8 := if n % 16 < 10 then .ofNat (48 + n % 16) else .ofNat (87 + n % 16)

/-- The lowest `k` hexadecimal digits of a number. -/
def hexDigits : ℕ → ℕ → Bytes
  | 0, _ => []
  | k + 1, n => hexDigits k (n / 16) ++ [lowerhex n]

/-- `utf8.DecodeRuneInString` at the head of a string. -/
def decodeRune : Bytes → Option (ℕ × Bytes)
  | [] => none
  | b₀ :: rest =>
    if b₀ < 0x80 then some (b₀.toNat, [b₀])
    else
      match rest with
      | [] => none
      | b₁ :: rest₁ =>
        if utf8Two b₀ b₁ then some ((b₀.toNat % 0x20) * 0x40 + b₁.toNat % 0x40, [b₀, b₁])
        else
          match rest₁ with
          | [] => none
          | b₂ :: rest₂ =>
            if utf8Three b₀ b₁ b₂ then
              some (((b₀.toNat % 0x10) * 0x40 + b₁.toNat % 0x40) * 0x40 + b₂.toNat % 0x40,
                [b₀, b₁, b₂])
            else
              match rest₂ with
              | [] => none
              | b₃ :: _ =>
                if utf8Four b₀ b₁ b₂ b₃ then
                  some ((((b₀.toNat % 0x08) * 0x40 + b₁.toNat % 0x40) * 0x40 +
                    b₂.toNat % 0x40) * 0x40
                    + b₃.toNat % 0x40, [b₀, b₁, b₂, b₃])
                else none

def letterEscape (r : ℕ) : Option Char :=
  if r = 7 then some 'a'
  else if r = 8 then some 'b'
  else if r = 12 then some 'f'
  else if r = 10 then some 'n'
  else if r = 13 then some 'r'
  else if r = 9 then some 't'
  else if r = 11 then some 'v'
  else none

def escape (r : ℕ) : Bytes :=
  match letterEscape r with
  | some c => [ch '\\', ch c]
  | none =>
    if r < 0x20 ∨ r = 0x7f then str "\\x" ++ hexDigits 2 r
    else if r < 0x10000 then str "\\u" ++ hexDigits 4 r
    else str "\\U" ++ hexDigits 8 r

/-- `IsPrint`. -/
def printable (isPrint : ℕ → Bool) (r : ℕ) : Bool :=
  if r < 0x80 then 0x20 ≤ r && r ≤ 0x7e else isPrint r

/-- `appendEscapedRune`, for a character and its bytes. -/
def escapedRune (isPrint : ℕ → Bool) (r : ℕ) (bytes : Bytes) : Bytes :=
  if r = 34 ∨ r = 92 then ch '\\' :: bytes
  else if printable isPrint r then bytes
  else escape r

def quotedHead (isPrint : ℕ → Bool) (b : UInt8) (rest : Bytes) : Bytes × ℕ :=
  match decodeRune (b :: rest) with
  | some (r, bytes) => (escapedRune isPrint r bytes, bytes.length)
  | none => (str "\\x" ++ hexDigits 2 b.toNat, 1)

def quotedFrom (isPrint : ℕ → Bool) : ℕ → Bytes → Bytes
  | _, [] => []
  | skip + 1, _ :: s => quotedFrom isPrint skip s
  | 0, b :: s =>
    (quotedHead isPrint b s).1 ++ quotedFrom isPrint ((quotedHead isPrint b s).2 - 1) s

def quote (isPrint : ℕ → Bool) (s : Bytes) : Bytes :=
  ch '"' :: quotedFrom isPrint 0 s ++ [ch '"']

example : quote (fun _ => true) (str "a\"\n") = str "\"a\\\"\\n\"" := by decide +kernel

end GoSpidermonkey.Strconv
