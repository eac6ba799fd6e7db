import Mathlib

/-!
# Go strings

A Go string is a sequence of bytes, with no promise about its encoding. `str` turns an ASCII
literal into the bytes it denotes.
-/

namespace GoSpidermonkey

/-- The bytes of a Go `string` or `[]byte`. -/
abbrev Bytes := List UInt8

instance : LawfulBEq Bytes := inferInstance

instance : IsTrans Bytes (· ≤ ·) := inferInstance

instance : Std.Antisymm (α := Bytes) (· ≤ ·) := inferInstance

instance : Std.Total (α := Bytes) (· ≤ ·) := inferInstance

def ch (c : Char) : UInt8 := UInt8.ofNat c.toNat

def str (s : String) : Bytes := s.toList.map ch

def toLowerByte (b : UInt8) : UInt8 := if 65 ≤ b ∧ b ≤ 90 then b + 32 else b

def eqFold (a b : Bytes) : Bool := a.map toLowerByte == b.map toLowerByte

end GoSpidermonkey
