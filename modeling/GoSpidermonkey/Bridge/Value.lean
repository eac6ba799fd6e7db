import GoSpidermonkey.Go.Bytes

/-!
# Values that cross the bridge

A JavaScript value on the host is data, an `*Object` or an opaque value (a symbol or a bigint). The
last two cross by handle, and a handle is a root of the guest's collector: a handle is modelled by
the root it stands for, so that a root minted later is never one that was there before.

An `*Object` is a pointer to a record that all its holders share: the host has the list of the
records, and a value has a position in it. `freed` records who has released which root.
-/

namespace GoSpidermonkey.Bridge

/-- The `k` of a value encoding. -/
inductive Kind where
  | undefined
  | null
  | bool
  | number
  | string
  | object
  | function
  | symbol
  | bigint
  | error
  | json
  | other (k : Bytes)
  deriving DecidableEq

/-- The `v` of a value encoding: numbers, and the composite data of the `json` kind, as their
text. -/
inductive Data where
  | bool (b : Bool)
  | num (text : Bytes)
  | str (s : Bytes)
  | raw (text : Bytes)
  deriving DecidableEq

structure ValueEncoding where
  k : Kind
  v : Option Data := none
  h : ℕ := 0

/-- A `float64`: a finite one as its text. -/
inductive Number where
  | nan
  | posInf
  | negInf
  | finite (text : Bytes)
  deriving DecidableEq

inductive OpaqueKind where
  | symbol
  | bigint
  deriving DecidableEq

def OpaqueKind.kind : OpaqueKind → Kind
  | .symbol => .symbol
  | .bigint => .bigint

inductive Value where
  | undefined
  | null
  | bool (b : Bool)
  | number (n : Number)
  | string (s : Bytes)
  | composite (json : Option Bytes)
  | object (r : ℕ)
  | opaqueValue (h : ℕ) (kind : OpaqueKind)
  deriving DecidableEq

structure Object where
  handle : ℕ
  callable : Bool
  taken : Bool := false

inductive Party where
  | func
  | dispatcher
  deriving DecidableEq

structure Host where
  objects : List Object := []
  freed : List (Party × ℕ) := []

namespace Host

variable (s : Host)

/-- `Object` and `Export`: the value is asked for as an object. -/
def take (r : ℕ) : Host :=
  { s with objects := s.objects.modify r fun o => { o with taken := true } }

def freeObject (p : Party) (h : ℕ) : Host := { s with freed := s.freed ++ [(p, h)] }

/-- `Object.Free`: once the handle is zero there is nothing to free. -/
def free (p : Party) (r : ℕ) : Host :=
  match s.objects[r]? with
  | none => s
  | some o =>
    if o.handle = 0 then s
    else
      { s with objects := s.objects.modify r fun o => { o with handle := 0 } }.freeObject p o.handle

/-- `opaqueValue.free`. -/
def freeOpaque (p : Party) (h : ℕ) : Host := if h = 0 then s else s.freeObject p h

/-- A new `*Object`. -/
def alloc (h : ℕ) (callable : Bool) : Host :=
  { s with objects := s.objects ++ [{ handle := h, callable := callable }] }

end Host

/-! ### Decoding -/

inductive DecodeErr where
  | undecodable
  | unknownNumber (s : Bytes)
  | jsError (message : Bytes)
  | unknownKind (k : Kind)

/-- The number of an encoding: the special ones are strings, anything else that is no number counts
as zero. -/
def decodeNumber : Option Data → Except DecodeErr Number
  | some (.str s) =>
    if s = str "NaN" then .ok .nan
    else if s = str "Infinity" then .ok .posInf
    else if s = str "-Infinity" then .ok .negInf
    else .error (.unknownNumber s)
  | some (.num text) => .ok (.finite text)
  | _ => .ok (.finite (str "0"))

/-- `e.V.(string)`. -/
def stringOf : Option Data → Bytes
  | some (.str s) => s
  | _ => []

/-- `decodeValue`; the encoding is absent if its text does not decode. -/
def decodeValue (s : Host) : Option ValueEncoding → Except DecodeErr (Value × Host)
  | none => .error .undecodable
  | some e =>
    match e.k with
    | .undefined => .ok (.undefined, s)
    | .null => .ok (.null, s)
    | .bool => .ok (.bool (e.v = some (.bool true)), s)
    | .number => (decodeNumber e.v).map fun n => (.number n, s)
    | .string => .ok (.string (stringOf e.v), s)
    | .object => .ok (.object s.objects.length, s.alloc e.h false)
    | .function => .ok (.object s.objects.length, s.alloc e.h true)
    | .symbol => .ok (.opaqueValue e.h .symbol, s)
    | .bigint => .ok (.opaqueValue e.h .bigint, s)
    | .error => .error (.jsError (stringOf e.v))
    | .json => .error (.unknownKind .json)
    | .other k => .error (.unknownKind (.other k))

/-- The loop of `dispatch` over the arguments. -/
def decodeArgs (s : Host) : List (Option ValueEncoding) → Except DecodeErr (List Value × Host)
  | [] => .ok ([], s)
  | e :: es =>
    match decodeValue s e with
    | .error err => .error err
    | .ok (v, s₁) =>
      match decodeArgs s₁ es with
      | .error err => .error err
      | .ok (vs, s₂) => .ok (v :: vs, s₂)

/-! ### Encoding -/

def encodeNumber : Number → Data
  | .nan => .str (str "NaN")
  | .posInf => .str (str "Infinity")
  | .negInf => .str (str "-Infinity")
  | .finite text => .num text

/-- `encodeValue`; the reading of an `*Object` is a call of `Object`, which marks it as taken. -/
def encodeValue (s : Host) : Option Value → Option ValueEncoding × Host
  | none => (some { k := .undefined }, s)
  | some v =>
    match v with
    | .undefined => (some { k := .undefined }, s)
    | .null => (some { k := .null }, s)
    | .bool b => (some { k := .bool, v := some (.bool b) }, s)
    | .number n => (some { k := .number, v := some (encodeNumber n) }, s)
    | .string t => (some { k := .string, v := some (.str t) }, s)
    | .composite json => (json.map fun text => { k := .json, v := some (.raw text) }, s)
    | .object r => (some { k := .object, h := (s.objects[r]?.map Object.handle).getD 0 }, s.take r)
    | .opaqueValue h kind => (some { k := kind.kind, h := h }, s)

end GoSpidermonkey.Bridge
