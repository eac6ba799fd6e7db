import GoSpidermonkey.Go.Bytes
import GoSpidermonkey.Lib.Decoder
import GoSpidermonkey.Lib.Machine

/-!
# Decompression, at once and in chunks

`zlibRun` decompresses a whole input. A stream (`zlibStream`) gets the input chunk by chunk: each
`zlib_stream_write` hands its chunk to a decoder that runs in its own goroutine (`zlibDecomp`),
waits until the decoder has consumed it and returns the output so far; `zlib_stream_end` waits for
the decoder to finish.

The two goroutines share `zlibDecomp` under its mutex and its condition variable. A step is one
critical section, or what the decoder does on its own between two of them. A goroutine in
`cond.Wait` is asleep until the next `Broadcast`; then it is awake and takes the mutex in some later
step.

The codecs' readers are decoders in the sense of `Decoder`. A reader may take its input in pieces of
any size, may hold back output it could deliver, and delivers it in pieces of any size.
-/

namespace GoSpidermonkey.Nodejs.Zlib

inductive Err
  | eof
  | unexpectedEOF
  | corrupt (text : Bytes)
  /-- `decompressed output exceeds %d bytes`. -/
  | tooLarge
deriving DecidableEq

/-- A codec's `NewReader` and the reads after it, up to `io.EOF`. -/
abbrev Codec := Decoder UInt8 UInt8 Err

/-- The codecs of the Go libraries. -/
structure Codecs where
  gzip : Codec
  zlib : Codec
  flate : Codec
  brotli : Codec
  /-- `zlib.NewReader` reads a header of two bytes before anything else. -/
  zlib_header : ∀ data, data.length < 2 → (zlib.decode data).2 ≠ none

inductive Method
  | gunzip | inflate | inflateRaw | unzip | brotliDecompress
deriving DecidableEq

def maxZlibOutput : ℕ := 256 <<< 20

/-! ### At once -/

/-- `readCapped` over the reader of a codec. -/
def readCapped (codec : Codec) (data : Bytes) : Except Err Bytes :=
  let r := codec.decode data
  if maxZlibOutput < r.1.length then .error .tooLarge
  else
    match r.2 with
    | some e => .error e
    | none => .ok r.1

def gzipMagic (data : Bytes) : Bool :=
  match data with
  | a :: b :: _ => a == 0x1f && b == 0x8b
  | _ => false

def codecFor (codecs : Codecs) (method : Method) (data : Bytes) : Codec :=
  match method with
  | .gunzip => codecs.gzip
  | .inflate => codecs.zlib
  | .inflateRaw => codecs.flate
  | .brotliDecompress => codecs.brotli
  | .unzip => if gzipMagic data then codecs.gzip else codecs.zlib

/-- `zlibRun` for the methods that decompress. -/
def zlibRun (codecs : Codecs) (method : Method) (data : Bytes) : Except Err Bytes :=
  readCapped (codecFor codecs method data) data

/-! ### The decoder goroutine -/

/-- Where the goroutine of `run` is. -/
inductive Pc
  | running
  /-- `r.Read` has returned these bytes. -/
  | appending (chunk : Bytes)
  /-- In the `cond.Wait` of `Read`. -/
  | waiting (asleep : Bool)
  /-- After the loop, with `terminal`. -/
  | exiting (terminal : Option Err)
  /-- Before `close(d.done)`. -/
  | closing
  | exited
deriving DecidableEq

/-- `cond.Broadcast` for the decoder. -/
def Pc.woken : Pc → Pc
  | .waiting _ => .waiting false
  | pc => pc

/-- `zlibDecomp` with the goroutine's own state. -/
structure Decomp where
  codec : Codec
  buf : Bytes := []
  closed : Bool := false
  drained : Bool := false
  finished : Bool := false
  out : Bytes := []
  err : Option Err := none
  pc : Pc := .running
  consumed : Bytes := []
  held : Bytes := []
  eof : Bool := false
  total : ℕ := 0

inductive DecAct
  /-- The reader returns `n` bytes. -/
  | deliver (n : ℕ)
  /-- `d.out = append(d.out, buf[:n]...)`. -/
  | append
  | consume
  /-- One round of the loop of `Read`, which takes up to `n` bytes. -/
  | read (n : ℕ)
  | stop
  /-- The last critical section of `run`. -/
  | exit
  /-- `close(d.done)`. -/
  | close

namespace Decomp

variable (d : Decomp)

def available : Bytes :=
  d.codec.output d.consumed ++ if d.eof then (d.codec.atEnd d.consumed).1 else []

def ending : Option (Option Err) :=
  if d.eof then some (d.codec.atEnd d.consumed).2 else d.codec.verdict d.consumed

/-- The reader needs more input. -/
def Hungry : Prop :=
  (d.pc = .running ∨ d.pc = .waiting false) ∧ d.ending = none ∧ d.held = []

instance : Decidable d.Hungry := inferInstanceAs (Decidable (_ ∧ _))

def step : DecAct → Option (Decomp × Bool)
  | .deliver n =>
    if d.pc = .running ∧ 0 < n ∧ d.total + n ≤ d.available.length then
      let total := d.total + n
      some (if maxZlibOutput < total then { d with total, pc := .exiting (some .tooLarge) }
        else { d with total, pc := .appending ((d.available.drop d.total).take n) }, false)
    else none
  | .append =>
    match d.pc with
    | .appending chunk => some ({ d with out := d.out ++ chunk, pc := .running }, false)
    | _ => none
  | .consume =>
    match d.held with
    | b :: rest =>
      if d.pc = .running ∧ d.ending = none then
        some ({ d with consumed := d.consumed ++ [b], held := rest }, false)
      else none
    | [] => none
  | .read n =>
    if d.Hungry then
      if d.buf ≠ [] then
        if 0 < n then
          some ({ d with held := d.buf.take n, buf := d.buf.drop n, pc := .running }, false)
        else none
      else if d.closed then some ({ d with eof := true, pc := .running }, false)
      else some ({ d with drained := true, pc := .waiting true }, true)
    else none
  | .stop =>
    match d.ending with
    | some terminal =>
      if d.pc = .running ∧ d.total = d.available.length then
        some ({ d with pc := .exiting terminal }, false)
      else none
    | none => none
  | .exit =>
    match d.pc with
    | .exiting terminal =>
      some ({ d with finished := true, err := terminal, pc := .closing }, true)
    | _ => none
  | .close => if d.pc = .closing then some ({ d with pc := .exited }, false) else none

end Decomp

/-! ### The stream -/

/-- What the guest asks for before it ends the stream. -/
inductive Item
  | write (data : Bytes)
  | flush

def written : List Item → Bytes
  | [] => []
  | .write data :: items => data ++ written items
  | .flush :: items => written items

inductive Code
  | dataError | bufError
deriving DecidableEq

inductive Answer
  | bytes (b : Bytes)
  | error (code : Code)
deriving DecidableEq

def Answer.output : Answer → Bytes
  | .bytes b => b
  | .error _ => []

def Answer.failed : Answer → Bool
  | .bytes _ => false
  | .error _ => true

inductive Main
  | idle
  /-- In the loop of `feed`. -/
  | feeding (asleep : Bool)
  /-- `feed` has returned no error. -/
  | taking
  /-- In `end`, before `<-d.done`. -/
  | ending
  | ended (answer : Answer)
deriving DecidableEq

/-- `cond.Broadcast` for the goroutine of the guest. -/
def Main.woken : Main → Main
  | .feeding _ => .feeding false
  | m => m

/-- A stream, with what the guest will still ask for and the answers it got. -/
structure Stream where
  method : Method
  sniff : Bytes
  dec : Option Decomp
  main : Main
  items : List Item
  answers : List Answer

/-- `opZlibStreamNew`: an unzip stream starts its decoder later. -/
def newStream (codecs : Codecs) (method : Method) (items : List Item) : Stream where
  method := method
  sniff := []
  dec := if method = .unzip then none else some { codec := codecFor codecs method [] }
  main := .idle
  items := items
  answers := []

/-- The code that `opZlibStreamEnd` reports. -/
def endCode : Err → Code
  | .eof | .unexpectedEOF => .bufError
  | .corrupt _ | .tooLarge => .dataError

namespace Stream

variable (s : Stream)

/-- The first critical section of `feed`. -/
def feed (d : Decomp) (p : Bytes) : Stream :=
  match d.err with
  | some _ => { s with dec := some d, answers := s.answers ++ [.error .dataError] }
  | none =>
    if d.finished || d.closed then { s with dec := some d, main := .taking }
    else { s with
      dec := some { d with buf := d.buf ++ p, drained := false, pc := d.pc.woken }
      main := .feeding true }

/-- `take`, whose output is the answer. -/
def take (d : Decomp) : Stream := { s with
  dec := some { d with out := [] }
  main := .idle
  answers := s.answers ++ [.bytes d.out] }

def mainStep (codecs : Codecs) : Option Stream :=
  match s.main, s.dec with
  | .idle, dec =>
    match s.items, dec with
    | .write data :: items, some d => some ({ s with items := items }.feed d data)
    | .write data :: items, none =>
      let sniff := s.sniff ++ data
      if sniff.length < 2 then
        some { s with items := items, sniff := sniff, answers := s.answers ++ [.bytes []] }
      else
        let d : Decomp := { codec := if gzipMagic sniff then codecs.gzip else codecs.zlib }
        some ({ s with items := items, sniff := [] }.feed d sniff)
    | .flush :: items, some d => some ({ s with items := items }.take d)
    | .flush :: items, none => some { s with items := items, answers := s.answers ++ [.bytes []] }
    | [], some d => some { s with
        dec := some { d with closed := true, pc := d.pc.woken }
        main := .ending }
    | [], none => some { s with main := .ended (.error .bufError) }
  | .feeding false, some d =>
    if !d.drained && !d.finished then some { s with main := .feeding true }
    else
      match d.err with
      | some _ => some { s with main := .idle, answers := s.answers ++ [.error .dataError] }
      | none => some { s with main := .taking }
  | .taking, some d => some (s.take d)
  | .ending, some d =>
    if d.pc = .exited then
      match d.err with
      | some e => some { s with
          dec := some { d with out := [] }
          main := .ended (.error (endCode e)) }
      | none => some { s with
          dec := some { d with out := [] }
          main := .ended (.bytes d.out) }
    else none
  | _, _ => none

inductive Act
  | main
  | decoder (a : DecAct)

def step (codecs : Codecs) (s : Stream) : Act → Option Stream
  | .main => s.mainStep codecs
  | .decoder a =>
    match s.dec with
    | none => none
    | some d => (d.step a).map fun r => { s with
        dec := some r.1
        main := if r.2 then s.main.woken else s.main }

def returned : Bytes :=
  (s.answers.map Answer.output).flatten ++ match s.main with
    | .ended answer => answer.output
    | _ => []

/-- Some operation has reported an error. -/
def Failed : Prop := (∃ a ∈ s.answers, a.failed = true) ∨ ∃ code, s.main = .ended (.error code)

/-- `feed` and the decoder both wait. -/
def Deadlocked : Prop := s.main = .feeding true ∧ ∃ d, s.dec = some d ∧ d.pc = .waiting true

end Stream

end GoSpidermonkey.Nodejs.Zlib
