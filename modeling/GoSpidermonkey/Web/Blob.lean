import GoSpidermonkey.Go.Bytes
import GoSpidermonkey.Lib.Transducer

/-!
# Blobs

A `Blob` (and a `File`, which is one) keeps the bytes it had when it was constructed, and next to
them the parts it was constructed from. Its own methods answer from the bytes. A `Blob` that is a
part of another one is encoded from its parts again (`concatBytes(part._blobParts)`), so there the
buffers and objects among the parts are read as they are at that moment.

Guest code changes its buffers and objects between two calls in any way; a change is a new heap.
-/

namespace GoSpidermonkey.Web.Blobs

open Transducer List

/-! ### What a part reads as -/

/-- Buffers and objects of the guest. -/
structure Heap where
  /-- The contents of an `ArrayBuffer`, `none` once it is detached. -/
  buffers : ℕ → Option Bytes
  /-- `new TextEncoder().encode(String(o))` for an object, `none` where it throws. -/
  texts : ℕ → Option Bytes

inductive Kind
  | uint8
  | typed (size : ℕ)
  | dataView

/-- A view on a buffer; without a length it follows the length of the buffer. -/
structure View where
  kind : Kind
  buf : ℕ
  byteOffset : ℕ
  byteLength : Option ℕ

/-- The number of bytes in a view on a buffer of a length, `none` when it is out of bounds. -/
def View.extent (v : View) (length : ℕ) : Option ℕ :=
  match v.byteLength with
  | some n => if v.byteOffset + n ≤ length then some n else none
  | none =>
    if v.byteOffset ≤ length then
      match v.kind with
      | .typed size => some ((length - v.byteOffset) / size * size)
      | .uint8 | .dataView => some (length - v.byteOffset)
    else none

/-- The copy of a view that `encodePart` makes, `none` where that throws. -/
def View.copy (h : Heap) (v : View) : Option Bytes :=
  (h.buffers v.buf).bind fun bytes =>
    match v.extent bytes.length, v.kind with
    | some n, _ => some ((bytes.drop v.byteOffset).take n)
    | none, .typed _ => some []
    | none, .uint8 | none, .dataView => none

inductive Part
  | view (v : View)
  | buffer (buf : ℕ)
  | text (utf8 : Bytes)
  | object (o : ℕ)
  | own (bytes : Bytes)
  /-- A Blob: `_blobParts` and `_bytes`. -/
  | blob (parts : List Part) (bytes : Bytes)

mutual

def encodePart (h : Heap) : Part → Option Bytes
  | .view v => v.copy h
  | .buffer buf => h.buffers buf
  | .text utf8 => some utf8
  | .object o => h.texts o
  | .own bytes => some bytes
  | .blob parts _ => concatBytes h parts

def concatBytes (h : Heap) : List Part → Option Bytes
  | [] => some []
  | part :: parts =>
    (encodePart h part).bind fun a => (concatBytes h parts).map fun b => a ++ b

end

mutual

def Part.sources : Part → List Part
  | .blob parts _ => sourcesOf parts
  | part => [part]

def sourcesOf : List Part → List Part
  | [] => []
  | part :: parts => part.sources ++ sourcesOf parts

end

/-! ### Calls -/

/-- A Blob or a File. -/
structure Blob where
  parts : List Part
  bytes : Bytes

inductive Arg
  | view (v : View)
  | buffer (buf : ℕ)
  | text (utf8 : Bytes)
  | object (o : ℕ)
  | blob (b : ℕ)

inductive Parts
  /-- Left out, or `null`. -/
  | missing
  | iterable (args : List Arg)
  | notIterable

/-- The heap, the Blobs, and the streams with the arrays they have captured. -/
structure State where
  heap : Heap
  blobs : List Blob
  streams : List (Option Bytes)

inductive Act
  | mutate (heap : Heap)
  /-- `new Blob`, `new File`, and the `File` that a `FormData` makes of a Blob. -/
  | construct (parts : Parts)
  | slice (b : ℕ) (start finish : Option ℤ)
  | bytes (b : ℕ)
  | arrayBuffer (b : ℕ)
  | stream (b : ℕ)
  | drain (stream : ℕ)

inductive Answer
  | undefined
  | bytes (b : Bytes)
  | chunks (c : List Bytes)
  | blob (b : ℕ)
  | stream (i : ℕ)
  | typeError
deriving DecidableEq

variable (s : State)

def State.part : Arg → Option Part
  | .view v => some (.view v)
  | .buffer buf => some (.buffer buf)
  | .text utf8 => some (.text utf8)
  | .object o => some (.object o)
  | .blob b => (s.blobs[b]?).map fun blob => .blob blob.parts blob.bytes

/-- `[...(parts || [])]`, where every part exists. -/
def State.parts : Parts → Option (List Part)
  | .missing => some []
  | .iterable args => args.mapM s.part
  | .notIterable => none

def State.add (b : Blob) : Answer × State :=
  (.blob s.blobs.length, { s with blobs := s.blobs ++ [b] })

def constructWith (concat : Heap → List Part → Option Bytes) (parts : Parts) : Answer × State :=
  match s.parts parts with
  | none => (.typeError, s)
  | some ps =>
    match concat s.heap ps with
    | none => (.typeError, s)
    | some bytes => s.add ⟨ps, bytes⟩

/-- A bound of `slice` in an array of a length. -/
def clamp (length : ℕ) (i : ℤ) : ℕ :=
  if i < 0 then (max (length + i) 0).toNat else min i.toNat length

/-- `this._bytes.slice(s, Math.max(s, e))`. -/
def blobSlice (bytes : Bytes) (start finish : Option ℤ) : Bytes :=
  let s := clamp bytes.length (start.getD 0)
  let e := clamp bytes.length (finish.getD bytes.length)
  (bytes.drop s).take (max s e - s)

/-- `slice`, which makes an array and keeps it as the only part. -/
def sliceBlob (b : Blob) (start finish : Option ℤ) : Blob :=
  let bytes := blobSlice b.bytes start finish
  ⟨[.own bytes], bytes⟩

/-- One act; a number that guest code cannot have is answered with a `TypeError`. -/
def step (s : State) : Act → Answer × State
  | .mutate heap => (.undefined, { s with heap := heap })
  | .construct parts => constructWith s concatBytes parts
  | .slice b start finish =>
    match s.blobs[b]? with
    | some blob => s.add (sliceBlob blob start finish)
    | none => (.typeError, s)
  | .bytes b | .arrayBuffer b =>
    match s.blobs[b]? with
    | some blob => (.bytes blob.bytes, s)
    | none => (.typeError, s)
  | .stream b =>
    match s.blobs[b]? with
    | some blob =>
      (.stream s.streams.length, { s with streams := s.streams ++ [some blob.bytes] })
    | none => (.typeError, s)
  | .drain i =>
    match s.streams[i]? with
    | some (some bytes) =>
      (.chunks (if bytes = [] then [] else [bytes]), { s with streams := s.streams.set i none })
    | some none => (.chunks [], s)
    | none => (.typeError, s)

/-! ### Immutable Blobs -/

/-- The bytes of the parts, where those of a Blob are the ones it had when it was constructed. -/
def snapshotBytes (h : Heap) : List Part → Option Bytes
  | [] => some []
  | .blob _ bytes :: parts => (snapshotBytes h parts).map fun b => bytes ++ b
  | part :: parts => (encodePart h part).bind fun a => (snapshotBytes h parts).map fun b => a ++ b

/-- No change touches what a Blob was constructed from. -/
def Undisturbed (s : State) : Act → Prop
  | .mutate heap => ∀ b ∈ s.blobs, ∀ source ∈ sourcesOf b.parts,
      encodePart heap source = encodePart s.heap source
  | _ => True

mutual

lemma encodePart_congr {h h' : Heap} (part : Part)
    (hsame : ∀ source ∈ part.sources, encodePart h' source = encodePart h source) :
    encodePart h' part = encodePart h part := by
  match part with
  | .view v => exact hsame _ (mem_singleton_self _)
  | .buffer buf => exact hsame _ (mem_singleton_self _)
  | .text utf8 => rfl
  | .object o => exact hsame _ (mem_singleton_self _)
  | .own bytes => rfl
  | .blob parts bytes => exact concatBytes_congr parts hsame

lemma concatBytes_congr {h h' : Heap} (parts : List Part)
    (hsame : ∀ source ∈ sourcesOf parts, encodePart h' source = encodePart h source) :
    concatBytes h' parts = concatBytes h parts := by
  match parts with
  | [] => rfl
  | part :: parts =>
    rw [concatBytes, concatBytes,
      encodePart_congr part fun source hs => hsame source (mem_append_left _ hs),
      concatBytes_congr parts fun source hs => hsame source (mem_append_right _ hs)]

end

inductive Moves (s : State) : Act → State → Prop
  | same (act : Act) : Moves s act s
  | mutate (heap : Heap) : Moves s (.mutate heap) { s with heap := heap }
  | add (act : Act) {b : Blob} (hb : concatBytes s.heap b.parts = some b.bytes) :
    Moves s act (s.add b).2
  | openStream (b : ℕ) (bytes : Bytes) :
    Moves s (.stream b) { s with streams := s.streams ++ [some bytes] }
  | closeStream (i : ℕ) : Moves s (.drain i) { s with streams := s.streams.set i none }

lemma step_moves (s : State) (act : Act) : Moves s act (step s act).2 := by
  cases act with
  | mutate heap => exact .mutate heap
  | construct parts =>
    simp only [step, constructWith]
    split
    · exact .same _
    · split
      · exact .same _
      · rename_i hbytes
        exact .add _ hbytes
  | slice b start finish =>
    simp only [step]
    split
    · exact .add _ (by simp [sliceBlob, concatBytes, encodePart])
    · exact .same _
  | bytes b | arrayBuffer b =>
    simp only [step]
    split <;> exact .same _
  | stream b =>
    simp only [step]
    split
    · exact .openStream b _
    · exact .same _
  | drain i =>
    simp only [step]
    split
    · exact .closeStream i
    · exact .same _
    · exact .same _

/-- Every Blob's parts still read as its bytes. -/
def Current (s : State) : Prop := ∀ b ∈ s.blobs, concatBytes s.heap b.parts = some b.bytes

variable {s}

lemma Current.step (h : Current s) {act : Act} (hact : Undisturbed s act) :
    Current (step s act).2 := by
  have hmoves := step_moves s act
  generalize (Blobs.step s act).2 = s' at hmoves ⊢
  cases hmoves with
  | same => exact h
  | mutate heap =>
    intro b hb
    exact (concatBytes_congr b.parts (hact b hb)).trans (h b hb)
  | add _ hnew =>
    intro b hb
    rcases mem_append.mp hb with hb | hb
    · exact h b hb
    · rw [mem_singleton.mp hb]
      exact hnew
  | openStream b bytes => exact h
  | closeStream i => exact h

/-- Where the Blobs are current, the parts that guest code passes read as their snapshots. -/
lemma Current.concatBytes_eq (h : Current s) {args : List Arg} {parts : List Part}
    (hparts : args.mapM s.part = some parts) :
    concatBytes s.heap parts = snapshotBytes s.heap parts := by
  induction args generalizing parts with
  | nil =>
    cases hparts
    rfl
  | cons arg args ih =>
    rw [mapM_cons] at hparts
    obtain ⟨part, hpart, hrest⟩ := Option.bind_eq_some_iff.mp hparts
    obtain ⟨rest, hargs, hcons⟩ := Option.bind_eq_some_iff.mp hrest
    cases hcons
    have hread := ih hargs
    cases arg with
    | blob b =>
      obtain ⟨blob, hb, rfl⟩ := Option.map_eq_some_iff.mp hpart
      have hcurrent := h blob (mem_of_getElem? hb)
      rw [concatBytes, encodePart, hcurrent, Option.bind_some, snapshotBytes, hread]
    | view v | buffer buf | text utf8 | object o =>
      cases hpart
      rw [concatBytes, snapshotBytes, hread]
      nofun

lemma Current.construct_eq (h : Current s) (parts : Parts) :
    constructWith s concatBytes parts = constructWith s snapshotBytes parts := by
  cases parts with
  | missing => rfl
  | notIterable => rfl
  | iterable args =>
    simp only [constructWith, State.parts]
    cases hparts : args.mapM s.part with
    | none => rfl
    | some ps => simp only [h.concatBytes_eq hparts]

/-! ### What the tables keep -/

lemma blobs_step {i : ℕ} {b : Blob} (hb : s.blobs[i]? = some b) (act : Act) :
    (step s act).2.blobs[i]? = some b := by
  have hmoves := step_moves s act
  generalize (step s act).2 = s' at hmoves ⊢
  cases hmoves with
  | same | mutate heap | openStream c bytes | closeStream j => exact hb
  | add _ hnew =>
    have hlt := (List.getElem?_eq_some_iff.mp hb).1
    exact (getElem?_append_left hlt).trans hb

lemma blobs_final {i : ℕ} {b : Blob} (hb : s.blobs[i]? = some b) (acts : List Act) :
    (final step s acts).blobs[i]? = some b := by
  induction acts generalizing s with
  | nil => exact hb
  | cons act acts ih => exact ih (blobs_step hb act)

lemma streams_step {j : ℕ} {x : Option Bytes} (hx : s.streams[j]? = some x) {act : Act}
    (hact : act ≠ .drain j) : (step s act).2.streams[j]? = some x := by
  have hmoves := step_moves s act
  generalize (step s act).2 = s' at hmoves ⊢
  cases hmoves with
  | same | mutate heap | add _ hnew => exact hx
  | openStream b bytes =>
    have hlt := (List.getElem?_eq_some_iff.mp hx).1
    exact (getElem?_append_left hlt).trans hx
  | closeStream i =>
    have hne : i ≠ j := fun h => hact (h ▸ rfl)
    exact (getElem?_set_ne hne).trans hx

lemma streams_final {j : ℕ} {x : Option Bytes} (hx : s.streams[j]? = some x) {acts : List Act}
    (hacts : ∀ act ∈ acts, act ≠ .drain j) : (final step s acts).streams[j]? = some x := by
  induction acts generalizing s with
  | nil => exact hx
  | cons act acts ih =>
    have hnext := streams_step hx (hacts act mem_cons_self)
    exact ih hnext fun act' h => hacts act' (mem_cons_of_mem _ h)

/-! ### Blob immutability -/

def start (heap : Heap) : State := ⟨heap, [], []⟩

lemma current_final {heap : Heap} {acts : List Act}
    (hacts : Always step Undisturbed (start heap) acts) :
    Current (final step (start heap) acts) := by
  have hstart : Current (start heap) := by
    intro b hb
    cases hb
  generalize start heap = s at hacts hstart
  induction acts generalizing s with
  | nil => exact hstart
  | cons act acts ih => exact ih _ hacts.2 (hstart.step hacts.1)

/-- What guest code gets from a Blob is what it was at the construction; and so is what the Blob
contributes to a new one, if no change has touched what it was constructed from. -/
theorem blob_immutable {heap : Heap} {before after : List Act} {i : ℕ} {b : Blob} {s t : State}
    (hs : final step (start heap) before = s) (hb : s.blobs[i]? = some b)
    (ht : final step s after = t) :
    (step t (.bytes i)).1 = .bytes b.bytes
    ∧ (step t (.arrayBuffer i)).1 = .bytes b.bytes
    ∧ (∀ start finish, ∃ c : Blob,
      step t (.slice i start finish) = t.add c ∧ c.bytes = blobSlice b.bytes start finish)
    ∧ (∀ later, (∀ act ∈ later, act ≠ .drain t.streams.length) →
      (step (final step (step t (.stream i)).2 later) (.drain t.streams.length)).1
        = .chunks (if b.bytes = [] then [] else [b.bytes]))
    ∧ (Always step Undisturbed (start heap) (before ++ after) →
      ∀ parts, step t (.construct parts) = constructWith t snapshotBytes parts) := by
  have hbt : t.blobs[i]? = some b := ht ▸ blobs_final hb after
  refine ⟨?_, ?_, ?_, ?_, ?_⟩
  · simp only [step, hbt]
  · simp only [step, hbt]
  · intro start finish
    exact ⟨sliceBlob b start finish, by simp only [step, hbt], rfl⟩
  · intro later hlater
    have hopen : (step t (.stream i)).2.streams[t.streams.length]? = some (some b.bytes) := by
      simp [step, hbt]
    have hstill := streams_final hopen hlater
    generalize final step (step t (.stream i)).2 later = u at hstill ⊢
    simp only [step, hstill]
  · intro hundisturbed parts
    have hcurrent := current_final hundisturbed
    rw [final_append, hs, ht] at hcurrent
    exact hcurrent.construct_eq parts

def buffers (contents : List Bytes) : Heap := ⟨fun i => contents[i]?, fun _ => none⟩

/-- A Blob over a whole buffer, a stream and a slice of it, and a change of another buffer; then a
Blob of that Blob and the other buffer. -/
theorem composed_after_mutation :
    let s := final step (start (buffers [[1], [2]])) [.construct (.iterable [.buffer 0])]
    let t := final step s
      [.stream 0, .mutate (buffers [[1], [9]]), .slice 0 (some 0) none, .drain 0]
    (step t (.bytes 0)).1 = .bytes [1] ∧
      step t (.construct (.iterable [.blob 0, .buffer 1])) =
        constructWith t snapshotBytes (.iterable [.blob 0, .buffer 1]) := by
  intro s t
  have hblob : s.blobs[0]? = some ⟨[.buffer 0], [1]⟩ := rfl
  obtain ⟨hbytes, -, -, -, hcomposed⟩ := blob_immutable (t := t) rfl hblob rfl
  refine ⟨hbytes, hcomposed ⟨trivial, trivial, ?_, trivial, trivial, trivial⟩ _⟩
  intro b hb source hsource
  obtain rfl := mem_singleton.mp hb
  obtain rfl := mem_singleton.mp hsource
  rfl

/-- The Blob keeps its byte, and the Blob of the Blob has the new one. -/
theorem rebuilt_from_mutated_part :
    outputs step (start (buffers [[1]]))
      [.construct (.iterable [.view ⟨.uint8, 0, 0, some 1⟩]), .mutate (buffers [[9]]),
        .construct (.iterable [.blob 0]), .bytes 0, .bytes 1]
      = [.blob 0, .undefined, .blob 1, .bytes [1], .bytes [9]] := by
  decide

end GoSpidermonkey.Web.Blobs
