import Mathlib

/-!
# Incremental decoders

A decoder reads its input letter by letter. `output u` is what the letters `u` let it decode so far;
some inputs show their own end (`verdict`), the others are ended from outside (`atEnd`). `decode` is
the meaning of a whole input: its output, and the error that ended it if there was one.

A reader that has consumed the letters `u` without stopping knows a part of the output already
(`output_prefix_decode`), and the whole of it once it stops (`decode_of_verdict`, `decode_of_end`).
These hold for every continuation of the input, so they do not depend on how the input arrives.
-/

/-- An incremental decoder from `α` to `β` with errors `ε`. -/
structure Decoder (α β ε : Type*) where
  output : List α → List β
  verdict : List α → Option (Option ε)
  /-- The rest of the output and the end, where the input stops after these letters. -/
  atEnd : List α → List β × Option ε
  output_mono : ∀ u a, output u <+: output (u ++ [a])

namespace Decoder

open List

variable {α β ε : Type*} (d : Decoder α β ε)

/-- The letters consumed of an input, after the letters `u`. -/
def scan (u : List α) : List α → List α
  | [] => u
  | a :: rest =>
    match d.verdict u with
    | some _ => u
    | none => scan (u ++ [a]) rest

def decode (data : List α) : List β × Option ε :=
  let u := d.scan [] data
  match d.verdict u with
  | some e => (d.output u, e)
  | none => (d.output u ++ (d.atEnd u).1, (d.atEnd u).2)

/-- No beginning of the letters shows an end. -/
def Unstopped (u : List α) : Prop := ∀ v a w, u = v ++ a :: w → d.verdict v = none

variable {d}

lemma unstopped_nil : d.Unstopped [] := by
  intro v a w h
  simp at h

lemma Unstopped.snoc {u : List α} (h : d.Unstopped u) (hu : d.verdict u = none) (a : α) :
    d.Unstopped (u ++ [a]) := by
  intro v b w hvw
  rcases eq_nil_or_concat' w with rfl | ⟨w, c, rfl⟩
  · obtain ⟨rfl, -⟩ := append_inj' hvw rfl
    exact hu
  · have heq : u ++ [a] = (v ++ b :: w) ++ [c] := by simpa using hvw
    exact h v b w (append_inj' heq rfl).1

lemma scan_stopped {u : List α} {e : Option ε} (hu : d.verdict u = some e) (rest : List α) :
    d.scan u rest = u := by
  cases rest with
  | nil => rfl
  | cons a rest => simp [scan, hu]

lemma scan_append {v u : List α} (h : d.Unstopped (v ++ u)) (rest : List α) :
    d.scan v (u ++ rest) = d.scan (v ++ u) rest := by
  induction u generalizing v with
  | nil => simp
  | cons a u ih =>
    have hv : d.verdict v = none := h v a u rfl
    have hshift : v ++ a :: u = (v ++ [a]) ++ u := by simp
    rw [hshift] at h
    rw [cons_append, scan, hv, hshift]
    exact ih h

lemma output_prefix_scan (u rest : List α) : d.output u <+: d.output (d.scan u rest) := by
  induction rest generalizing u with
  | nil => exact prefix_refl _
  | cons a rest ih =>
    rw [scan]
    split
    · exact prefix_refl _
    · exact (d.output_mono u a).trans (ih (u ++ [a]))

lemma output_prefix_decode {u : List α} (h : d.Unstopped u) (rest : List α) :
    d.output u <+: (d.decode (u ++ rest)).1 := by
  have hscan : d.scan [] (u ++ rest) = d.scan u rest := scan_append (v := []) h rest
  have hle := output_prefix_scan (d := d) u rest
  simp only [decode, hscan]
  split
  · exact hle
  · exact hle.trans (prefix_append _ _)

lemma decode_of_verdict {u : List α} (h : d.Unstopped u) {e : Option ε} (hu : d.verdict u = some e)
    (rest : List α) : d.decode (u ++ rest) = (d.output u, e) := by
  have hscan : d.scan [] (u ++ rest) = u :=
    (scan_append (v := []) h rest).trans (scan_stopped hu rest)
  simp only [decode, hscan, hu]

lemma decode_of_end {u : List α} (h : d.Unstopped u) (hu : d.verdict u = none) :
    d.decode u = (d.output u ++ (d.atEnd u).1, (d.atEnd u).2) := by
  have hscan : d.scan [] u = u := by simpa [scan] using scan_append (v := []) h []
  simp only [decode, hscan, hu]

end Decoder
