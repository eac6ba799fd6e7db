import Mathlib

/-!
# The guest's path module

`path.resolve` of the guest works on strings; only the slash and the dot matter to it, so it stands
here over any alphabet with these two letters.
-/

namespace GoSpidermonkey.Nodejs.PathLib

open List

variable {α : Type*} [DecidableEq α] (slash dot : α)

/-- One round of the loop of `normalizeSegs`. -/
def pushSeg (abs : Bool) (out : List (List α)) (seg : List α) : List (List α) :=
  if seg = [] ∨ seg = [dot] then out
  else if seg = [dot, dot] then
    if out ≠ [] ∧ out.getLast? ≠ some [dot, dot] then out.dropLast
    else if abs then out
    else out ++ [[dot, dot]]
  else out ++ [seg]

def normalizeSegs (p : List α) (keepRoot : Bool) : List α :=
  let abs := p.head? == some slash
  let out := (p.splitOn slash).foldl (pushSeg dot abs) []
  let joined := [slash].intercalate out
  let joined := if abs then slash :: joined else joined
  if joined = [] then (if abs && keepRoot then [slash] else [dot]) else joined

/-- The loop of `resolve`, from the last part to the first. -/
def resolveLoop (resolved : List α) : List (List α) → List α
  | [] => resolved
  | p :: parts =>
    if p = [] then resolveLoop resolved parts
    else
      let resolved := if resolved = [] then p else p ++ slash :: resolved
      if p.head? = some slash then resolved else resolveLoop resolved parts

/-- `resolve`; the working directory of the guest is always the root. -/
def resolve (parts : List (List α)) : List α :=
  let resolved := resolveLoop slash [] parts.reverse
  let resolved := if resolved.head? = some slash then resolved else [slash] ++ slash :: resolved
  normalizeSegs slash dot resolved true

/-! ### What comes out -/

/-- A name that stands in a normal path. -/
structure IsName (seg : List α) : Prop where
  ne_nil : seg ≠ []
  noSlash : slash ∉ seg
  ne_dot : seg ≠ [dot]
  ne_dotDot : seg ≠ [dot, dot]

variable {slash dot}

lemma isName_pushSeg {out : List (List α)} {seg : List α} (hout : ∀ s ∈ out, IsName slash dot s)
    (hseg : slash ∉ seg) : ∀ s ∈ pushSeg dot true out seg, IsName slash dot s := by
  unfold pushSeg
  split_ifs with hskip hup _ habs
  · exact hout
  · exact fun s hs => hout s (dropLast_subset out hs)
  · exact hout
  · exact absurd rfl habs
  · push Not at hskip
    intro s hs
    rcases mem_append.mp hs with hs | hs
    · exact hout s hs
    · rw [mem_singleton.mp hs]
      exact ⟨hskip.1, hseg, hskip.2, hup⟩

lemma isName_foldl_pushSeg {segs out : List (List α)} (hout : ∀ s ∈ out, IsName slash dot s)
    (hsegs : ∀ s ∈ segs, slash ∉ s) :
    ∀ s ∈ segs.foldl (pushSeg dot true) out, IsName slash dot s := by
  induction segs generalizing out with
  | nil => exact hout
  | cons seg segs ih =>
    rw [foldl_cons]
    exact ih (isName_pushSeg hout (hsegs seg (.head _))) fun s hs => hsegs s (.tail _ hs)

lemma not_mem_of_mem_splitOn {a : α} {l seg : List α} (h : seg ∈ l.splitOn a) : a ∉ seg := by
  induction l generalizing seg with
  | nil =>
    rw [splitOn_nil, mem_singleton] at h
    simp [h]
  | cons x l ih =>
    rw [List.splitOn, splitOnP_cons_eq_if_modifyHead] at h
    split_ifs at h with hx
    · rcases mem_cons.mp h with rfl | h
      · exact not_mem_nil
      · exact ih h
    · cases hl : l.splitOnP (· == a) with
      | nil => exact absurd hl (splitOnP_ne_nil _ _)
      | cons head tail =>
        rw [hl, modifyHead_cons] at h
        rcases mem_cons.mp h with rfl | h
        · have hhead : a ∉ head := ih (by rw [List.splitOn, hl]; exact .head _)
          have hne : a ≠ x := fun e => hx (by simp [e])
          exact fun hmem => (mem_cons.mp hmem).elim hne hhead
        · exact ih (by rw [List.splitOn, hl]; exact .tail _ h)

variable (slash dot) in
/-- What `resolve` gives is absolute and made of names. -/
lemma resolve_eq (parts : List (List α)) :
    ∃ segs : List (List α), (∀ s ∈ segs, IsName slash dot s) ∧
      resolve slash dot parts = slash :: [slash].intercalate segs := by
  unfold resolve
  simp only
  generalize hp : (if (resolveLoop slash [] parts.reverse).head? = some slash then _ else _) = p
  have habs : p.head? = some slash := by
    rw [← hp]
    split_ifs with h
    · exact h
    · rfl
  refine ⟨(p.splitOn slash).foldl (pushSeg dot true) [],
    isName_foldl_pushSeg (by simp) fun s hs => not_mem_of_mem_splitOn hs, ?_⟩
  simp [normalizeSegs, habs]

example : resolve '/' '.' ["/a".toList, "../b".toList] = "/b".toList := by decide +kernel

end GoSpidermonkey.Nodejs.PathLib
