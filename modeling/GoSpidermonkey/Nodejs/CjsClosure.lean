import GoSpidermonkey.Lib.BoundedSearch
import GoSpidermonkey.Nodejs.CjsShim

/-!
# The closure of re-exports

`cjsExportNames` walks through the files that a file re-exports, to a depth of eight, and marks the
files it has come to. What it needs of the files is a graph: the names each file has itself, and
what it re-exports. The walk is a depth-first search with a bound (`BoundedSearch`), so it misses a
file that it first comes to below the bound, whatever shorter chain leads there
(`reexport_closure_iff`).
-/

open Fuel BoundedSearch Relation

namespace GoSpidermonkey.Nodejs.Cjs

open List

/-! ### The graph -/

inductive Target where
  | core (c : Bytes)
  | file (p : Bytes)

def Target.file? : Target → Option Bytes
  | .core _ => none
  | .file p => some p

/-- The files as the walk sees them. -/
structure Reexports where
  own : Bytes → List Bytes
  targets : Bytes → List Target
  coreExports : Bytes → List Bytes

namespace Reexports

variable (g : Reexports)

/-- `follow`: the names collected and the files seen after one re-export. -/
def follow (visit : Bytes → List Bytes → List Bytes × List Bytes) (r : List Bytes × List Bytes)
    (t : Target) : List Bytes × List Bytes :=
  match t with
  | .core c => ((g.coreExports c).foldl add r.1, r.2)
  | .file q =>
    if q ∈ r.2 then r
    else
      let r' := visit q (q :: r.2)
      (r'.1.foldl add r.1, r'.2)

def walk : ℕ → Bytes → List Bytes → List Bytes × List Bytes
  | 0, _, seen => ([], seen)
  | l + 1, p, seen => (g.targets p).foldl (g.follow (walk l)) ((g.own p).foldl add [], seen)

def names (root : Bytes) : List Bytes := (g.walk 9 root [root]).1

def files (p : Bytes) : List Bytes := (g.targets p).filterMap Target.file?

/-- A file gives a name, itself or through a core module. -/
def Gives (p n : Bytes) : Prop := n ∈ g.own p ∨ ∃ c, .core c ∈ g.targets p ∧ n ∈ g.coreExports c

/-! ### The walk is a search -/

/-- The names collected by a walk are those of the files that the search expands. -/
structure Collects (r s : List Bytes × List Bytes) : Prop where
  seen : r.2 = s.2
  mem : ∀ n, n ∈ r.1 ↔ Kept n ∧ ∃ u ∈ s.1, g.Gives u n

lemma fold_collects {visit visit' : Bytes → List Bytes → List Bytes × List Bytes}
    (hvisit : ∀ q seen, g.Collects (visit q seen) (visit' q seen)) (ts : List Target)
    {r s : List Bytes × List Bytes} (hseen : r.2 = s.2) :
    (ts.foldl (g.follow visit) r).2 = ((ts.filterMap Target.file?).foldl (step visit') s).2 ∧
      ∃ new, ((ts.filterMap Target.file?).foldl (step visit') s).1 = s.1 ++ new ∧
        ∀ n, n ∈ (ts.foldl (g.follow visit) r).1 ↔ n ∈ r.1 ∨ Kept n ∧
          ((∃ c, .core c ∈ ts ∧ n ∈ g.coreExports c) ∨ ∃ u ∈ new, g.Gives u n) := by
  induction ts generalizing r s with
  | nil => exact ⟨hseen, [], by simp, by simp⟩
  | cons t ts ih =>
    cases t with
    | core c =>
      obtain ⟨hs, new, hnew, hmem⟩ := ih (r := g.follow visit r (.core c)) hseen
      refine ⟨hs, new, hnew, fun n => ?_⟩
      rw [foldl_cons, hmem, follow, mem_foldl_add]
      simp only [mem_cons, Target.core.injEq]
      constructor
      · rintro ((h | ⟨h, hk⟩) | ⟨hk, ⟨d, hd, hn⟩ | h⟩)
        · exact .inl h
        · exact .inr ⟨hk, .inl ⟨c, .inl rfl, h⟩⟩
        · exact .inr ⟨hk, .inl ⟨d, .inr hd, hn⟩⟩
        · exact .inr ⟨hk, .inr h⟩
      · rintro (h | ⟨hk, ⟨d, rfl | hd, hn⟩ | h⟩)
        · exact .inl (.inl h)
        · exact .inl (.inr ⟨hn, hk⟩)
        · exact .inr ⟨hk, .inl ⟨d, hd, hn⟩⟩
        · exact .inr ⟨hk, .inr h⟩
    | file q =>
      by_cases hq : q ∈ s.2
      · have hr : g.follow visit r (.file q) = r := by simp [follow, hseen, hq]
        have hstep : step visit' s q = s := if_pos hq
        obtain ⟨hs, new, hnew, hmem⟩ := ih hseen
        simp only [foldl_cons, hr, filterMap_cons, Target.file?, hstep]
        exact ⟨hs, new, hnew, fun n => by simp [hmem]⟩
      · have hcollects := hvisit q (q :: s.2)
        have hr : g.follow visit r (.file q) =
            ((visit q (q :: s.2)).1.foldl add r.1, (visit q (q :: s.2)).2) := by
          simp [follow, hseen, hq]
        have hstep : step visit' s q = (s.1 ++ (visit' q (q :: s.2)).1, (visit' q (q :: s.2)).2) :=
          if_neg hq
        simp only [foldl_cons, hr, filterMap_cons, Target.file?, hstep]
        generalize visit q (q :: s.2) = a at hcollects
        generalize visit' q (q :: s.2) = b at hcollects
        obtain ⟨hs, new, hnew, hmem⟩ := ih (r := (a.1.foldl add r.1, a.2)) (s := (s.1 ++ b.1, b.2))
          hcollects.seen
        refine ⟨hs, b.1 ++ new, by rw [hnew, append_assoc], fun n => ?_⟩
        have hcores : (∃ c, Target.core c ∈ .file q :: ts ∧ n ∈ g.coreExports c) ↔
            ∃ c, .core c ∈ ts ∧ n ∈ g.coreExports c := by simp
        have hnew : (∃ u ∈ b.1 ++ new, g.Gives u n) ↔
            (∃ u ∈ b.1, g.Gives u n) ∨ ∃ u ∈ new, g.Gives u n := by
          simp [or_and_right, exists_or]
        rw [hmem, mem_foldl_add, hcollects.mem, hcores, hnew]
        by_cases hk : Kept n
        · simp only [hk, true_and, and_true, or_assoc, or_left_comm]
        · simp only [hk, false_and, and_false, or_false]

lemma walk_collects (l : ℕ) (p : Bytes) (seen : List Bytes) :
    g.Collects (g.walk l p seen) (search g.files l p seen) := by
  induction l generalizing p seen with
  | zero => exact ⟨rfl, by simp [walk, search]⟩
  | succ l ih =>
    obtain ⟨hs, new, hnew, hmem⟩ := g.fold_collects ih (g.targets p)
      (r := ((g.own p).foldl add [], seen)) (s := ([p], seen)) rfl
    refine ⟨hs, fun n => ?_⟩
    have hsearch : (search g.files (l + 1) p seen).1 = [p] ++ new := hnew
    have hgives : (∃ u ∈ [p] ++ new, g.Gives u n) ↔
        (n ∈ g.own p ∨ ∃ c, .core c ∈ g.targets p ∧ n ∈ g.coreExports c) ∨
          ∃ u ∈ new, g.Gives u n := by
      simp [Gives]
    rw [walk, hmem, mem_foldl_add, hsearch, hgives]
    by_cases hk : Kept n
    · simp only [not_mem_nil, hk, true_and, and_true, false_or, or_assoc]
    · simp only [not_mem_nil, hk, false_and, and_false, or_false]

/-! ### What the walk is for -/

/-- A name of a file that at most eight re-exports lead to, or of a core module that such a file
re-exports. -/
def InClosure (root : Bytes) (bound : ℕ) (n : Bytes) : Prop :=
  Kept n ∧ ((∃ u, Within g.files root 8 u ∧ n ∈ g.own u) ∨
    ∃ u c, Within g.files root bound u ∧ .core c ∈ g.targets u ∧ n ∈ g.coreExports c)

/-- The names are those of the closure. -/
def Exact (root : Bytes) (bound : ℕ) : Prop := ∀ n, n ∈ g.names root ↔ g.InClosure root bound n

/-- The same re-exports in another order, of files with any names. -/
def Relinked (g' : Reexports) : Prop := ∀ p, (g'.targets p).Perm (g.targets p)

/-- No chain of nine re-exports without a repetition ends in a file that a shorter chain
leads to. -/
def NoDetour (root : Bytes) : Prop := ∀ p, Late g.files root 9 p → ¬ Within g.files root 8 p

lemma names_iff (root n : Bytes) :
    n ∈ g.names root ↔ Kept n ∧ ∃ u ∈ (search g.files 9 root [root]).1, g.Gives u n :=
  (g.walk_collects 9 root [root]).mem n

variable {g}

variable {g' : Reexports} {root : Bytes}

lemma Relinked.files (h : g.Relinked g') (p : Bytes) : (g'.files p).Perm (g.files p) :=
  (h p).filterMap _

lemma Relinked.within (h : g.Relinked g') (root : Bytes) (k : ℕ) (p : Bytes) :
    Within g'.files root k p ↔ Within g.files root k p := by
  constructor
  · rintro ⟨q, hq, hlen⟩
    exact ⟨q, hq.mono fun v => (h.files v).subset, hlen⟩
  · rintro ⟨q, hq, hlen⟩
    exact ⟨q, hq.mono fun v => (h.files v).symm.subset, hlen⟩

lemma names_of_noDetour (h : g.NoDetour root) (hg : g.Relinked g') :
    g'.Exact root 8 := by
  have hall := (search_complete_iff g.files root 8).mpr h g'.files hg.files
  intro n
  rw [names_iff]
  refine and_congr_right fun _ => ⟨?_, ?_⟩
  · rintro ⟨u, hu, hown | ⟨c, hc, hn⟩⟩
    · exact .inl ⟨u, within_of_search hu, hown⟩
    · exact .inr ⟨u, c, within_of_search hu, hc, hn⟩
  · rintro (⟨u, hu, hown⟩ | ⟨u, c, hu, hc, hn⟩)
    · exact ⟨u, hall u ((hg.within root 8 u).mp hu), .inl hown⟩
    · exact ⟨u, hall u ((hg.within root 8 u).mp hu), .inr ⟨c, hc, hn⟩⟩

lemma exists_relinked (g : Reexports) {next : Bytes → List Bytes}
    (h : ∀ p, (next p).Perm (g.files p)) :
    ∃ targets : Bytes → List Target, (∀ p, (targets p).Perm (g.targets p)) ∧
      ∀ p, (targets p).filterMap Target.file? = next p := by
  refine ⟨fun p => (next p).map .file ++ (g.targets p).filter fun t => t.file?.isNone, fun p => ?_,
    fun p => ?_⟩
  · have hfiles : (g.files p).map .file = (g.targets p).filter fun t => t.file?.isSome := by
      rw [files]
      induction g.targets p with
      | nil => rfl
      | cons t ts ih =>
        cases t with
        | core c => exact ih
        | file q => exact congrArg (Target.file q :: ·) ih
    have hsplit : ((g.targets p).filter (fun t => t.file?.isSome) ++
        (g.targets p).filter fun t => t.file?.isNone).Perm (g.targets p) := by
      simpa using filter_append_perm (fun t : Target => t.file?.isSome) (g.targets p)
    refine .trans ?_ hsplit
    rw [← hfiles]
    exact ((h p).map _).append_right _
  · have hcores : ((g.targets p).filter fun t => t.file?.isNone).filterMap Target.file? = [] := by
      refine filterMap_eq_nil_iff.mpr fun t ht => ?_
      simpa using (mem_filter.mp ht).2
    have hfiles : ((next p).map Target.file).filterMap Target.file? = next p := by
      rw [filterMap_map]
      exact filterMap_some
    rw [filterMap_append, hcores, hfiles, append_nil]

/-- A name that `add` keeps. -/
lemma kept_x : Kept (str "x") := by decide +kernel

lemma noDetour_of_exact {bound : ℕ} (h : ∀ g', g.Relinked g' → g'.Exact root bound) :
    g.NoDetour root := by
  refine (search_complete_iff g.files root 8).mp fun next hnext p hp => ?_
  obtain ⟨targets, hperm, hfiles⟩ := g.exists_relinked hnext
  let g' : Reexports :=
    { own := fun q => if q = p then [str "x"] else []
      targets := targets
      coreExports := fun _ => [] }
  have hg : g.Relinked g' := hperm
  have hin : g'.InClosure root bound (str "x") :=
    ⟨kept_x, .inl ⟨p, (hg.within root 8 p).mpr hp, by simp [g']⟩⟩
  obtain ⟨-, u, hu, hgives⟩ := (g'.names_iff root _).mp ((h g' hg _).mpr hin)
  have hup : u = p := by
    by_contra hne
    rcases hgives with hown | ⟨c, -, hn⟩
    · simp [g', hne] at hown
    · simp [g'] at hn
  have hnext' : g'.files = next := funext hfiles
  rwa [hnext', hup] at hu

/-- No core module is nine re-exports away and not nearer. -/
def NoLateCore (g : Reexports) (root : Bytes) : Prop :=
  ∀ u c, Within g.files root 8 u → .core c ∈ g.targets u →
    ∃ u', Within g.files root 7 u' ∧ .core c ∈ g.targets u'

lemma noLateCore_of_exact (h : ∀ g', g.Relinked g' → g'.Exact root 7) :
    g.NoLateCore root := by
  intro u c hu hc
  let g' : Reexports :=
    { own := fun _ => []
      targets := g.targets
      coreExports := fun d => if d = c then [str "x"] else [] }
  have hg : g.Relinked g' := fun p => .refl _
  have hname : str "x" ∈ g'.names root := by
    rw [names_of_noDetour (noDetour_of_exact h) hg]
    exact ⟨kept_x, .inr ⟨u, c, (hg.within root 8 u).mpr hu, hc, by simp [g']⟩⟩
  obtain ⟨-, ⟨u', -, hown⟩ | ⟨u', d, hu', hd, hn⟩⟩ := (h g' hg _).mp hname
  · simp [g'] at hown
  · have hdc : d = c := by
      by_contra hne
      simp [g', hne] at hn
    exact ⟨u', (hg.within root 7 u').mp hu', hdc ▸ hd⟩

lemma exact_of_noLateCore (hd : g.NoDetour root) (hc : g.NoLateCore root) (hg : g.Relinked g') :
    g'.Exact root 7 := by
  intro n
  rw [names_of_noDetour hd hg]
  refine and_congr_right fun _ => or_congr_right ⟨?_, ?_⟩
  · rintro ⟨u, c, hu, hmem, hn⟩
    obtain ⟨u', hu', hmem'⟩ := hc u c ((hg.within root 8 u).mp hu) ((hg u).mem_iff.mp hmem)
    exact ⟨u', c, (hg.within root 7 u').mpr hu', (hg u').mem_iff.mpr hmem', hn⟩
  · rintro ⟨u, c, ⟨p, hp, hlen⟩, hmem, hn⟩
    exact ⟨u, c, ⟨p, hp, by omega⟩, hmem, hn⟩

end Reexports

/-! ### The files of a runtime -/

namespace Runtime

variable (rt : Runtime)

/-- What `cjsReexportNames` makes of a resolution. -/
def target (answer : Except ResolveError Resolution) : Option Target :=
  match answer with
  | .error _ => none
  | .ok r =>
    if r.core ≠ [] then some (.core r.core)
    else
      let r := rt.refineKind r
      if r.kind ≠ .cjs then none else some (.file r.path)

def reexportGraph (resolve : Bytes → Bytes → Except ResolveError Resolution) : Reexports where
  own p := ((rt.readFile p).map fun src => ownNames (maskCJSSource src)).getD []
  targets p := ((rt.readFile p).map fun src =>
    (reexports (maskCJSSource src)).filterMap fun spec => rt.target (resolve spec p)).getD []
  coreExports := rt.coreExports

variable {resolve : Bytes → Bytes → Except ResolveError Resolution} {p : Bytes}

lemma walk_unreadable
    (h : rt.readFile p = none) (levels : ℕ) (seen : List Bytes) :
    (rt.reexportGraph resolve).walk levels p seen = ([], seen) := by
  cases levels with
  | zero => rfl
  | succ levels => simp [Reexports.walk, reexportGraph, h]

variable {rt} (hresolve : ∀ spec p,
  ReturnsTo (fun n => resolveModule rt.ord rt.fsys n spec p true) (resolve spec p))
include hresolve

lemma reexportNames_returnsTo
    {names : ℕ → Bytes → Bytes → List Bytes → Option (List Bytes × List Bytes)}
    {visit : Bytes → List Bytes → List Bytes × List Bytes}
    (hvisit : ∀ q src seen, rt.readFile q = some src →
      ReturnsTo (names · q src seen) (visit q seen))
    (hnone : ∀ q seen, rt.readFile q = none → visit q seen = ([], seen)) (spec p : Bytes)
    (r : List Bytes × List Bytes) :
    ReturnsTo
      (fun n => (rt.reexportNames n (names n) spec p r.2).map fun r' => (r'.1.foldl add r.1, r'.2))
      (match rt.target (resolve spec p) with
      | some t => (rt.reexportGraph resolve).follow visit r t
      | none => r) := by
  have hconst (answer : List Bytes × List Bytes) : ReturnsTo
      (fun _ => (some answer).map fun r' => (r'.1.foldl add r.1, r'.2))
        (answer.1.foldl add r.1, answer.2) :=
    returnsTo_const _
  have hanswer := hresolve spec p
  generalize resolve spec p = answer at hanswer
  simp only [reexportNames, Option.map_bind]
  refine hanswer.bind ?_
  cases answer with
  | error e => exact hconst ([], r.2)
  | ok res =>
    by_cases hcore : res.core ≠ []
    · simp only [Function.comp_apply, target, if_pos hcore]
      exact hconst (rt.coreExports res.core, r.2)
    · simp only [Function.comp_apply, target, if_neg hcore]
      by_cases hkind : (rt.refineKind res).kind ≠ .cjs
      · simp only [if_pos hkind, if_pos (Or.inl hkind)]
        exact hconst ([], r.2)
      · by_cases hseen : (rt.refineKind res).path ∈ r.2
        · simp only [if_neg hkind, if_pos (Or.inr hseen), Reexports.follow, if_pos hseen]
          exact hconst ([], r.2)
        · simp only [if_neg hkind, if_neg (not_or.mpr ⟨hkind, hseen⟩), Reexports.follow,
            if_neg hseen]
          cases hsrc : rt.readFile (rt.refineKind res).path with
          | none =>
            rw [hnone _ _ hsrc]
            exact hconst ([], _)
          | some src => exact (hvisit _ src _ hsrc).map _

lemma exportNames_returnsTo (levels : ℕ) {src : Bytes} (hsrc : rt.readFile p = some src)
    (seen : List Bytes) :
    ReturnsTo (fun n => rt.exportNames add n levels p src seen)
      ((rt.reexportGraph resolve).walk levels p seen) := by
  induction levels generalizing p src seen with
  | zero => exact returnsTo_const _
  | succ levels ih =>
    have hown : (rt.reexportGraph resolve).own p = ownNames (maskCJSSource src) := by
      simp [reexportGraph, hsrc]
    have htargets : (rt.reexportGraph resolve).targets p =
        (reexports (maskCJSSource src)).filterMap fun spec => rt.target (resolve spec p) := by
      simp [reexportGraph, hsrc]
    rw [Reexports.walk, hown, htargets, foldl_filterMap]
    refine ReturnsTo.foldlM (fun r spec => ?_) _ _
    have hone := reexportNames_returnsTo hresolve (fun q src seen hq => ih hq seen)
      (fun q seen hq => rt.walk_unreadable hq levels seen) spec p r
    cases htarget : rt.target (resolve spec p) <;> rwa [htarget] at hone

lemma cjsExportNames_returnsTo {src : Bytes} (hsrc : rt.readFile p = some src) :
    ReturnsTo (fun n => rt.cjsExportNames n p src) ((rt.reexportGraph resolve).names p) :=
  (exportNames_returnsTo hresolve 9 hsrc [p]).map Prod.fst

end Runtime

/-- Where no entries of packages lead a directory back to itself, the code terminates with the names
of a walk over the graph of the files. These are the names of the closure if and only if no chain of
nine re-exports ends in a file that is nearer, and no core module is nine re-exports away and not
nearer. -/
theorem reexport_closure_iff (rt : Runtime)
    (hloop : ∀ fsys ∈ rt.fsys, ∀ d, ¬ TransGen (Follows fsys) d d) (g : Reexports) (root : Bytes) :
    (∃ resolve,
      (∀ spec p, ReturnsTo (fun n => resolveModule rt.ord rt.fsys n spec p true) (resolve spec p)) ∧
      ∀ p src, rt.readFile p = some src →
        ReturnsTo (fun n => rt.cjsExportNames n p src) ((rt.reexportGraph resolve).names p)) ∧
      ((∀ g', g.Relinked g' → g'.Exact root 7) ↔ g.NoDetour root ∧ g.NoLateCore root) ∧
      ((∀ g', g.Relinked g' → g'.Exact root 8) ↔ g.NoDetour root) := by
  choose resolve hresolve using Runtime.resolve_returns hloop
  refine ⟨⟨resolve, hresolve, fun p src hsrc => Runtime.cjsExportNames_returnsTo hresolve hsrc⟩,
    ⟨?_, ?_⟩, ?_, ?_⟩
  · exact fun h => ⟨Reexports.noDetour_of_exact h, Reexports.noLateCore_of_exact h⟩
  · exact fun h g' hg => Reexports.exact_of_noLateCore h.1 h.2 hg
  · exact fun h => Reexports.noDetour_of_exact h
  · exact fun h g' hg => Reexports.names_of_noDetour h hg

/-- A runtime with the files of these names, and none else. -/
def treeRuntime (files : List (String × String)) : Runtime where
  ord _ := .sorted
  fsys := some <| files.foldl
    (fun tree f => tree.insert (str f.1 ++ str ".cjs") (.file (str f.2)))
    ((∅ : FileTree).insert (str ".") .dir)
  sourceIsModule _ := none
  coreExports _ := []

/-- Two files that re-export each other. -/
def cycleRuntime : Runtime :=
  treeRuntime [("a", "exports.a=1;module.exports=require('./b.cjs')"),
    ("b", "exports.b=1;module.exports=require('./a.cjs')")]

theorem cycle_closure : ∃ src names, cycleRuntime.readFile (str "a.cjs") = some src ∧
    ReturnsTo (fun n => cycleRuntime.cjsExportNames n (str "a.cjs") src) names ∧
    cycleRuntime.cjsExportNames 1 (str "a.cjs") src = some [str "a", str "b"] := by
  have hloop : ∀ fsys ∈ cycleRuntime.fsys, ∀ d, ¬ TransGen (Follows fsys) d d := by
    rintro fsys ⟨⟩
    exact no_loop_of_entries_files (by decide +kernel)
  obtain ⟨resolve, -, hnames⟩ :=
    (reexport_closure_iff cycleRuntime hloop (cycleRuntime.reexportGraph fun _ _ => .ok {}) []).1
  refine ⟨str "exports.a=1;module.exports=require('./b.cjs')", _, by decide +kernel,
    hnames _ _ (by decide +kernel), by decide +kernel⟩

/-- A file that re-exports `x` last, and before it a file from which eight more lead to `x`. -/
def chainRuntime : Runtime :=
  treeRuntime
    [("a", "exports.a=1;module.exports=require('./b.cjs');module.exports=require('./x.cjs')"),
      ("b", "module.exports=require('./c.cjs')"), ("c", "module.exports=require('./d.cjs')"),
      ("d", "module.exports=require('./e.cjs')"), ("e", "module.exports=require('./f.cjs')"),
      ("f", "module.exports=require('./g.cjs')"), ("g", "module.exports=require('./h.cjs')"),
      ("h", "module.exports=require('./i.cjs')"), ("i", "module.exports=require('./x.cjs')"),
      ("x", "exports.x=1")]

/-- The name of `x` is missing although `a` re-exports it itself. -/
theorem chain_loses_name :
    (chainRuntime.readFile (str "a.cjs")).bind (chainRuntime.cjsExportNames 1 (str "a.cjs")) =
      some [str "a"] ∧
    resolveModule chainRuntime.ord chainRuntime.fsys 1 (str "./x.cjs") (str "a.cjs") true =
      some (.ok { path := str "x.cjs", kind := .cjs }) ∧
    (chainRuntime.readFile (str "x.cjs")).map (fun src => ownNames (maskCJSSource src)) =
      some [str "x"] := by
  decide +kernel

end GoSpidermonkey.Nodejs.Cjs
