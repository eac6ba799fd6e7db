import GoSpidermonkey.Lib.FirstHit
import GoSpidermonkey.Lib.Fuel
import GoSpidermonkey.Nodejs.Resolve

/-!
# Termination of module resolution

`loadAsFileOrDir` is a first-hit search: the hits are files, and a directory leads to the targets of
its `module` and `main` entries. It returns exactly when the entries it follows never lead from a
directory back to that directory (`resolution_returns_iff`); a directory whose `main` is `"."`
already does. In a file tree without such a loop every function of the resolver returns.
-/

open GoSpidermonkey.Path Relation Fuel

namespace GoSpidermonkey.Nodejs

variable (fsys : FileTree)

/-- The file `p` names, with an extension added if necessary. -/
def fileHit (p : Bytes) : Option Resolution := firstFile fsys (fileCandidates p)

def entryTargets (p : Bytes) : List Bytes :=
  if fsys.isDir p then ((packageEntries fsys p).filter (· ≠ [])).map fun e => join [p, e] else []

def indexHit (p : Bytes) : Option Resolution :=
  if fsys.isDir p then firstFile fsys (indexCandidates p) else none

/-- The resolver follows an entry of the directory `p` to `q`, first `module`, then `main`. -/
def Follows (p q : Bytes) : Prop :=
  FirstHit.Tried (fileHit fsys) (entryTargets fsys) (indexHit fsys) p q

variable {fsys}

/-! ### The search -/

lemma tryEntries_eq (load : Bytes → Option (Except ResolveError Resolution)) (p : Bytes)
    (es : List Bytes) :
    tryEntries load p es = FirstHit.firstOk (fun q => (load q).map Except.toOption)
      ((es.filter (· ≠ [])).map fun e => join [p, e]) := by
  induction es with
  | nil => rfl
  | cons e es ih =>
    by_cases he : e = []
    · simp [tryEntries, he, ih]
    · simp only [tryEntries, ih, ne_eq, he, not_false_eq_true, decide_true,
        List.filter_cons_of_pos, List.map_cons, FirstHit.firstOk]
      cases load (join [p, e]) with
      | none => rfl
      | some r => cases r <;> rfl

def answer (p : Bytes) : Option Resolution → Except ResolveError Resolution
  | some r => .ok r
  | none => .error (.cannotResolve p)

@[simp] lemma toOption_answer (p : Bytes) (r : Option Resolution) : (answer p r).toOption = r := by
  cases r <;> rfl

lemma loadAsFileOrDir_eq_search (n : ℕ) (p : Bytes) :
    loadAsFileOrDir fsys n p =
      (FirstHit.search (fileHit fsys) (entryTargets fsys) (indexHit fsys) n p).map (answer p) := by
  induction n generalizing p with
  | zero => rfl
  | succ n ih =>
    have hload : (fun q => (loadAsFileOrDir fsys n q).map Except.toOption) =
        FirstHit.search (fileHit fsys) (entryTargets fsys) (indexHit fsys) n := by
      funext q
      simp [ih q, Function.comp_def]
    rw [loadAsFileOrDir, FirstHit.search, fileHit]
    cases firstFile fsys (fileCandidates p) with
    | some r => rfl
    | none =>
      by_cases hd : fsys.isDir p
      · simp only [hd, if_true, tryEntries_eq, hload, entryTargets, indexHit]
        cases FirstHit.firstOk _ _ with
        | none => rfl
        | some o =>
          cases o with
          | some r => rfl
          | none => cases firstFile fsys (indexCandidates p) <;> rfl
      · simp [hd, entryTargets, indexHit, FirstHit.firstOk, answer]

lemma mem_keys_of_entryTargets {p : Bytes} (hp : entryTargets fsys p ≠ []) : p ∈ fsys.keys := by
  by_cases hd : fsys.isDir p
  · simp only [FileTree.isDir, FileTree.stat, beq_iff_eq] at hd
    split at hd
    · exact Finmap.mem_keys.mpr (Finmap.mem_of_lookup_eq_some hd)
    · simp at hd
  · simp [entryTargets, hd] at hp

lemma finite_entries : {p | fileHit fsys p = none ∧ entryTargets fsys p ≠ []}.Finite :=
  fsys.keys.finite_toSet.subset fun _ hp => mem_keys_of_entryTargets hp.2

/-- From `p` the resolver returns exactly when no directory it comes to leads back to itself. -/
lemma load_returns_iff (p : Bytes) :
    Returns (loadAsFileOrDir fsys · p) ↔
      ∀ d, ReflTransGen (Follows fsys) p d → ¬ TransGen (Follows fsys) d d := by
  have hmono : ∀ n m r, n ≤ m → loadAsFileOrDir fsys n p = some r →
      loadAsFileOrDir fsys m p = some r := by
    intro n m r hnm h
    rw [loadAsFileOrDir_eq_search, Option.map_eq_some_iff] at h ⊢
    obtain ⟨o, ho, hr⟩ := h
    exact ⟨o, FirstHit.search_mono hnm ho, hr⟩
  rw [returns_iff_of_mono hmono]
  simp only [loadAsFileOrDir_eq_search, Option.isSome_map]
  exact FirstHit.terminates_iff finite_entries

/-! ### The functions built on it -/

section

variable (hload : ∀ p, Returns (loadAsFileOrDir fsys · p))
include hload

lemma tryEntries_returns (p : Bytes) (es : List Bytes) :
    Returns fun n => tryEntries (loadAsFileOrDir fsys n) p es := by
  induction es with
  | nil => exact returns_const none
  | cons e es ih =>
    simp only [tryEntries]
    split
    · exact ih
    · have := (hload (join [p, e])).bind (g := fun r n =>
        r.casesOn (fun _ => tryEntries (loadAsFileOrDir fsys n) p es) fun r => some (some r))
          fun r => by
          cases r with
          | ok r => exact returns_const _
          | error e => exact ih
      convert this using 2 with n
      cases loadAsFileOrDir fsys n (join [p, e]) with
      | none => rfl
      | some r => cases r <;> rfl

variable (ord : RangeSite → MapOrder)

lemma resolveSelfReference_returns (specifier parent : Bytes) (conds : Conditions) :
    Returns fun n => resolveSelfReference ord fsys n specifier parent conds := by
  simp only [resolveSelfReference, selfReferenceIn]
  split
  · exact returns_const _
  · split
    · exact returns_const _
    · split
      · exact returns_const _
      · split
        · exact returns_const _
        · exact (hload _).bind fun r => returns_const _

lemma resolvePackage_returns (pkgDir subpath : Bytes) (conds : Conditions) :
    Returns fun n => resolvePackage ord fsys n pkgDir subpath conds := by
  simp only [resolvePackage]
  split
  · exact returns_const _
  · split
    · exact returns_const _
    · split
      · split
        · split
          · exact returns_const _
          · exact hload _
        · split
          · exact hload _
          · refine (tryEntries_returns hload _ _).bind fun r => ?_
            cases r with
            | some r => exact returns_const _
            | none => exact hload _
      · exact returns_const _

lemma resolveBareSpecifier_returns (specifier parent : Bytes) (conds : Conditions) :
    Returns fun n => resolveBareSpecifier ord fsys n specifier parent conds := by
  simp only [resolveBareSpecifier]
  split
  · exact resolvePackage_returns hload ord _ _ _
  · exact returns_const _

lemma resolveHashImport_returns (specifier parent : Bytes) (conds : Conditions) :
    Returns fun n => resolveHashImport ord fsys n specifier parent conds := by
  simp only [resolveHashImport]
  split
  · exact returns_const _
  · split
    · exact returns_const _
    · split
      · exact hload _
      · exact resolveBareSpecifier_returns hload ord _ _ _

lemma resolveModule_returns (specifier parent : Bytes) (cjs : Bool) :
    Returns fun n => resolveModule ord (some fsys) n specifier parent cjs := by
  simp only [resolveModule]
  split
  · split <;> exact returns_const _
  · split
    · exact returns_const _
    · split
      · exact resolveHashImport_returns hload ord _ _ _
      · refine (hload _).bind fun r => ?_
        cases r with
        | ok r => exact returns_const _
        | error e =>
          simp only
          split
          · refine (resolveSelfReference_returns hload ord _ _ _).bind fun r => ?_
            cases r with
            | some r => exact returns_const _
            | none => exact resolveBareSpecifier_returns hload ord _ _ _
          · exact returns_const _

end

/-- `loadAsFileOrDir` returns exactly where the entries it follows never lead back to the directory.
-/
theorem resolution_returns_iff (fsys : FileTree) :
    (∀ p, Returns (loadAsFileOrDir fsys · p) ↔
      ∀ d, ReflTransGen (Follows fsys) p d → ¬ TransGen (Follows fsys) d d) ∧
    ((∀ d, ¬ TransGen (Follows fsys) d d) → ∀ ord : RangeSite → MapOrder,
      (∀ specifier parent cjs,
        Returns fun n => resolveModule ord (some fsys) n specifier parent cjs) ∧
      (∀ pkgDir subpath conds,
        Returns fun n => resolvePackage ord fsys n pkgDir subpath conds) ∧
      (∀ specifier parent conds,
        Returns fun n => resolveSelfReference ord fsys n specifier parent conds) ∧
      (∀ specifier parent conds,
        Returns fun n => resolveHashImport ord fsys n specifier parent conds)) := by
  refine ⟨load_returns_iff, fun hloop ord => ?_⟩
  have hload : ∀ p, Returns (loadAsFileOrDir fsys · p) :=
    fun p => (load_returns_iff p).mpr fun d _ => hloop d
  exact ⟨resolveModule_returns hload ord, resolvePackage_returns hload ord,
    resolveSelfReference_returns hload ord, resolveHashImport_returns hload ord⟩

lemma no_loop_of_entries_files
    (h : ∀ d ∈ fsys.keys, ∀ q ∈ entryTargets fsys d, (fileHit fsys q).isSome) (d : Bytes) :
    ¬ TransGen (Follows fsys) d d := by
  have hfile : ∀ p q, Follows fsys p q → (fileHit fsys q).isSome := by
    intro p q hpq
    have hmem := hpq.link.2
    exact h p (mem_keys_of_entryTargets (List.ne_nil_of_mem hmem)) q hmem
  intro hdd
  obtain ⟨q, hdq, -⟩ := TransGen.head'_iff.mp hdd
  obtain ⟨c, -, hcd⟩ := TransGen.tail'_iff.mp hdd
  have := hfile c d hcd
  simp [hdq.1] at this

/-- A package whose `main` names its own directory. -/
def selfMainTree : FileTree :=
  ((((∅ : FileTree).insert (str ".") .dir).insert (str "a") .dir).insert (str "a/package.json")
    (.file (str "\x7b\"main\":\".\"\x7d")))

theorem selfMain_never_returns :
    (∀ n, loadAsFileOrDir selfMainTree n (str "a") = none) ∧
    ∀ ord n, resolveModule ord (some selfMainTree) n (str "./a") (str "app.js") false = none := by
  have hload : ∀ n, loadAsFileOrDir selfMainTree n (str "a") = none := by
    have hfile : firstFile selfMainTree (fileCandidates (str "a")) = none := by decide +kernel
    have hdir : selfMainTree.isDir (str "a") = true := by decide +kernel
    have hentries : packageEntries selfMainTree (str "a") = [[], str "."] := by decide +kernel
    have hjoin : join [str "a", str "."] = str "a" := by decide
    intro n
    induction n with
    | zero => rfl
    | succ n ih =>
      simp only [loadAsFileOrDir, hfile, hdir, hentries, tryEntries, if_true]
      rw [if_neg (by decide), hjoin, ih]
  refine ⟨hload, fun ord n => ?_⟩
  have hspec : specifierPath (str "./a") (trimSlash (fileURLToFSPath (str "app.js")))
      = (str "a", false) := by decide
  have hclean : clean (str "a") = str "a" := by decide
  have hcut : cutLead (str "node:") (str "./a") = none := by decide
  have hcore : str "./a" ∉ coreModules := by decide
  have hhash : (str "#").isPrefixOf (str "./a") = false := by decide
  simp only [resolveModule, hcut, hcore, hspec, hhash, hclean, hload, if_false,
    Bool.false_eq_true, Option.bind_none]

/-- A package whose `main` names a file. -/
def fileMainTree : FileTree :=
  (((((∅ : FileTree).insert (str ".") .dir).insert (str "a") .dir).insert (str "a/package.json")
    (.file (str "\x7b\"main\":\"lib.js\"\x7d"))).insert (str "a/lib.js") (.file []))

theorem fileMain_returns :
    Returns (loadAsFileOrDir fileMainTree · (str "a")) ∧
    ∀ ord specifier parent cjs,
      Returns fun n => resolveModule ord (some fileMainTree) n specifier parent cjs := by
  have hloop : ∀ d, ¬ TransGen (Follows fileMainTree) d d :=
    no_loop_of_entries_files (by decide +kernel)
  have h := resolution_returns_iff fileMainTree
  exact ⟨(h.1 _).mpr fun d _ => hloop d, fun ord => (h.2 hloop ord).1⟩

end GoSpidermonkey.Nodejs
