import GoSpidermonkey.Nodejs.CjsText
import GoSpidermonkey.Nodejs.Termination

/-!
# Well-formed shims

The names in a shim are those that the analysis detects and `add` keeps. `add` keeps too much: words
that only strict code reserves, `eval` and `arguments`, and the globals that the shim reads itself,
which a `let` binding of the same name shadows. It also drops `of`, which can be bound. The shim is
well formed exactly if none of these words is detected (`cjsShim_wellFormed_iff`).
-/

open GoSpidermonkey.Ecma Fuel Relation

namespace GoSpidermonkey.Nodejs.Cjs

open List

variable (isPrint : ℕ → Bool) {p : Bytes} {names : List Bytes}

/-! ### The names that the analysis keeps -/

/-- What `add` requires of a name. -/
structure Kept (n : Bytes) : Prop where
  ident : identRE n = true
  not_reserved : n ∉ reservedWords
  not_own : n ≠ str "__cjs_default__" ∧ n ≠ str "__cjs_ns__"

lemma kept_iff (n : Bytes) : Kept n ↔ identRE n = true ∧ n ∉ reservedWords
    ∧ n ≠ str "__cjs_default__" ∧ n ≠ str "__cjs_ns__" :=
  ⟨fun h => ⟨h.ident, h.not_reserved, h.not_own⟩, fun h => ⟨h.1, h.2.1, h.2.2⟩⟩

instance (n : Bytes) : Decidable (Kept n) := decidable_of_iff' _ (kept_iff n)

lemma add_eq (names : List Bytes) (n : Bytes) :
    add names n = if n ∉ names ∧ Kept n then names ++ [n] else names := by
  have hnil : identRE n = true → n ≠ [] := by
    rintro hident rfl
    exact Bool.false_ne_true hident
  have hdefault : n ∉ reservedWords → n ≠ str "default" := by
    rintro hreserved rfl
    exact hreserved (by decide)
  unfold add
  split_ifs with h₁ h₂ h₃ h₄ <;> simp_all [kept_iff]

lemma mem_add (names : List Bytes) (m n : Bytes) :
    n ∈ add names m ↔ n ∈ names ∨ (n = m ∧ Kept n) := by
  rw [add_eq]
  split_ifs with hm
  · rw [mem_append, mem_singleton]
    exact or_congr_right ⟨fun h => ⟨h, h ▸ hm.2⟩, And.left⟩
  · refine ⟨.inl, ?_⟩
    rintro (h | ⟨rfl, hkept⟩)
    · exact h
    · exact by_contra fun hn => hm ⟨hn, hkept⟩

lemma mem_foldl_add (names raw : List Bytes) (n : Bytes) :
    n ∈ raw.foldl add names ↔ n ∈ names ∨ (n ∈ raw ∧ Kept n) := by
  induction raw generalizing names with
  | nil => simp
  | cons m raw ih =>
    rw [foldl_cons, ih, mem_add, mem_cons]
    tauto

lemma nodup_foldl_add {names : List Bytes} (hnames : names.Nodup) (raw : List Bytes) :
    (raw.foldl add names).Nodup := by
  induction raw generalizing names with
  | nil => exact hnames
  | cons m raw ih =>
    refine ih ?_
    rw [add_eq]
    split_ifs with hm
    · exact concat_eq_append ▸ hnames.concat hm.1
    · exact hnames

/-! ### The walk through the files -/

def gather (names : List Bytes) (n : Bytes) : List Bytes := names ++ [n]

lemma foldl_gather (names raw : List Bytes) : raw.foldl gather names = names ++ raw := by
  induction raw generalizing names with
  | nil => simp
  | cons n raw ih => simp [ih, gather]

namespace Runtime

variable (rt : Runtime)

/-- The names that `cjsExportNames` detects, in the file and in those that it follows. -/
def detected (fuel : ℕ) (p src : Bytes) : Option (List Bytes) :=
  (rt.exportNames gather fuel 9 p src [p]).map Prod.fst

/-- The names in a result of the analysis are those of the detected ones that are kept. -/
structure Filters (r raw : List Bytes × List Bytes) : Prop where
  seen : r.2 = raw.2
  nodup : r.1.Nodup
  mem : ∀ n, n ∈ r.1 ↔ n ∈ raw.1 ∧ Kept n

/-- Two answers about a re-exported file that give the same kept names. -/
structure Agree (r raw : List Bytes × List Bytes) : Prop where
  seen : r.2 = raw.2
  mem : ∀ n, Kept n → (n ∈ r.1 ↔ n ∈ raw.1)

lemma Filters.agree {r raw : List Bytes × List Bytes} (h : Filters r raw) : Agree r raw :=
  ⟨h.seen, fun n hn => by simp [h.mem, hn]⟩

lemma Filters.add {r raw r' raw' : List Bytes × List Bytes} (h : Filters r raw)
    (h' : Agree r' raw') :
    Filters (r'.1.foldl Cjs.add r.1, r'.2) (raw'.1.foldl gather raw.1, raw'.2) where
  seen := h'.seen
  nodup := nodup_foldl_add h.nodup _
  mem n := by
    rw [mem_foldl_add, foldl_gather, mem_append, h.mem]
    have hmem := h'.mem n
    tauto

lemma reexportNames_rel (fuel : ℕ)
    {names raw : Bytes → Bytes → List Bytes → Option (List Bytes × List Bytes)}
    (h : ∀ p src seen, Option.Rel Agree (names p src seen) (raw p src seen)) (spec p : Bytes)
    (seen : List Bytes) :
    Option.Rel Agree (rt.reexportNames fuel names spec p seen)
      (rt.reexportNames fuel raw spec p seen) := by
  have hsame (r : List Bytes × List Bytes) : Option.Rel Agree (some r) (some r) :=
    .some ⟨rfl, fun _ _ => Iff.rfl⟩
  unfold reexportNames
  cases resolveModule rt.ord rt.fsys fuel spec p true with
  | none => exact .none
  | some r =>
    cases r with
    | error e => exact hsame _
    | ok r =>
      simp only [Option.bind_some]
      split_ifs
      · exact hsame _
      · exact hsame _
      · split
        · exact hsame _
        · exact h _ _ _

/-- `cjsExportNames` keeps some of the names that the walk detects. -/
lemma exportNames_rel (fuel levels : ℕ) (p src : Bytes) (seen : List Bytes) :
    Option.Rel Filters (rt.exportNames Cjs.add fuel levels p src seen)
      (rt.exportNames gather fuel levels p src seen) := by
  induction levels generalizing p src seen with
  | zero => exact .some ⟨rfl, nodup_nil, by simp⟩
  | succ levels ih =>
    have hagree (p src : Bytes) (seen : List Bytes) :
        Option.Rel Agree (rt.exportNames Cjs.add fuel levels p src seen)
          (rt.exportNames gather fuel levels p src seen) := by
      simpa using rel_map (ih p src seen) (f := id) (g := id) fun _ _ => Filters.agree
    have hown : Filters ((ownNames (maskCJSSource src)).foldl Cjs.add [], seen)
        ((ownNames (maskCJSSource src)).foldl gather [], seen) :=
      ⟨rfl, nodup_foldl_add nodup_nil _, by simp [mem_foldl_add, foldl_gather]⟩
    refine rel_foldlM (fun r raw spec h => ?_) _ hown
    rw [h.seen]
    exact rel_map (rt.reexportNames_rel fuel hagree spec p raw.2) fun _ _ => h.add

lemma exportNames_returns (collect : List Bytes → Bytes → List Bytes)
    (hresolve : ∀ spec p, Returns fun n => resolveModule rt.ord rt.fsys n spec p true) (levels : ℕ)
    (p src : Bytes) (seen : List Bytes) :
    Returns fun n => rt.exportNames collect n levels p src seen := by
  induction levels generalizing p src seen with
  | zero => exact returns_const _
  | succ levels ih =>
    refine Returns.foldlM (fun r spec => ?_) _ _
    have hreexport : Returns fun n =>
        rt.reexportNames n (rt.exportNames collect n levels) spec p r.2 := by
      refine (hresolve spec p).bind fun answer => ?_
      cases answer with
      | error e => exact returns_const _
      | ok r' =>
        simp only
        split_ifs
        · exact returns_const _
        · exact returns_const _
        · split
          · exact returns_const _
          · exact ih _ _ _
    simpa only [Option.map_eq_bind, Function.comp_def] using hreexport.bind fun r' =>
      returns_const _

variable {rt} (hloop : ∀ fsys ∈ rt.fsys, ∀ d, ¬ TransGen (Follows fsys) d d)
include hloop

lemma resolve_returns (spec p : Bytes) :
    Returns fun n => resolveModule rt.ord rt.fsys n spec p true := by
  cases hfsys : rt.fsys with
  | none =>
    simp only [resolveModule]
    split
    · split_ifs <;> exact returns_const _
    · split_ifs <;> exact returns_const _
  | some fsys =>
    exact resolveModule_returns
      (fun q => (load_returns_iff q).mpr fun d _ => hloop fsys hfsys d) rt.ord spec p true

lemma cjsShim_returns (p src : Bytes) : Returns fun n => rt.cjsShim isPrint n p src := by
  obtain ⟨r, n, hr⟩ := rt.exportNames_returns Cjs.add (resolve_returns hloop) 9 p src [p]
  exact ⟨shimText isPrint p r.1, n, fun m hm => by simp [cjsShim, cjsExportNames, hr m hm]⟩

end Runtime

/-! ### Which names are safe -/

/-- The words that `add` treats wrongly. -/
def hazards : List Bytes :=
  ["implements", "interface", "package", "private", "protected", "public", "eval", "arguments",
    "globalThis", "Object", "undefined", "of"].map str

lemma identRE_eq (n : Bytes) : identRE n = isIdentifierName n := by
  have hstart : ∀ c : UInt8, isKeyStart c = isIdentStart c := by decide +kernel
  have hpart : ∀ c : UInt8, (isKeyStart c || isDigit c) = isIdentPart c := by decide +kernel
  cases n with
  | nil => rfl
  | cons c s => rw [identRE, isIdentifierName, hstart, funext hpart]

lemma isBindingIdentifier_iff (n : Bytes) : isBindingIdentifier n = true
    ↔ isIdentifierName n = true ∧ n ∉ Ecma.reservedWords ∧ n ∉ unbindable := by
  simp [isBindingIdentifier, isIdentifier, and_assoc]

example : isBindingIdentifier (str "let") = false := by decide +kernel

/-- What `add` keeps can be bound, unless it is one of the words. -/
lemma Kept.binding {n : Bytes} (h : Kept n) (hn : n ∉ hazards) : isBindingIdentifier n = true := by
  have hwords : ∀ w ∈ Ecma.reservedWords ++ unbindable, w ∈ reservedWords ∨ w ∈ hazards := by
    decide +kernel
  have hfree (hw : n ∈ Ecma.reservedWords ++ unbindable) : False :=
    (hwords n hw).elim h.not_reserved hn
  refine (isBindingIdentifier_iff n).mpr ⟨identRE_eq n ▸ h.ident, fun hw => ?_, fun hw => ?_⟩
  · exact hfree (mem_append_left _ hw)
  · exact hfree (mem_append_right _ hw)

lemma kept_of_binding {n : Bytes} (h : isBindingIdentifier n = true) (hn : n ∉ hazards)
    (hown : n ≠ str "__cjs_default__" ∧ n ≠ str "__cjs_ns__") : Kept n := by
  have hwords : ∀ w ∈ reservedWords, w ∈ Ecma.reservedWords ∨ w ∈ hazards := by decide +kernel
  obtain ⟨hident, hreserved, -⟩ := (isBindingIdentifier_iff n).mp h
  exact ⟨(identRE_eq n).trans hident, fun hw => (hwords n hw).elim hreserved hn, hown⟩

def ownWords : List Bytes :=
  [str "globalThis", str "Object", str "__cjs_default__", str "__cjs_ns__"]

/-- The text is a module of strict code that exports every detected name that can be bound. -/
structure WellFormed (names detected : List Bytes) (text : Bytes) : Prop where
  legal : ∀ n ∈ names, isBindingIdentifier n = true
  module : ∃ m, parseModule text = some m ∧ m.Valid ∧ (∀ x ∈ m.lets, x ∉ m.reads)
    ∧ ∀ n ∈ detected, isBindingIdentifier n = true → n ≠ str "default" → n ∉ ownWords →
      n ∈ m.exportedNames

section

variable {detected : List Bytes} (hmem : ∀ n, n ∈ names ↔ n ∈ detected ∧ Kept n)

include hmem

lemma valid_shimModule (hnodup : names.Nodup) : (shimModule isPrint p names).Valid where
  bindings_nodup := by
    rw [bindings_shimModule]
    split_ifs
    · simp
    · have hown : str "__cjs_default__" ≠ str "__cjs_ns__" := by decide
      have hdefault : str "__cjs_default__" ∉ names := fun h => ((hmem _).mp h).2.not_own.1 rfl
      have hns : str "__cjs_ns__" ∉ names := fun h => ((hmem _).mp h).2.not_own.2 rfl
      simp [hnodup, hown, hdefault, hns]
  exports_nodup := by
    have hdefault : str "default" ∉ names := fun h => ((hmem _).mp h).2.not_reserved (by decide)
    rw [exportedNames_shimModule]
    exact nodup_cons.mpr ⟨hdefault, hnodup⟩
  exports_bound := by
    intro x hx
    rw [exportedBindings_shimModule] at hx
    rw [bindings_shimModule, if_neg (ne_nil_of_mem hx)]
    simp [hx]

lemma wellFormed_of_safe (hnodup : names.Nodup) (hsafe : ∀ n ∈ detected, n ∉ hazards) :
    WellFormed names detected (shimText isPrint p names) := by
  have hlegal : ∀ n ∈ names, isBindingIdentifier n = true :=
    fun n hn => ((hmem n).mp hn).2.binding (hsafe n ((hmem n).mp hn).1)
  refine ⟨hlegal, _, parseModule_shimText isPrint p hlegal,
    valid_shimModule isPrint hmem hnodup, ?_, ?_⟩
  · intro x hx hread
    rw [lets_shimModule] at hx
    rw [mem_reads_shimModule isPrint (ne_nil_of_mem hx)] at hread
    have hreads : ∀ x ∈ shimReads, x ∈ hazards ∨ ¬ Kept x := by decide +kernel
    obtain ⟨hdetected, hkept⟩ := (hmem x).mp hx
    exact (hreads x hread).elim (hsafe x hdetected) fun h => h hkept
  · intro n hn hbinding _ hown
    rw [exportedNames_shimModule]
    have hkept := kept_of_binding hbinding (hsafe n hn)
      ⟨fun h => hown (h ▸ by decide), fun h => hown (h ▸ by decide)⟩
    exact mem_cons_of_mem _ ((hmem n).mpr ⟨hn, hkept⟩)

lemma safe_of_wellFormed (h : WellFormed names detected (shimText isPrint p names)) :
    ∀ n ∈ detected, n ∉ hazards := by
  intro n hn hhazard
  obtain ⟨m, hparse, -, hshadow, hcomplete⟩ := h.module
  obtain rfl := Option.some.inj ((parseModule_shimText isPrint p h.legal).symm.trans hparse)
  by_cases hof : n = str "of"
  · -- it can be bound, and is dropped
    have hexported := hcomplete n hn (hof ▸ by decide +kernel) (hof ▸ by decide) (hof ▸ by decide)
    rw [exportedNames_shimModule, hof] at hexported
    rcases mem_cons.mp hexported with heq | hin
    · exact absurd heq (by decide)
    · exact ((hmem _).mp hin).2.not_reserved (by decide)
  · have hwords : ∀ w ∈ hazards, w = str "of" ∨
        (Kept w ∧ (isBindingIdentifier w = true → w ∈ shimReads)) := by
      decide +kernel
    obtain ⟨hkept, hread⟩ := (hwords n hhazard).resolve_left hof
    have hin : n ∈ names := (hmem n).mpr ⟨hn, hkept⟩
    refine hshadow n (by rwa [lets_shimModule]) ?_
    rw [mem_reads_shimModule isPrint (ne_nil_of_mem hin)]
    exact hread (h.legal n hin)

end

/-- The shim is well formed exactly if the analysis detects none of the words. -/
theorem cjsShim_wellFormed_iff (rt : Runtime) (isPrint : ℕ → Bool) (p src : Bytes) :
    (∀ fuel text, rt.cjsShim isPrint fuel p src = some text →
      ∃ names detected, rt.cjsExportNames fuel p src = some names
        ∧ rt.detected fuel p src = some detected
        ∧ (WellFormed names detected text ↔ ∀ n ∈ detected, n ∉ hazards))
    ∧ ((∀ fsys ∈ rt.fsys, ∀ d, ¬ TransGen (Follows fsys) d d) →
      Returns fun fuel => rt.cjsShim isPrint fuel p src) := by
  refine ⟨fun fuel text htext => ?_, fun hloop => Runtime.cjsShim_returns isPrint hloop p src⟩
  obtain ⟨names, hnames, rfl⟩ := Option.map_eq_some_iff.mp htext
  obtain ⟨r, hr, rfl⟩ := Option.map_eq_some_iff.mp hnames
  have hrel := rt.exportNames_rel fuel 9 p src [p]
  rw [hr] at hrel
  generalize hraw : rt.exportNames gather fuel 9 p src [p] = o at hrel
  cases hrel with
  | some h =>
    refine ⟨_, _, hnames, by rw [Runtime.detected, hraw]; rfl, ?_⟩
    exact ⟨safe_of_wellFormed isPrint h.mem, wellFormed_of_safe isPrint h.mem h.nodup⟩

def bareRuntime : Runtime where
  ord _ := .sorted
  fsys := none
  sourceIsModule _ := none
  coreExports name := if name = str "fs" then [str "readFile"] else []

lemma exportNames_own (rt : Runtime) (collect : List Bytes → Bytes → List Bytes) (fuel : ℕ)
    {p src : Bytes} (hsrc : reexports (maskCJSSource src) = []) :
    (rt.exportNames collect fuel 9 p src [p]).map Prod.fst
      = some ((ownNames (maskCJSSource src)).foldl collect []) := by
  simp [Runtime.exportNames, hsrc]

/-- Words that break the shim: one that strict code reserves, one that the shim reads, and one that
is dropped although it can be bound. -/
theorem hazards_break_shim :
    (∃ text, bareRuntime.cjsShim (fun _ => true) 0 (str "a.js") (str "exports.interface=1")
        = some text
      ∧ parseModule text = none)
    ∧ (∃ text m, bareRuntime.cjsShim (fun _ => true) 0 (str "a.js") (str "exports.Object=1")
        = some text
      ∧ parseModule text = some m ∧ str "Object" ∈ m.lets ∧ str "Object" ∈ m.reads)
    ∧ ∃ text m, bareRuntime.cjsShim (fun _ => true) 0 (str "a.js") (str "exports.of=1")
        = some text
      ∧ bareRuntime.detected 0 (str "a.js") (str "exports.of=1") = some [str "of"]
      ∧ isBindingIdentifier (str "of") = true
      ∧ parseModule text = some m ∧ str "of" ∉ m.exportedNames := by
  have hshim {src : Bytes} (names : List Bytes) (hsrc : reexports (maskCJSSource src) = [])
      (hnames : (ownNames (maskCJSSource src)).foldl add [] = names) :
      bareRuntime.cjsShim (fun _ => true) 0 (str "a.js") src
        = some (shimText (fun _ => true) (str "a.js") names) := by
    rw [Runtime.cjsShim, Runtime.cjsExportNames, exportNames_own _ _ _ hsrc, hnames]
    rfl
  have hof : reexports (maskCJSSource (str "exports.of=1")) = [] := by decide +kernel
  refine ⟨⟨_, hshim [str "interface"] (by decide +kernel) (by decide +kernel), ?_⟩,
    ⟨_, shimModule (fun _ => true) (str "a.js") [str "Object"],
      hshim [str "Object"] (by decide +kernel) (by decide +kernel), ?_, ?_, ?_⟩,
    ⟨_, shimModule (fun _ => true) (str "a.js") [],
      hshim [] hof (by decide +kernel), ?_, ?_, ?_, ?_⟩⟩
  · decide +kernel
  · decide +kernel
  · decide +kernel
  · decide +kernel
  · rw [Runtime.detected, exportNames_own _ _ _ hof]
    decide +kernel
  · decide +kernel
  · decide +kernel
  · decide +kernel

def plainSource : Bytes := str "exports.a=1;module.exports=require('fs')"

theorem plainShim_wellFormed : ∃ text detected,
    bareRuntime.cjsShim (fun _ => true) 0 (str "a.js") plainSource = some text
      ∧ bareRuntime.detected 0 (str "a.js") plainSource = some detected
      ∧ WellFormed [str "a", str "readFile"] detected text := by
  have hown : ownNames (maskCJSSource plainSource) = [str "a"] := by decide +kernel
  have hreexports : reexports (maskCJSSource plainSource) = [str "fs"] := by decide +kernel
  have hresolve : resolveModule (fun _ => .sorted) none 0 (str "fs") (str "a.js") true
      = some (.ok { core := str "fs" }) := by
    have hcut : cutLead (str "node:") (str "fs") = none := by decide
    have hcore : str "fs" ∈ coreModules := by decide +kernel
    simp only [resolveModule, hcut, hcore, if_true]
  have hwalk (collect : List Bytes → Bytes → List Bytes) :
      bareRuntime.exportNames collect 0 9 (str "a.js") plainSource [str "a.js"]
        = some ([str "a", str "readFile"].foldl collect [], [str "a.js"]) := by
    have hfs : str "fs" ≠ [] := by decide
    simp [Runtime.exportNames, hown, hreexports, Runtime.reexportNames, bareRuntime, hresolve, hfs]
  have hnames : bareRuntime.cjsExportNames 0 (str "a.js") plainSource
      = some [str "a", str "readFile"] := by
    rw [Runtime.cjsExportNames, hwalk]
    decide +kernel
  have hshim : bareRuntime.cjsShim (fun _ => true) 0 (str "a.js") plainSource
      = some (shimText (fun _ => true) (str "a.js") [str "a", str "readFile"]) := by
    rw [Runtime.cjsShim, hnames]
    rfl
  obtain ⟨names, detected, hnames', hdetected, hiff⟩ :=
    (cjsShim_wellFormed_iff bareRuntime (fun _ => true) (str "a.js") plainSource).1 0 _ hshim
  obtain rfl := Option.some.inj (hnames.symm.trans hnames')
  refine ⟨_, detected, hshim, hdetected, hiff.mpr ?_⟩
  have hgathered : bareRuntime.detected 0 (str "a.js") plainSource
      = some [str "a", str "readFile"] := by
    rw [Runtime.detected, hwalk]
    rfl
  obtain rfl := Option.some.inj (hgathered.symm.trans hdetected)
  decide +kernel

end GoSpidermonkey.Nodejs.Cjs
