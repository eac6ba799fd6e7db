import GoSpidermonkey.Lib.FirstHit
import GoSpidermonkey.Nodejs.Resolve

/-!
# Package scopes

Node gives every file one package scope: the package.json of the nearest directory above it that
has one. Three walks of `resolve.go` look for it. `resolveSelfReference` stops at the first
package.json it can read. `classifyJS` goes on past a package.json that names no `type`, and
`nearestImports` past one that has no `imports`, so a package.json outside the scope can decide the
kind of a file or the meaning of its `#` imports. The walks agree exactly where every package.json
above the scope is silent about what the scope leaves open.
-/

namespace GoSpidermonkey.Nodejs

open GoSpidermonkey.Path FirstHit

/-! ### The scope of a file -/

def hasPackage (fsys : FileTree) (d : Bytes) : Bool := (readPackage fsys d).isSome

/-- The directory of the package scope of `p`, followed by the directories above it. -/
def scopeChain (fsys : FileTree) (p : Bytes) : List Bytes :=
  (ancestorDirs (dir p)).dropWhile fun d => !hasPackage fsys d

/-- The nearest directory above `p` that has a package.json. -/
def packageScope (fsys : FileTree) (p : Bytes) : Option Bytes := (scopeChain fsys p).head?

/-- The directories above the package scope of `p`. -/
def outerDirs (fsys : FileTree) (p : Bytes) : List Bytes := (scopeChain fsys p).tail

variable (fsys : FileTree)

def sniffKind (p : Bytes) : ModuleKind × Bool :=
  match fsys.readFile p with
  | some src => if esmSyntax src then (.esm, true) else (.cjs, true)
  | none => (.cjs, true)

/-- The package.json of one directory alone, with the directory. -/
def packageIn (d : Bytes) : Option (Bytes × Bytes) := (readPackage fsys d).map (d, ·)

/-- The kind of a file by the `type` of one package.json alone. -/
def kindIn (scope : Option Bytes) (p : Bytes) : ModuleKind × Bool :=
  match scope.bind (packageType fsys) with
  | some kind => (kind, false)
  | none => sniffKind fsys p

/-- All three walks from `p` take their answer from the package scope of `p`. -/
structure ScopeAgreement (p : Bytes) : Prop where
  kind : classifyJS fsys p = kindIn fsys (packageScope fsys p) p
  imports : nearestImports fsys (dir p) = (packageScope fsys p).bind (packageImports fsys)
  selfReference : ∀ ord fuel specifier conds,
    resolveSelfReference ord fsys fuel specifier p conds
      = selfReferenceIn ord fsys fuel ((packageScope fsys p).bind (packageIn fsys)) specifier conds

/-- What the package scope of `p` leaves open, no package.json above it answers. -/
def OuterSilent {β : Type} (read : Bytes → Option β) (p : Bytes) : Prop :=
  ∀ d, packageScope fsys p = some d → read d = none → ∀ a ∈ outerDirs fsys p, read a = none

variable {fsys}

/-! ### Where each walk stops -/

lemma packageType_of_not_hasPackage (d : Bytes) (h : hasPackage fsys d = false) :
    packageType fsys d = none := by
  have hraw : readPackage fsys d = none := by simpa [hasPackage] using h
  simp [packageType, hraw]

lemma packageImports_of_not_hasPackage (d : Bytes) (h : hasPackage fsys d = false) :
    packageImports fsys d = none := by
  have hraw : readPackage fsys d = none := by simpa [hasPackage] using h
  simp [packageImports, hraw]

/-- A walk for one field agrees with the scope exactly if the outside is silent about it. -/
lemma walk_eq_scope_iff {β : Type} {read : Bytes → Option β}
    (hread : ∀ d, hasPackage fsys d = false → read d = none) (p : Bytes) :
    (ancestorDirs (dir p)).findSome? read = (packageScope fsys p).bind read
      ↔ OuterSilent fsys read p := by
  rw [findSome?_dropWhile hread]
  exact findSome?_eq_head_iff (scopeChain fsys p)

lemma kind_eq_iff (p : Bytes) :
    classifyJS fsys p = kindIn fsys (packageScope fsys p) p ↔
      (ancestorDirs (dir p)).findSome? (packageType fsys)
        = (packageScope fsys p).bind (packageType fsys) := by
  have hguess : (sniffKind fsys p).2 = true := by
    unfold sniffKind
    split
    · split <;> rfl
    · rfl
  have hclassify : classifyJS fsys p
      = match (ancestorDirs (dir p)).findSome? (packageType fsys) with
        | some kind => (kind, false)
        | none => sniffKind fsys p := rfl
  rw [hclassify, kindIn]
  constructor
  · intro h
    cases hw : (ancestorDirs (dir p)).findSome? (packageType fsys) with
    | none =>
      cases hs : (packageScope fsys p).bind (packageType fsys) with
      | none => rfl
      | some kind =>
        rw [hw, hs] at h
        simp [h] at hguess
    | some kind =>
      cases hs : (packageScope fsys p).bind (packageType fsys) with
      | none =>
        rw [hw, hs] at h
        simp [← h] at hguess
      | some kind' =>
        rw [hw, hs] at h
        simpa using h
  · intro h
    rw [h]

/-- `resolveSelfReference` stops at the first package.json. -/
lemma selfReference_eq (ord : RangeSite → MapOrder) (fuel : ℕ) (specifier p : Bytes)
    (conds : Conditions) :
    resolveSelfReference ord fsys fuel specifier p conds
      = selfReferenceIn ord fsys fuel
        ((packageScope fsys p).bind (packageIn fsys)) specifier conds := by
  have hwalk : (ancestorDirs (dir p)).findSome? (packageIn fsys)
      = (packageScope fsys p).bind (packageIn fsys) := by
    rw [walk_eq_scope_iff]
    · intro d hd hnone
      have hsome : hasPackage fsys d = true := by
        have hhead := List.head?_dropWhile_not (fun d => !hasPackage fsys d) (ancestorDirs (dir p))
        rw [show (List.dropWhile (fun d => !hasPackage fsys d) (ancestorDirs (dir p))).head?
          = some d from hd] at hhead
        simpa using hhead
      simp only [packageIn, Option.map_eq_none_iff] at hnone
      simp [hasPackage, hnone] at hsome
    · intro d hd
      have hraw : readPackage fsys d = none := by simpa [hasPackage] using hd
      simp [packageIn, hraw]
  exact congrArg (selfReferenceIn ord fsys fuel · specifier conds) hwalk

/-! ### Agreement -/

/-- The three walks agree on the package scope exactly if no package.json above it gives a `type` or
an `imports` map that the scope itself lacks. -/
theorem scopeAgreement_iff (fsys : FileTree) (p : Bytes) :
    ScopeAgreement fsys p ↔
      OuterSilent fsys (packageType fsys) p ∧ OuterSilent fsys (packageImports fsys) p := by
  have hkind : classifyJS fsys p = kindIn fsys (packageScope fsys p) p
      ↔ OuterSilent fsys (packageType fsys) p :=
    (kind_eq_iff p).trans (walk_eq_scope_iff packageType_of_not_hasPackage p)
  have himports : nearestImports fsys (dir p) = (packageScope fsys p).bind (packageImports fsys)
      ↔ OuterSilent fsys (packageImports fsys) p :=
    walk_eq_scope_iff packageImports_of_not_hasPackage p
  constructor
  · intro h
    exact ⟨hkind.mp h.kind, himports.mp h.imports⟩
  · rintro ⟨ht, hi⟩
    exact ⟨hkind.mpr ht, himports.mpr hi, fun ord fuel specifier conds =>
      selfReference_eq ord fuel specifier p conds⟩

/-- An ES module application with a CommonJS dependency whose package.json has no fields. -/
def dependencyTree : FileTree :=
  (((∅ : FileTree).insert (str "package.json")
      (.file (str "\x7b\"type\":\"module\",\"imports\":\x7b\"#a\":\"./a.js\"\x7d\x7d"))).insert
    (str "node_modules/dep/package.json") (.file (str "\x7b\x7d"))).insert
    (str "node_modules/dep/index.js") (.file (str "module.exports = 1;"))

/-- The `type` and the `imports` of the application are applied to the file of the dependency. -/
theorem outer_package_decides :
    packageScope dependencyTree (str "node_modules/dep/index.js") = some (str "node_modules/dep")
      ∧ classifyJS dependencyTree (str "node_modules/dep/index.js") = (.esm, false)
      ∧ kindIn dependencyTree (some (str "node_modules/dep")) (str "node_modules/dep/index.js")
        = (.cjs, true)
      ∧ (nearestImports dependencyTree (str "node_modules/dep")).map Prod.fst = some (str ".")
      ∧ ¬ ScopeAgreement dependencyTree (str "node_modules/dep/index.js") := by
  have hscope : packageScope dependencyTree (str "node_modules/dep/index.js")
      = some (str "node_modules/dep") := by decide +kernel
  have hclassify : classifyJS dependencyTree (str "node_modules/dep/index.js") = (.esm, false) := by
    decide +kernel
  have hkind : kindIn dependencyTree (some (str "node_modules/dep"))
      (str "node_modules/dep/index.js") = (.cjs, true) := by decide +kernel
  refine ⟨hscope, hclassify, hkind, by decide +kernel, fun h => ?_⟩
  have hagree := h.kind
  rw [hscope, hclassify, hkind] at hagree
  cases hagree

end GoSpidermonkey.Nodejs
