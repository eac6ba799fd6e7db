import GoSpidermonkey.Go.Regexp
import GoSpidermonkey.Go.Strconv
import GoSpidermonkey.Nodejs.CjsSource
import GoSpidermonkey.Nodejs.Resolve

/-!
# The exports of a CommonJS file

An ES module that imports a CommonJS file gets a shim (`cjsShim`): the default export is
`module.exports`, and each name that `cjsExportNames` detects in the file becomes a `let` binding
that is exported. The names come from patterns over the masked text, and from the files that it
re-exports as a whole, which are followed to a depth of eight. The files that have been visited are
recorded in one map (`seen`), which all the calls share.
-/

open GoSpidermonkey.Regexp GoSpidermonkey.Path

namespace GoSpidermonkey.Nodejs.Cjs

/-! ### Patterns -/

/-- `[\w$]`. -/
def isNameByte (c : UInt8) : Bool := isWord c || c == ch '$'

/-- `[A-Za-z_$][\w$]*`. -/
def nameRE : Re := .seq (.cls isKeyStart) (.many isNameByte)

/-- `\s*`. -/
def spaces : Re := .many isSpace

/-- `(?:^|[^\w$.])`. -/
def boundary : Re := .alt .start (.cls fun c => !isNameByte c && c != ch '.')

/-- `[^q\\]+` between two quotes `q`, in a group. -/
def quotedBy (q : UInt8) (i : ℕ) : Re :=
  .all [.lit [q], .group i (.plus fun c => c != q && c != ch '\\'), .lit [q]]

/-- `(?:"([^"\\]+)"|'([^'\\]+)')`, with the groups `i` and `i + 1`. -/
def quoted (i : ℕ) : Re := .alt (quotedBy 34 i) (quotedBy 39 (i + 1))

/-- `(?:module\s*\.\s*)?exports`. -/
def exportsRE : Re :=
  .seq (.opt (.all [.lit (str "module"), spaces, .lit (str "."), spaces])) (.lit (str "exports"))

/-- `module\s*\.\s*exports\s*=\s*`. -/
def moduleExportsRE : Re :=
  .all [.lit (str "module"), spaces, .lit (str "."), spaces, .lit (str "exports"), spaces,
    .lit (str "="), spaces]

/-- `require\s*\(\s*(?:"([^"\\]+)"|'([^'\\]+)')\s*\)`. -/
def requireRE (i : ℕ) : Re :=
  .all [.lit (str "require"), spaces, .lit (str "("), spaces, quoted i, spaces, .lit (str ")")]

/-- `exports.NAME =` and `module.exports.NAME =`. -/
def cjsExportsDotRE : Re :=
  .all [boundary, exportsRE, spaces, .lit (str "."), spaces, .group 1 nameRE, spaces,
    .lit (str "=")]

/-- `exports["NAME"] =` and `module.exports['NAME'] =`. -/
def cjsExportsBracketRE : Re :=
  .all [boundary, exportsRE, spaces, .lit (str "["), spaces, quoted 1, spaces,
    .lit (str "]"), spaces, .lit (str "=")]

/-- `Object.defineProperty(exports, "NAME"`. -/
def cjsDefinePropRE : Re :=
  .all [.lit (str "Object"), spaces, .lit (str "."), spaces, .lit (str "defineProperty"), spaces,
    .lit (str "("), spaces, exportsRE, spaces, .lit (str ","), spaces, quoted 1]

/-- `module.exports = {`. -/
def cjsModuleExportsObjRE : Re := .all [boundary, moduleExportsRE, .lit [123]]

/-- `module.exports = require("...")`. -/
def cjsModuleExportsRequireRE : Re := .all [boundary, moduleExportsRE, requireRE 1]

/-- `__exportStar(require("..."), exports)`. -/
def cjsExportStarRE : Re :=
  .all [.lit (str "__exportStar"), spaces, .lit (str "("), spaces, requireRE 1, spaces,
    .lit (str ","), spaces, .lit (str "exports"), spaces, .lit (str ")")]

/-- `var _m = require("...")`. -/
def cjsRequireVarRE : Re :=
  .all [.alt (.lit (str "var")) (.alt (.lit (str "let")) (.lit (str "const"))), .plus isSpace,
    .group 1 nameRE, spaces, .lit (str "="), spaces, requireRE 2]

/-- `Object.keys(_m).forEach`. -/
def cjsKeysForEachRE : Re :=
  .all [.lit (str "Object"), spaces, .lit (str "."), spaces, .lit (str "keys"), spaces,
    .lit (str "("), spaces, .group 1 nameRE, spaces, .lit (str ")"), spaces, .lit (str "."), spaces,
    .lit (str "forEach")]

/-! ### One file -/

/-- `assignmentNotComparison`. -/
def isAssignment (m : Match) : Bool := m.rest.head? != some (ch '=')

def ownNames (masked : Bytes) : List Bytes :=
  ((findAll cjsExportsDotRE masked).filter isAssignment).map (·.group 1)
    ++ ((findAll cjsExportsBracketRE masked).filter isAssignment).map
      (fun m => (m.groups.lookup 1).getD (m.group 2))
    ++ (findAll cjsDefinePropRE masked).map (fun m => m.group 1 ++ m.group 2)
    ++ (findAll cjsModuleExportsObjRE masked).flatMap (fun m => objectLiteralKeys (123 :: m.rest))

def contains (s sub : Bytes) : Bool := s.tails.any sub.isPrefixOf

/-- `requireVars`: the last declaration of a variable counts. -/
def requireVar (masked v : Bytes) : Option Bytes :=
  ((findAll cjsRequireVarRE masked).reverse.find? fun m => m.group 1 == v).map
    fun m => m.group 2 ++ m.group 3

/-- The text after `Object.keys(_m).forEach` copies the exports of `_m`. -/
def isStarLoop (rest : Bytes) : Bool :=
  let body := rest.take 600
  contains body (str "exports[key]") || contains body (str "defineProperty(exports, key")
    || contains body (str "defineProperty(exports,key")

def reexports (masked : Bytes) : List Bytes :=
  (findAll cjsModuleExportsRequireRE masked).map (fun m => m.group 1 ++ m.group 2)
    ++ (findAll cjsExportStarRE masked).map (fun m => m.group 1 ++ m.group 2)
    ++ (findAll cjsKeysForEachRE masked).filterMap fun m =>
      (requireVar masked (m.group 1)).bind fun spec => if isStarLoop m.rest then some spec else none

/-! ### The names that are kept -/

/-- `identRE.MatchString`. -/
def identRE : Bytes → Bool
  | [] => false
  | c :: s => isKeyStart c && s.all fun c => isKeyStart c || isDigit c

def reservedWords : List Bytes :=
  ["default", "class", "function", "var", "let", "const", "new", "delete", "in", "of", "if", "else",
    "return", "this", "typeof", "void", "with", "yield", "await", "static", "export", "import",
    "super", "extends", "enum", "null", "true", "false", "do", "while", "for", "switch", "case",
    "try", "catch", "finally", "throw", "break", "continue", "debugger", "instanceof"].map str

def add (names : List Bytes) (n : Bytes) : List Bytes :=
  if n = [] ∨ n = str "default" ∨ n ∈ names ∨ identRE n = false ∨ n ∈ reservedWords then names
  -- they would collide with the shim's own bindings
  else if n = str "__cjs_default__" ∨ n = str "__cjs_ns__" then names
  else names ++ [n]

/-! ### Files that re-export files -/

/-- What the analysis reads of the runtime. -/
structure Runtime where
  ord : RangeSite → MapOrder
  fsys : Option FileTree
  /-- None where the engine answers with an error, or there is no engine. -/
  sourceIsModule : Bytes → Option Bool
  coreExports : Bytes → List Bytes

namespace Runtime

variable (rt : Runtime)

def readFile (p : Bytes) : Option Bytes := rt.fsys.bind (·.readFile p)

def refineKind (r : Resolution) : Resolution :=
  if r.kindGuessed = false then r
  else
    match (rt.readFile r.path).bind rt.sourceIsModule with
    | none => r
    | some isModule => { r with kind := if isModule then .esm else .cjs, kindGuessed := false }

/-- `cjsReexportNames`; `names` is the recursive call of `cjsExportNames`. -/
def reexportNames (fuel : ℕ)
    (names : Bytes → Bytes → List Bytes → Option (List Bytes × List Bytes))
    (spec parent : Bytes) (seen : List Bytes) : Option (List Bytes × List Bytes) :=
  (resolveModule rt.ord rt.fsys fuel spec parent true).bind fun r =>
    match r with
    | .error _ => some ([], seen)
    | .ok r =>
      if r.core ≠ [] then some (rt.coreExports r.core, seen)
      else
        let r := rt.refineKind r
        if r.kind ≠ .cjs ∨ r.path ∈ seen then some ([], seen)
        else
          match rt.readFile r.path with
          | none => some ([], r.path :: seen)
          | some src => names r.path src (r.path :: seen)

/-- The walk of `cjsExportNames`. The first argument is the number of levels that are left. -/
def exportNames (collect : List Bytes → Bytes → List Bytes) (fuel : ℕ) :
    ℕ → Bytes → Bytes → List Bytes → Option (List Bytes × List Bytes)
  | 0, _, _, seen => some ([], seen)
  | levels + 1, p, src, seen =>
    let masked := maskCJSSource src
    (reexports masked).foldlM
      (fun r spec =>
        (rt.reexportNames fuel (exportNames collect fuel levels) spec p r.2).map
          fun r' => (r'.1.foldl collect r.1, r'.2))
      ((ownNames masked).foldl collect [], seen)

/-- `cjsExportNames` at depth 0; files deeper than 8 have no names. -/
def cjsExportNames (fuel : ℕ) (p src : Bytes) : Option (List Bytes) :=
  (rt.exportNames add fuel 9 p src [p]).map Prod.fst

end Runtime

/-! ### The shim -/

def nameShim (isPrint : ℕ → Bool) (n : Bytes) : Bytes :=
  str "let " ++ n ++ str "; try \x7b " ++ n ++ str " = __cjs_ns__[" ++ Strconv.quote isPrint n
    ++ str "]; \x7d catch \x7b\x7d\nexport \x7b " ++ n ++ str " \x7d;\n"

def shimText (isPrint : ℕ → Bool) (p : Bytes) (names : List Bytes) : Bytes :=
  str "const __cjs_default__ = globalThis.__node_require_path(" ++ Strconv.quote isPrint p
    ++ str ");\nexport default __cjs_default__;\n"
    ++ if names = [] then []
      else str "const __cjs_ns__ = (__cjs_default__ === null || __cjs_default__ === undefined)"
        ++ str " ? \x7b\x7d : Object(__cjs_default__);\n" ++ names.flatMap (nameShim isPrint)

def Runtime.cjsShim (rt : Runtime) (isPrint : ℕ → Bool) (fuel : ℕ) (p src : Bytes) : Option Bytes :=
  (rt.cjsExportNames fuel p src).map (shimText isPrint p)

end GoSpidermonkey.Nodejs.Cjs
