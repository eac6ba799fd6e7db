import GoSpidermonkey.Nodejs.Exports

/-!
# Module resolution

Node's module-resolution algorithm over an `fs.FS`, as `resolve.go` implements it. The file system
is a finite tree of directories and files. `loadAsFileOrDir` follows the `module` and `main` entries
of package.json files from directory to directory and keeps no record of where it has been, so it
takes the number of nested calls it may still make and answers `none` when they are used up; the
functions built on it pass that number on.
-/

open GoSpidermonkey.Path

namespace GoSpidermonkey.Nodejs

/-! ### The file system -/

inductive Entry where
  | dir
  | file (data : Bytes)
  deriving DecidableEq

/-- The files and directories of an `fs.FS` by name. -/
abbrev FileTree := Finmap fun _ : Bytes => Entry

namespace FileTree

variable (fsys : FileTree)

def stat (p : Bytes) : Option Entry := if validPath p then fsys.lookup p else none

def readFile (p : Bytes) : Option Bytes :=
  match fsys.stat p with
  | some (.file data) => some data
  | _ => none

def isFile (p : Bytes) : Bool :=
  match fsys.stat p with
  | some (.file _) => true
  | _ => false

def isDir (p : Bytes) : Bool := fsys.stat p == some .dir

end FileTree

/-- `json.Unmarshal` into a struct: the members to fill it from. -/
def unmarshal (raw : Bytes) : Option (List (Bytes × Json)) :=
  (Json.parse raw).bind Json.structMembers

def readPackage (fsys : FileTree) (d : Bytes) : Option Bytes :=
  fsys.readFile (join [d, str "package.json"])

/-! ### Directories above a file -/

/-- The loop of `ancestorDirs`. -/
def ancestorLoop : ℕ → Bytes → List Bytes
  | 0, _ => []
  | n + 1, d => if d = root ∨ d = [slash] then [d] else d :: ancestorLoop n (dir d)

/-- A directory and every directory above it; the fuel is never used up (`ancestors_eq`). -/
def ancestors (d : Bytes) : List Bytes := ancestorLoop (d.length + 2) d

def ancestorDirs (d : Bytes) : List Bytes := ancestors (clean d)

lemma ancestorLoop_congr {n m : ℕ} {d : Bytes} (hn : d.length + 2 ≤ n) (hm : d.length + 2 ≤ m) :
    ancestorLoop n d = ancestorLoop m d := by
  induction n generalizing m d with
  | zero => omega
  | succ n ih =>
    obtain ⟨m, rfl⟩ : ∃ k, m = k + 1 := ⟨m - 1, by omega⟩
    simp only [ancestorLoop]
    split
    · rfl
    · obtain ⟨n, rfl⟩ : ∃ k, n = k + 1 := ⟨n - 1, by omega⟩
      obtain ⟨m, rfl⟩ : ∃ k, m = k + 1 := ⟨m - 1, by omega⟩
      rcases dir_shorter d with h | h | h
      · simp [h, ancestorLoop]
      · simp [h, ancestorLoop]
      · exact congrArg (d :: ·) (ih (m := m + 1) (by omega) (by omega))

lemma ancestors_eq (d : Bytes) :
    ancestors d = if d = root ∨ d = [slash] then [d] else d :: ancestors (dir d) := by
  rw [ancestors, ancestorLoop]
  split
  · rfl
  · rcases dir_shorter d with h | h | h
    · simp [h, ancestors, ancestorLoop]
    · simp [h, ancestors, ancestorLoop]
    · exact congrArg (d :: ·) (ancestorLoop_congr (by omega) le_rfl)

/-! ### Module kinds -/

inductive ModuleKind where
  | esm
  | cjs
  | json
  deriving DecidableEq

/-- The outcome of resolving one specifier. -/
structure Resolution where
  core : Bytes := []
  path : Bytes := []
  kind : ModuleKind := .esm
  kindGuessed : Bool := false
  deriving DecidableEq

/-- `\s` of the regular expression. -/
def isSpace (c : UInt8) : Bool := c == 9 || c == 10 || c == 12 || c == 13 || c == 32

/-- The characters that are part of a word for `\b`. -/
def isWord (c : UInt8) : Bool :=
  (ch 'a' ≤ c && c ≤ ch 'z') || (ch 'A' ≤ c && c ≤ ch 'Z') || (ch '0' ≤ c && c ≤ ch '9') ||
    c == ch '_'

/-- `\s*(import|export)\b` matches at the head of the text. -/
def esmKeyword (s : Bytes) : Bool :=
  let t := s.dropWhile isSpace
  ((str "import").isPrefixOf t || (str "export").isPrefixOf t) &&
    match (t.drop 6).head? with
    | none => true
    | some c => !isWord c

/-- `esmSyntax.Match`: the keyword stands at the start of some line. -/
def esmSyntax (src : Bytes) : Bool :=
  esmKeyword src || src.tails.any fun t =>
    match t with
    | c :: rest => c == 10 && esmKeyword rest
    | [] => false

/-- The package.json `type` of a directory, when it decides the kind. -/
def packageType (fsys : FileTree) (d : Bytes) : Option ModuleKind := do
  let raw ← readPackage fsys d
  let fields ← unmarshal raw
  let type ← Json.stringField (str "type") fields
  if type = [] then none
  else if type = str "module" then some .esm
  else some .cjs

def classifyJS (fsys : FileTree) (p : Bytes) : ModuleKind × Bool :=
  match (ancestorDirs (dir p)).findSome? (packageType fsys) with
  | some kind => (kind, false)
  | none =>
    match fsys.readFile p with
    | some src => if esmSyntax src then (.esm, true) else (.cjs, true)
    | none => (.cjs, true)

def finish (fsys : FileTree) (p : Bytes) : Resolution :=
  if ext p = str ".json" then { path := p, kind := .json }
  else if ext p = str ".mjs" then { path := p, kind := .esm }
  else if ext p = str ".cjs" then { path := p, kind := .cjs }
  else { path := p, kind := (classifyJS fsys p).1, kindGuessed := (classifyJS fsys p).2 }

/-! ### Files and directories -/

inductive ResolveError where
  | unknownBuiltin (specifier : Bytes)
  | noFS (specifier : Bytes)
  | cannotResolve (p : Bytes)
  | cannotResolveFrom (specifier parent : Bytes)
  | cannotFindPackage (name parent : Bytes)
  | packageUnreadable (pkgDir : Bytes)
  | badPackageJSON (pkgDir : Bytes)
  | packageExports (pkgDir : Bytes) (err : ExportsError)
  | noImports (specifier parent : Bytes)
  | noImportsEntry (pkgDir specifier : Bytes)
  deriving DecidableEq

/-- `strField`: other JSON counts as no entry. -/
def strField : Json → Bytes
  | .str s => s
  | _ => []

/-- The file names tried for `p` itself. -/
def fileCandidates (p : Bytes) : List Bytes :=
  [p, p ++ str ".js", p ++ str ".json", p ++ str ".mjs", p ++ str ".cjs"]

def indexCandidates (p : Bytes) : List Bytes :=
  [str "index.js", str "index.json", str "index.mjs", str "index.cjs"].map fun idx => join [p, idx]

def firstFile (fsys : FileTree) (cands : List Bytes) : Option Resolution :=
  (cands.find? fsys.isFile).map (finish fsys)

def packageEntries (fsys : FileTree) (p : Bytes) : List Bytes :=
  match readPackage fsys p with
  | none => []
  | some raw =>
    match unmarshal raw with
    | none => []
    | some fields =>
      match Json.anyField (str "main") fields, Json.anyField (str "module") fields with
      | some main, some module_ => [strField module_, strField main]
      | _, _ => []

def tryEntries (load : Bytes → Option (Except ResolveError Resolution)) (p : Bytes) :
    List Bytes → Option (Option Resolution)
  | [] => some none
  | entry :: rest =>
    if entry = [] then tryEntries load p rest
    else
      match load (join [p, entry]) with
      | none => none
      | some (.ok r) => some (some r)
      | some (.error _) => tryEntries load p rest

def loadAsFileOrDir (fsys : FileTree) : ℕ → Bytes → Option (Except ResolveError Resolution)
  | 0, _ => none
  | n + 1, p =>
    match firstFile fsys (fileCandidates p) with
    | some r => some (.ok r)
    | none =>
      if fsys.isDir p then
        match tryEntries (loadAsFileOrDir fsys n) p (packageEntries fsys p) with
        | none => none
        | some (some r) => some (.ok r)
        | some none =>
          match firstFile fsys (indexCandidates p) with
          | some r => some (.ok r)
          | none => some (.error (.cannotResolve p))
      else some (.error (.cannotResolve p))

/-! ### Packages -/

/-- The `range` statements over a map, by the function that comes to them. -/
inductive RangeSite where
  | selfKind
  | selfPatterns
  | packageKind
  | packagePatterns
  | importsPatterns

/-- `splitBare`: package name and subpath. -/
def splitBare (specifier : Bytes) : Bytes × Bytes :=
  let parts := specifier.splitOn slash
  let n := if (str "@").isPrefixOf specifier ∧ 1 < parts.length then 2 else 1
  ([slash].intercalate (parts.take n), [slash].intercalate (parts.drop n))

section

variable (ord : RangeSite → MapOrder) (fsys : FileTree) (fuel : ℕ)

/-- The end of `resolveSelfReference`, with the package.json that the walk has found and its
directory; the inner `none` is a reference that does not apply. -/
def selfReferenceIn (found : Option (Bytes × Bytes)) (specifier : Bytes) (conds : Conditions) :
    Option (Option Resolution) :=
  let (name, subpath) := splitBare specifier
  match found with
  | none => some none
  | some (d, raw) =>
    match unmarshal raw with
    | none => some none
    | some fields =>
      let exports := Json.rawField (str "exports") fields
      if Json.stringField (str "name") fields ≠ some name ∨ ¬ hasJSONValue exports then some none
      else
        match resolveExports (ord .selfKind) (ord .selfPatterns) exports subpath conds with
        | .error _ => some none
        | .ok target => (loadAsFileOrDir fsys fuel (join [d, target])).bind fun r => some r.toOption

def resolveSelfReference (specifier parent : Bytes) (conds : Conditions) :
    Option (Option Resolution) :=
  -- the nearest package.json is the package scope: the walk stops there
  selfReferenceIn ord fsys fuel
    ((ancestorDirs (dir parent)).findSome? fun d => (readPackage fsys d).map (d, ·)) specifier conds

def resolvePackage (pkgDir subpath : Bytes) (conds : Conditions) :
    Option (Except ResolveError Resolution) :=
  match readPackage fsys pkgDir with
  | none => some (.error (.packageUnreadable pkgDir))
  | some raw =>
    match unmarshal raw with
    | none => some (.error (.badPackageJSON pkgDir))
    | some fields =>
      match Json.anyField (str "browser") fields, Json.anyField (str "module") fields,
          Json.anyField (str "main") fields with
      | some browser, some module_, some main =>
        let exports := Json.rawField (str "exports") fields
        if hasJSONValue exports then
          match resolveExports (ord .packageKind) (ord .packagePatterns) exports subpath conds with
          | .error e => some (.error (.packageExports pkgDir e))
          | .ok target => loadAsFileOrDir fsys fuel (join [pkgDir, target])
        else if subpath ≠ [] then loadAsFileOrDir fsys fuel (join [pkgDir, subpath])
        else
          (tryEntries (loadAsFileOrDir fsys fuel) pkgDir
            [strField browser, strField module_, strField main]).bind fun r =>
              match r with
              | some r => some (.ok r)
              | none => loadAsFileOrDir fsys fuel pkgDir
      | _, _, _ => some (.error (.badPackageJSON pkgDir))

def resolveBareSpecifier (specifier parent : Bytes) (conds : Conditions) :
    Option (Except ResolveError Resolution) :=
  let (name, subpath) := splitBare specifier
  let pkgDirs := (ancestorDirs (dir parent)).map fun d => join [d, str "node_modules", name]
  match pkgDirs.find? fun pkgDir => (fsys.stat pkgDir).isSome with
  | some pkgDir => resolvePackage ord fsys fuel pkgDir subpath conds
  | none => some (.error (.cannotFindPackage name parent))

/-- The `imports` map of a directory's package.json. -/
def packageImports (d : Bytes) : Option (Bytes × RawMap) := do
  let raw ← readPackage fsys d
  let fields ← unmarshal raw
  let imports ← Json.rawMapField (str "imports") fields
  imports.map (d, ·)

def nearestImports (d : Bytes) : Option (Bytes × RawMap) :=
  (ancestorDirs d).findSome? (packageImports fsys)

def resolveHashImport (specifier parent : Bytes) (conds : Conditions) :
    Option (Except ResolveError Resolution) :=
  match nearestImports fsys (dir parent) with
  | none => some (.error (.noImports specifier parent))
  | some (pkgDir, imports) =>
    match resolveSubpathMap (ord .importsPatterns) imports specifier conds with
    | .error _ => some (.error (.noImportsEntry pkgDir specifier))
    | .ok target =>
      if (str "./").isPrefixOf target ∨ (str "../").isPrefixOf target then
        loadAsFileOrDir fsys fuel (join [pkgDir, target])
      else
        resolveBareSpecifier ord fsys fuel target (join [pkgDir, str "package.json"]) conds

end

/-! ### Specifiers -/

def coreModules : List Bytes :=
  ["assert", "assert/strict", "async_hooks", "buffer", "child_process", "cluster", "console",
    "constants", "crypto", "dgram", "diagnostics_channel", "dns", "dns/promises", "events", "fs",
    "fs/promises", "http", "http2", "https", "inspector", "inspector/promises", "module", "net",
    "os", "path", "path/posix", "path/win32", "perf_hooks", "process", "punycode", "querystring",
    "readline", "readline/promises", "stream", "stream/consumers", "stream/promises", "stream/web",
    "string_decoder", "sys", "timers", "timers/promises", "tls", "tty", "url", "util", "util/types",
    "v8", "vm", "worker_threads", "zlib"].map str

/-- `strings.CutPrefix`. -/
def cutLead (lead s : Bytes) : Option Bytes :=
  if lead.isPrefixOf s then some (s.drop lead.length) else none

/-- `strings.TrimPrefix(s, "/")`. -/
def trimSlash (s : Bytes) : Bytes := (cutLead [slash] s).getD s

def unhexDigit (c : UInt8) : Option UInt8 :=
  if ch '0' ≤ c ∧ c ≤ ch '9' then some (c - ch '0')
  else if ch 'a' ≤ c ∧ c ≤ ch 'f' then some (c - ch 'a' + 10)
  else if ch 'A' ≤ c ∧ c ≤ ch 'F' then some (c - ch 'A' + 10)
  else none

/-- The byte of a `%` escape. -/
def unescape (hi lo : UInt8) : Option UInt8 := do
  let hi ← unhexDigit hi
  let lo ← unhexDigit lo
  return hi <<< 4 ||| lo

/-- `percentDecode`: a `%` without two hex digits after it stays. -/
def percentDecode : Bytes → Bytes
  | c :: hi :: lo :: rest =>
    if c = ch '%' then
      match unescape hi lo with
      | some b => b :: percentDecode rest
      | none => c :: percentDecode (hi :: lo :: rest)
    else c :: percentDecode (hi :: lo :: rest)
  | s => s

def fileURLToFSPath (s : Bytes) : Bytes :=
  match (cutLead (str "file://") s).or (cutLead (str "file:") s) with
  | some after => slash :: percentDecode (after.dropWhile (· == slash))
  | none => s

def specifierPath (specifier parent : Bytes) : Bytes × Bool :=
  let spec := fileURLToFSPath specifier
  if spec = str "." ∨ spec = str ".." ∨ (str "./").isPrefixOf spec ∨
    (str "../").isPrefixOf spec then
    (join [dir parent, spec], false)
  else if [slash].isPrefixOf spec then (trimSlash spec, false)
  else (spec, true)

def resolveModule (ord : RangeSite → MapOrder) (fsys : Option FileTree) (fuel : ℕ)
    (specifier parent : Bytes) (cjs : Bool) : Option (Except ResolveError Resolution) :=
  match cutLead (str "node:") specifier with
  | some name =>
    if name ∈ coreModules then some (.ok { core := name })
    else some (.error (.unknownBuiltin specifier))
  | none =>
    if specifier ∈ coreModules then some (.ok { core := specifier })
    else
      match fsys with
      | none => some (.error (.noFS specifier))
      | some fsys =>
        let conds := if cjs then cjsConditions else esmConditions
        let parent := trimSlash (fileURLToFSPath parent)
        if (str "#").isPrefixOf specifier then
          resolveHashImport ord fsys fuel specifier parent conds
        else
          let (spec, bare) := specifierPath specifier parent
          -- files win, then the package's own name, then the node_modules walk-up
          (loadAsFileOrDir fsys fuel (clean spec)).bind fun r =>
            match r with
            | .ok r => some (.ok r)
            | .error _ =>
              if bare then
                (resolveSelfReference ord fsys fuel spec parent conds).bind fun r =>
                  match r with
                  | some r => some (.ok r)
                  | none => resolveBareSpecifier ord fsys fuel spec parent conds
              else some (.error (.cannotResolveFrom specifier parent))

end GoSpidermonkey.Nodejs
