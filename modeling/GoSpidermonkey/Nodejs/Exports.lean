import GoSpidermonkey.Go.Json

/-!
# Package exports and imports

How `resolve.go` reads a package.json `exports` or `imports` value. A target is a string, a
conditions object whose members are tried in the order of the text, or a fallback array
(`resolveConditions`); a subpath map has an entry for each subpath, where one `*` in a key stands
for any nonempty text (`resolveSubpathMap`).

Subpath maps are Go maps, so the order of a `range` over one is not determined. `MapOrder` is a
choice of orders; the functions that range over a map take one.
-/

namespace GoSpidermonkey.Nodejs

/-- A Go `map[string]json.RawMessage`. -/
abbrev RawMap := Finmap fun _ : Bytes => Json

/-- The order in which a `range` statement visits the keys of each map. -/
structure MapOrder where
  range : RawMap → List Bytes
  nodup : ∀ m, (range m).Nodup
  mem_range : ∀ m k, k ∈ range m ↔ k ∈ m

def MapOrder.sorted : MapOrder where
  range m := m.keys.sort (· ≤ ·)
  nodup _ := Finset.sort_nodup _ _
  mem_range m k := by simp [Finmap.mem_keys]

abbrev Conditions := List Bytes

def esmConditions : Conditions :=
  [str "worker", str "workerd", str "browser", str "deno", str "bun", str "import", str "module",
    str "default"]

def cjsConditions : Conditions := [str "require", str "node", str "default"]

inductive ExportsError where
  | emptyTarget
  | maxDepth
  | noMatchingCondition (have_ : List Bytes)
  | noFallback
  | unsupportedTarget (text : Bytes)
  | noEntry (key : Bytes)
  | invalidSubpath (key : Bytes)
  | noExportsEntry (key : Bytes)
  deriving DecidableEq

/-! ### Conditions -/

def literalText : Json → Bytes
  | .null => str "null"
  | .bool true => str "true"
  | .bool false => str "false"
  | .num text => text
  | _ => []

mutual

/-- `resolveConditions` on a value. -/
def resolveTarget (conds : Conditions) : Json → Except ExportsError Bytes
  | .str s => .ok s
  | .obj fields => resolveMembers conds [] fields
  | .arr items =>
    if Json.maxNestingDepth < Json.depth (.arr items) then .error .maxDepth
    else resolveItems conds items
  | v => .error (.unsupportedTarget (literalText v))

/-- The walk over a conditions object; `have_` has the keys seen so far. -/
def resolveMembers (conds : Conditions) (have_ : List Bytes) :
    List (Bytes × Json) → Except ExportsError Bytes
  | [] => .error (.noMatchingCondition have_)
  | (key, val) :: rest =>
    if Json.maxNestingDepth < val.depth then .error .maxDepth
    else if key ∈ conds then
      match resolveTarget conds val with
      | .ok s => .ok s
      | .error _ => resolveMembers conds (have_ ++ [key]) rest
    else resolveMembers conds (have_ ++ [key]) rest

def resolveItems (conds : Conditions) : List Json → Except ExportsError Bytes
  | [] => .error .noFallback
  | item :: rest =>
    match resolveTarget conds item with
    | .ok s => .ok s
    | .error _ => resolveItems conds rest

end

/-- `resolveConditions` on a raw message. -/
def resolveConditions (conds : Conditions) : Option Json → Except ExportsError Bytes
  | none => .error .emptyTarget
  | some v => resolveTarget conds v

/-! ### Subpath maps -/

/-- The best matching pattern so far; the lengths start at `-1`. -/
structure BestPattern where
  pat : Bytes
  star : Bytes
  leadLen : ℤ
  tailLen : ℤ

def considerPattern (key : Bytes) (best : BestPattern) (pat : Bytes) : BestPattern :=
  if ch '*' ∉ pat then best
  else
    let lead := pat.takeWhile (· != ch '*')
    let tail := (pat.dropWhile (· != ch '*')).drop 1
    if ch '*' ∈ tail then best
    else if ¬ lead.isPrefixOf key ∨ ¬ tail.isSuffixOf key ∨ key.length ≤ lead.length + tail.length
    then best
    else
      let pl : ℤ := lead.length
      let sl : ℤ := tail.length
      if best.leadLen < pl ∨ (pl = best.leadLen ∧ best.tailLen < sl) then
        { pat, star := (key.drop lead.length).take (key.length - tail.length - lead.length)
          leadLen := pl, tailLen := sl }
      else best

/-- `strings.ReplaceAll(target, "*", star)`. -/
def replaceStar (star target : Bytes) : Bytes :=
  target.flatMap fun c => if c = ch '*' then star else [c]

def traversalSeg (seg : Bytes) : Bool :=
  seg == str "." || seg == str ".." || seg.contains (ch '\\')

def resolveSubpathMap (ord : MapOrder) (m : RawMap) (key : Bytes) (conds : Conditions) :
    Except ExportsError Bytes :=
  match m.lookup key with
  | some v => resolveConditions conds (some v)
  | none =>
    let best := (ord.range m).foldl (considerPattern key) ⟨[], [], -1, -1⟩
    if best.pat = [] then .error (.noEntry key)
    else if (best.star.splitOn (ch '/')).any traversalSeg then .error (.invalidSubpath key)
    else
      match resolveConditions conds (m.lookup best.pat) with
      | .error e => .error e
      | .ok target => .ok (replaceStar best.star target)

/-- The first key that `range` happens to visit decides. -/
def isSubpathMap (ord : MapOrder) (m : RawMap) : Bool :=
  match ord.range m with
  | [] => false
  | k :: _ => (str ".").isPrefixOf k

/-- `rawObject`: the map of an object that the decoder accepts. -/
def rawObject : Option Json → Option RawMap
  | some (.obj fields) =>
    if Json.maxNestingDepth < Json.depth (.obj fields) then none else some (Json.rawMap fields ∅)
  | _ => none

def hasJSONValue : Option Json → Bool
  | none => false
  | some .null => false
  | some _ => true

/-- `resolveExports`; `ordKind` is the order of `isSubpathMap`, `ord` that of the patterns. -/
def resolveExports (ordKind ord : MapOrder) (exports : Option Json) (subpath : Bytes)
    (conds : Conditions) : Except ExportsError Bytes :=
  let key := if subpath ≠ [] then str "./" ++ subpath else str "."
  match (rawObject exports).filter (isSubpathMap ordKind) with
  | some m =>
    match resolveSubpathMap ord m key conds with
    | .error _ => .error (.noExportsEntry key)
    | .ok t => .ok t
  | none =>
    if key ≠ str "." then .error (.noExportsEntry key) else resolveConditions conds exports

end GoSpidermonkey.Nodejs
