import GoSpidermonkey.Nodejs.Exports

/-!
# The first resolvable leaf

`resolveConditions` walks a target from left to right, goes into the members whose keys are enabled
and into every item of an array, and gives up a branch only when nothing in it resolves. What it
finds is the first string of the text all of whose enclosing keys are enabled, as long as the
decoder accepts the value: one that is nested deeper than `Json.maxNestingDepth` is refused.
-/

namespace GoSpidermonkey.Nodejs

open Json (depth itemsDepth fieldsDepth maxNestingDepth)

/-! ### Leaves -/

mutual

def leaves : Json → List (List Bytes × Bytes)
  | .str s => [([], s)]
  | .arr items => itemLeaves items
  | .obj fields => memberLeaves fields
  | _ => []

def itemLeaves : List Json → List (List Bytes × Bytes)
  | [] => []
  | v :: rest => leaves v ++ itemLeaves rest

def memberLeaves : List (Bytes × Json) → List (List Bytes × Bytes)
  | [] => []
  | (key, v) :: rest => (leaves v).map (fun (keys, s) => (key :: keys, s)) ++ memberLeaves rest

end

/-- All keys around the leaf are enabled. -/
def Eligible (conds : Conditions) (leaf : List Bytes × Bytes) : Prop := ∀ key ∈ leaf.1, key ∈ conds

instance (conds : Conditions) (leaf : List Bytes × Bytes) : Decidable (Eligible conds leaf) :=
  inferInstanceAs (Decidable (∀ key ∈ leaf.1, key ∈ conds))

def firstEligible (conds : Conditions) (ls : List (List Bytes × Bytes)) : Option Bytes :=
  (ls.find? fun leaf => Eligible conds leaf).map Prod.snd

section

variable {conds : Conditions}

@[simp] lemma firstEligible_nil : firstEligible conds [] = none := rfl

@[simp] lemma firstEligible_append (ls ls' : List (List Bytes × Bytes)) :
    firstEligible conds (ls ++ ls') = (firstEligible conds ls).or (firstEligible conds ls') := by
  simp only [firstEligible, List.find?_append]
  cases ls.find? fun leaf => Eligible conds leaf <;> rfl

lemma firstEligible_enabled {key : Bytes} (hkey : key ∈ conds) (ls : List (List Bytes × Bytes)) :
    firstEligible conds (ls.map fun (keys, s) => (key :: keys, s)) = firstEligible conds ls := by
  induction ls with
  | nil => rfl
  | cons leaf ls ih =>
    have hiff : Eligible conds (key :: leaf.1, leaf.2) ↔ Eligible conds leaf := by
      simp [Eligible, hkey]
    simp only [firstEligible, List.map_cons, List.find?_cons, hiff] at ih ⊢
    by_cases h : Eligible conds leaf
    · simp [h]
    · simpa [h] using ih

lemma firstEligible_disabled {key : Bytes} (hkey : key ∉ conds) (ls : List (List Bytes × Bytes)) :
    firstEligible conds (ls.map fun (keys, s) => (key :: keys, s)) = none := by
  induction ls with
  | nil => rfl
  | cons leaf ls ih =>
    have hnot : ¬ Eligible conds (key :: leaf.1, leaf.2) := by simp [Eligible, hkey]
    simpa [firstEligible, hnot] using ih

end

/-! ### The walk -/

mutual

lemma resolveTarget_toOption (conds : Conditions) (v : Json) (h : depth v ≤ maxNestingDepth) :
    (resolveTarget conds v).toOption = firstEligible conds (leaves v) := by
  match v with
  | .str s => simp [resolveTarget, leaves, firstEligible, Eligible, Except.toOption]
  | .obj fields =>
    rw [resolveTarget, leaves]
    exact resolveMembers_toOption conds [] fields (by rw [depth] at h; omega)
  | .arr items =>
    rw [resolveTarget, leaves, if_neg (by omega)]
    exact resolveItems_toOption conds items (by rw [depth] at h; omega)
  | .null => simp [resolveTarget, leaves, Except.toOption]
  | .bool b => simp [resolveTarget, leaves, Except.toOption]
  | .num text => simp [resolveTarget, leaves, Except.toOption]

lemma resolveMembers_toOption (conds : Conditions) (have_ : List Bytes)
    (fields : List (Bytes × Json)) (h : fieldsDepth fields ≤ maxNestingDepth) :
    (resolveMembers conds have_ fields).toOption = firstEligible conds (memberLeaves fields) := by
  match fields with
  | [] => simp [resolveMembers, memberLeaves, Except.toOption]
  | (key, v) :: rest =>
    rw [fieldsDepth, max_le_iff] at h
    have hv := resolveTarget_toOption conds v h.1
    have hrest := resolveMembers_toOption conds (have_ ++ [key]) rest h.2
    rw [resolveMembers, memberLeaves, if_neg (by omega), firstEligible_append]
    by_cases hkey : key ∈ conds
    · rw [if_pos hkey, firstEligible_enabled hkey, ← hv, ← hrest]
      cases resolveTarget conds v <;> rfl
    · rw [if_neg hkey, hrest, firstEligible_disabled hkey, Option.none_or]

lemma resolveItems_toOption (conds : Conditions) (items : List Json)
    (h : itemsDepth items ≤ maxNestingDepth) :
    (resolveItems conds items).toOption = firstEligible conds (itemLeaves items) := by
  match items with
  | [] => simp [resolveItems, itemLeaves, Except.toOption]
  | v :: rest =>
    rw [itemsDepth, max_le_iff] at h
    rw [resolveItems, itemLeaves, firstEligible_append, ← resolveTarget_toOption conds v h.1,
      ← resolveItems_toOption conds rest h.2]
    cases resolveTarget conds v <;> rfl

end

/-- A value that is not nested too deep resolves to its first eligible leaf, and to nothing exactly
if it has none. -/
theorem resolveConditions_first_leaf (conds : Conditions) (v : Json)
    (h : depth v ≤ maxNestingDepth) :
    (∀ s, resolveConditions conds (some v) = .ok s ↔ firstEligible conds (leaves v) = some s) ∧
      ((∃ e, resolveConditions conds (some v) = .error e) ↔
        ∀ leaf ∈ leaves v, ¬ Eligible conds leaf) := by
  have hopt := resolveTarget_toOption conds v h
  have hnone : firstEligible conds (leaves v) = none ↔
      ∀ leaf ∈ leaves v, ¬ Eligible conds leaf := by
    simp [firstEligible]
  rw [resolveConditions, ← hnone, ← hopt]
  cases resolveTarget conds v with
  | ok s | error e => simp [Except.toOption]

def backtracking : Json :=
  .obj [(str "node", .str (str "./n.js")),
    (str "import", .obj [(str "types", .str (str "./t.d.ts"))]),
    (str "default", .arr [.null, .str (str "./d.js")])]

theorem backtracking_resolves :
    resolveConditions esmConditions (some backtracking) = .ok (str "./d.js") :=
  ((resolveConditions_first_leaf esmConditions backtracking (by decide +kernel)).1 _).mpr
    (by decide +kernel)

def nest : ℕ → Json
  | 0 => .str (str "./x.js")
  | n + 1 => .arr [nest n]

lemma depth_nest (n : ℕ) : depth (nest n) = n := by
  induction n with
  | zero => rfl
  | succ n ih => simp [nest, depth, itemsDepth, ih]

lemma leaves_nest (n : ℕ) : leaves (nest n) = [([], str "./x.js")] := by
  induction n with
  | zero => rfl
  | succ n ih => simp [nest, leaves, itemLeaves, ih]

/-- Nested once more than the decoder accepts, the string is not found. -/
theorem nest_too_deep :
    firstEligible esmConditions (leaves (nest (maxNestingDepth + 1))) = some (str "./x.js") ∧
      resolveConditions esmConditions (some (nest (maxNestingDepth + 1))) = .error .maxDepth := by
  constructor
  · rw [leaves_nest]
    decide
  · have hdepth : maxNestingDepth < depth (.arr [nest maxNestingDepth]) :=
      (depth_nest (maxNestingDepth + 1)).symm ▸ Nat.lt_succ_self _
    rw [resolveConditions, nest, resolveTarget, if_pos hdepth]

end GoSpidermonkey.Nodejs
