import GoSpidermonkey.Lib.Best
import GoSpidermonkey.Nodejs.Exports

/-!
# Subpath patterns

Which pattern of a subpath map stands for a key. Two patterns that match a key with literal parts of
the same lengths are the same pattern, so the loop over the map finds the one best pattern in
whatever order it visits the keys.

The order decides elsewhere: `isSubpathMap` looks at the first key only, and a map that has both
keys with a leading dot and others is a subpath map in some orders and a conditions object in
others.
-/

namespace GoSpidermonkey.Nodejs

open List

variable {key pat lead star tail : Bytes}

/-! ### Matching -/

/-- The pattern `lead*tail` matches the key, and captures the text `star`. -/
structure Captures (key pat lead star tail : Bytes) : Prop where
  pat_eq : pat = lead ++ ch '*' :: tail
  lead_plain : ch '*' ∉ lead
  tail_plain : ch '*' ∉ tail
  key_eq : key = lead ++ star ++ tail
  nonempty : star ≠ []

/-- The pattern matches the key. -/
def MatchesKey (key pat : Bytes) : Prop := ∃ lead star tail, Captures key pat lead star tail

def leadOf (pat : Bytes) : Bytes := pat.takeWhile (· != ch '*')

def tailOf (pat : Bytes) : Bytes := (pat.dropWhile (· != ch '*')).drop 1

def captured (key pat : Bytes) : Bytes :=
  (key.drop (leadOf pat).length).take (key.length - (tailOf pat).length - (leadOf pat).length)

def matchesKey (key pat : Bytes) : Bool :=
  ch '*' ∈ pat ∧ ch '*' ∉ tailOf pat ∧ (leadOf pat).isPrefixOf key ∧ (tailOf pat).isSuffixOf key ∧
    (leadOf pat).length + (tailOf pat).length < key.length

lemma Captures.leadOf (h : Captures key pat lead star tail) : leadOf pat = lead := by
  have hplain : ∀ c ∈ lead, (c != ch '*') = true := by
    intro c hc
    simp only [bne_iff_ne]
    rintro rfl
    exact h.lead_plain hc
  rw [Nodejs.leadOf, h.pat_eq, takeWhile_append_of_pos hplain]
  simp

lemma Captures.tailOf (h : Captures key pat lead star tail) : tailOf pat = tail := by
  have hplain : ∀ c ∈ lead, (c != ch '*') = true := by
    intro c hc
    simp only [bne_iff_ne]
    rintro rfl
    exact h.lead_plain hc
  rw [Nodejs.tailOf, h.pat_eq, dropWhile_append_of_pos hplain]
  simp

lemma Captures.captured (h : Captures key pat lead star tail) : captured key pat = star := by
  have hlen : key.length - tail.length - lead.length = star.length := by
    rw [h.key_eq]
    simp only [length_append]
    omega
  rw [Nodejs.captured, h.leadOf, h.tailOf, hlen, h.key_eq, append_assoc, drop_left,
    take_left]

lemma matchesKey_iff : matchesKey key pat ↔ MatchesKey key pat := by
  constructor
  · intro h
    simp only [matchesKey, decide_eq_true_eq, isPrefixOf_iff_prefix,
      isSuffixOf_iff_suffix] at h
    obtain ⟨hstar, htail, ⟨r, hr⟩, ⟨l, hl⟩, hlen⟩ := h
    -- the part between the literal ones
    obtain ⟨star, hkey⟩ : ∃ star, key = leadOf pat ++ star ++ tailOf pat := by
      have hr' : tailOf pat <:+ r := by
        refine suffix_of_suffix_length_le ⟨l, hl⟩ ⟨leadOf pat, hr⟩ ?_
        have := congrArg List.length hr
        simp only [length_append] at this
        omega
      obtain ⟨star, rfl⟩ := hr'
      exact ⟨star, by rw [← hr, append_assoc]⟩
    refine ⟨leadOf pat, star, tailOf pat, ?_, ?_, htail, hkey, ?_⟩
    · have hdrop : pat.dropWhile (· != ch '*') = ch '*' :: tailOf pat := by
        cases hd : pat.dropWhile (· != ch '*') with
        | nil =>
          rw [dropWhile_eq_nil_iff] at hd
          simpa using hd _ hstar
        | cons c rest =>
          have hc := head?_dropWhile_not (· != ch '*') pat
          rw [hd] at hc
          simp only [head?_cons, bne_eq_false_iff_eq] at hc
          simp [tailOf, hd, hc]
      rw [← hdrop, leadOf, takeWhile_append_dropWhile]
    · intro hmem
      simpa using mem_takeWhile_imp hmem
    · rintro rfl
      rw [hkey] at hlen
      simp only [length_append, length_nil] at hlen
      omega
  · rintro ⟨lead, star, tail, h⟩
    have hpos := length_pos_iff.mpr h.nonempty
    simp only [matchesKey, h.leadOf, h.tailOf, decide_eq_true_eq, isPrefixOf_iff_prefix,
      isSuffixOf_iff_suffix]
    refine ⟨by simp [h.pat_eq], h.tail_plain, ⟨star ++ tail, ?_⟩, ⟨lead ++ star, ?_⟩, ?_⟩
    · rw [h.key_eq, append_assoc]
    · rw [h.key_eq]
    · rw [h.key_eq]
      simp only [length_append]
      omega

/-! ### The best pattern -/

def specificity (key pat : Bytes) : Option (ℕ ×ₗ ℕ) :=
  if matchesKey key pat then some (toLex ((leadOf pat).length, (tailOf pat).length)) else none

lemma specificity_injective (a b : Bytes) (s : ℕ ×ₗ ℕ) (ha : specificity key a = some s)
    (hb : specificity key b = some s) : a = b := by
  unfold specificity at ha hb
  split_ifs at ha hb with hma hmb
  obtain ⟨la, sa, ta, hca⟩ := matchesKey_iff.mp hma
  obtain ⟨lb, sb, tb, hcb⟩ := matchesKey_iff.mp hmb
  have hs := (Option.some.inj ha).trans (Option.some.inj hb).symm
  rw [hca.leadOf, hca.tailOf, hcb.leadOf, hcb.tailOf, toLex_inj, Prod.mk.injEq] at hs
  have hkey : la ++ (sa ++ ta) = lb ++ (sb ++ tb) := by
    rw [← append_assoc, ← hca.key_eq, hcb.key_eq, append_assoc]
  obtain ⟨hlead, hrest⟩ := append_inj hkey hs.1
  obtain ⟨-, htail⟩ := append_inj' hrest hs.2
  rw [hca.pat_eq, hcb.pat_eq, hlead, htail]

def bestState (key : Bytes) : Option Bytes → BestPattern
  | none => ⟨[], [], -1, -1⟩
  | some pat => ⟨pat, captured key pat, (leadOf pat).length, (tailOf pat).length⟩

lemma considerPattern_eq {best : Option Bytes} (hbest : ∀ b ∈ best, matchesKey key b)
    (pat : Bytes) :
    considerPattern key (bestState key best) pat =
      bestState key (Best.consider (specificity key) best pat) := by
  by_cases hm : matchesKey key pat
  · have hm' := hm
    simp only [matchesKey, decide_eq_true_eq] at hm'
    obtain ⟨hstar, htail, hlead, hsuffix, hlen⟩ := hm'
    have hscore : specificity key pat
        = some (toLex ((leadOf pat).length, (tailOf pat).length)) := if_pos hm
    have hguard : ¬ (¬ (leadOf pat).isPrefixOf key ∨ ¬ (tailOf pat).isSuffixOf key ∨
        key.length ≤ (leadOf pat).length + (tailOf pat).length) := by
      simp only [hlead, hsuffix, not_true_eq_false, false_or, not_le]
      exact hlen
    have hturn : considerPattern key (bestState key best) pat =
        if (bestState key best).leadLen < (leadOf pat).length ∨
          (((leadOf pat).length : ℤ) = (bestState key best).leadLen ∧
            (bestState key best).tailLen < (tailOf pat).length)
        then bestState key (some pat) else bestState key best := by
      rw [considerPattern, if_neg (not_not.mpr hstar)]
      exact (if_neg htail).trans (if_neg hguard)
    rw [hturn, Best.consider, hscore]
    cases best with
    | none =>
      have hpos : ((-1 : ℤ) < (leadOf pat).length) := by omega
      simp [bestState, hpos]
    | some b =>
      have hb : specificity key b = some (toLex ((leadOf b).length, (tailOf b).length)) :=
        if_pos (hbest b rfl)
      simp only [Option.mem_def, Option.some.injEq, forall_eq', hb, Prod.Lex.toLex_lt_toLex,
        bestState, Nat.cast_lt, Nat.cast_inj]
      by_cases hlt : (leadOf b).length < (leadOf pat).length ∨
          (leadOf b).length = (leadOf pat).length ∧ (tailOf b).length < (tailOf pat).length
      · rw [if_pos hlt, if_pos (hlt.imp_right fun h => ⟨h.1.symm, h.2⟩)]
      · rw [if_neg hlt, if_neg fun h => hlt (h.imp_right fun h => ⟨h.1.symm, h.2⟩)]
  · have hscore : specificity key pat = none := if_neg hm
    rw [Best.consider, hscore, considerPattern]
    by_cases hstar : ch '*' ∉ pat
    · rw [if_pos hstar]
    · rw [if_neg hstar]
      by_cases htail : ch '*' ∈ tailOf pat
      · exact if_pos htail
      · refine (if_neg htail).trans (if_pos ?_)
        by_contra hall
        push Not at hall
        refine hm ?_
        simp only [matchesKey, decide_eq_true_eq]
        exact ⟨not_not.mp hstar, htail, hall.1, hall.2.1, hall.2.2⟩

lemma foldl_considerPattern (pats : List Bytes) {best : Option Bytes}
    (hbest : ∀ b ∈ best, matchesKey key b) :
    pats.foldl (considerPattern key) (bestState key best) =
      bestState key (pats.foldl (Best.consider (specificity key)) best) := by
  induction pats generalizing best with
  | nil => rfl
  | cons pat pats ih =>
    rw [foldl_cons, foldl_cons, considerPattern_eq hbest]
    refine ih fun b hb => ?_
    -- only patterns that match are remembered
    unfold Best.consider at hb
    split at hb
    · exact hbest b hb
    next s hs =>
      split_ifs at hb
      · obtain rfl : pat = b := by simpa using hb
        unfold specificity at hs
        split_ifs at hs with hm
        exact hm
      · exact hbest b hb

/-- Every other pattern that matches has a shorter literal part before the star, or an equally long
one and a shorter part after it. -/
def MostSpecific (m : RawMap) (key pat : Bytes) : Prop :=
  pat ∈ m ∧ ∃ lead star tail, Captures key pat lead star tail ∧
    ∀ pat' ∈ m, pat' ≠ pat → ∀ lead' star' tail', Captures key pat' lead' star' tail' →
      lead'.length < lead.length ∨ lead'.length = lead.length ∧ tail'.length < tail.length

lemma mostSpecific_iff {m : RawMap} :
    MostSpecific m key pat ↔ Best.IsBest (specificity key) (· ∈ m) pat := by
  have hscore : ∀ {p l s t}, Captures key p l s t →
      specificity key p = some (toLex (l.length, t.length)) := by
    intro p l s t h
    rw [specificity, if_pos (matchesKey_iff.mpr ⟨l, s, t, h⟩), h.leadOf, h.tailOf]
  have hcaptures : ∀ {p s}, specificity key p = some s →
      ∃ l x t, Captures key p l x t ∧ s = toLex (l.length, t.length) := by
    intro p s h
    have h' := h
    unfold specificity at h'
    split_ifs at h' with hm
    obtain ⟨l, x, t, hc⟩ := matchesKey_iff.mp hm
    exact ⟨l, x, t, hc, Option.some.inj (h.symm.trans (hscore hc))⟩
  constructor
  · rintro ⟨hmem, lead, star, tail, hc, hmax⟩
    refine ⟨hmem, _, hscore hc, fun b hb hne t ht => ?_⟩
    obtain ⟨l, x, u, hcb, rfl⟩ := hcaptures ht
    exact Prod.Lex.toLex_lt_toLex.mpr (hmax b hb hne l x u hcb)
  · rintro ⟨hmem, s, hs, hmax⟩
    obtain ⟨l, x, t, hc, rfl⟩ := hcaptures hs
    refine ⟨hmem, l, x, t, hc, fun b hb hne l' x' t' hc' => ?_⟩
    exact Prod.Lex.toLex_lt_toLex.mp (hmax b hb hne _ (hscore hc'))

def substitute (m : RawMap) (key pat star : Bytes) (conds : Conditions) :
    Except ExportsError Bytes :=
  if (star.splitOn (ch '/')).any traversalSeg then .error (.invalidSubpath key)
  else
    match resolveConditions conds (m.lookup pat) with
    | .error e => .error e
    | .ok target => .ok (replaceStar star target)

/-- A key that is not in the map is resolved through its most specific pattern, if there is one. -/
lemma resolveSubpathMap_spec (ord : MapOrder) (m : RawMap) (key : Bytes) (conds : Conditions)
    (hkey : m.lookup key = none) :
    (∃ pat, MostSpecific m key pat ∧
        resolveSubpathMap ord m key conds = substitute m key pat (captured key pat) conds) ∨
      (∀ pat ∈ m, ¬ MatchesKey key pat) ∧ resolveSubpathMap ord m key conds =
        .error (.noEntry key) := by
  have hloop : Best.BestOf (specificity key) (· ∈ ord.range m)
      ((ord.range m).foldl (Best.consider (specificity key)) none) := Best.bestOf_loop (ord.range m)
  have hnone : ∀ b ∈ (none : Option Bytes), matchesKey key b := by simp
  have hfold : (ord.range m).foldl (considerPattern key) ⟨[], [], -1, -1⟩ =
      bestState key ((ord.range m).foldl (Best.consider (specificity key)) none) :=
    foldl_considerPattern (ord.range m) hnone
  cases hbest : (ord.range m).foldl (Best.consider (specificity key)) none with
  | none =>
    rw [hbest] at hloop hfold
    refine .inr ⟨fun pat hpat hm => ?_, ?_⟩
    · have hnone := hloop pat ((ord.mem_range m pat).mpr hpat)
      simp [specificity, matchesKey_iff.mpr hm] at hnone
    · simp only [resolveSubpathMap, hkey, hfold, bestState, if_true]
  | some pat =>
    rw [hbest] at hloop hfold
    have hmost : MostSpecific m key pat := by
      have hbest' := hloop.isBest specificity_injective
      simp only [ord.mem_range] at hbest'
      exact mostSpecific_iff.mpr hbest'
    obtain ⟨-, lead, star, tail, hc, -⟩ := id hmost
    have hne : pat ≠ [] := by simp [hc.pat_eq]
    refine .inl ⟨pat, hmost, ?_⟩
    simp only [resolveSubpathMap, hkey]
    rw [hfold]
    exact if_neg hne

lemma resolveSubpathMap_congr (ord ord' : MapOrder) (m : RawMap) (key : Bytes)
    (conds : Conditions) :
    resolveSubpathMap ord m key conds = resolveSubpathMap ord' m key conds := by
  cases hkey : m.lookup key with
  | some v => simp only [resolveSubpathMap, hkey]
  | none =>
    rcases resolveSubpathMap_spec ord m key conds hkey with ⟨pat, hmost, heq⟩ | ⟨hno, heq⟩
    · rcases resolveSubpathMap_spec ord' m key conds hkey with ⟨pat', hmost', heq'⟩ | ⟨hno', -⟩
      · obtain rfl := (mostSpecific_iff.mp hmost).unique (mostSpecific_iff.mp hmost')
        rw [heq, heq']
      · obtain ⟨hmem, lead, star, tail, hc, -⟩ := hmost
        exact absurd ⟨lead, star, tail, hc⟩ (hno' pat hmem)
    · rcases resolveSubpathMap_spec ord' m key conds hkey with ⟨pat', hmost', -⟩ | ⟨-, heq'⟩
      · obtain ⟨hmem, lead, star, tail, hc, -⟩ := hmost'
        exact absurd ⟨lead, star, tail, hc⟩ (hno pat' hmem)
      · rw [heq, heq']

/-! ### Subpath maps and conditions objects -/

/-- The key is that of a subpath. -/
def IsSubpath (k : Bytes) : Prop := (str ".").isPrefixOf k

instance (k : Bytes) : Decidable (IsSubpath k) := inferInstanceAs (Decidable (_ = true))

/-- The keys are all those of subpaths, or none is. -/
def Unmixed (m : RawMap) : Prop := (∀ k ∈ m, IsSubpath k) ∨ ∀ k ∈ m, ¬ IsSubpath k

/-- Any key can be the first one that a `range` visits. -/
lemma exists_order_first {m : RawMap} {k : Bytes} (hk : k ∈ m) :
    ∃ (ord : MapOrder) (rest : List Bytes), ord.range m = k :: rest := by
  let range (m' : RawMap) : List Bytes :=
    if k ∈ m' then k :: (MapOrder.sorted.range m').erase k else MapOrder.sorted.range m'
  refine ⟨⟨range, fun m' => ?_, fun m' j => ?_⟩, _, if_pos hk⟩
  · by_cases hk' : k ∈ m'
    · simp only [range, if_pos hk', nodup_cons]
      exact ⟨(MapOrder.sorted.nodup m').not_mem_erase, (MapOrder.sorted.nodup m').erase k⟩
    · simp only [range, if_neg hk']
      exact MapOrder.sorted.nodup m'
  · by_cases hk' : k ∈ m'
    · simp only [range, if_pos hk', mem_cons, (MapOrder.sorted.nodup m').mem_erase_iff,
        MapOrder.sorted.mem_range]
      constructor
      · rintro (rfl | ⟨-, hj⟩)
        · exact hk'
        · exact hj
      · intro hj
        by_cases hjk : j = k
        · exact .inl hjk
        · exact .inr ⟨hjk, hj⟩
    · simp only [range, if_neg hk', MapOrder.sorted.mem_range]

lemma isSubpathMap_iff (ord : MapOrder) (m : RawMap) :
    isSubpathMap ord m ↔ ∃ k rest, ord.range m = k :: rest ∧ IsSubpath k := by
  unfold isSubpathMap
  cases ord.range m with
  | nil => simp
  | cons k rest => simp [IsSubpath]

lemma Unmixed.isSubpathMap_iff {m : RawMap} (h : Unmixed m) (ord : MapOrder) :
    isSubpathMap ord m ↔ ∃ k ∈ m, IsSubpath k := by
  rw [Nodejs.isSubpathMap_iff]
  constructor
  · rintro ⟨k, rest, hrange, hk⟩
    exact ⟨k, (ord.mem_range m k).mp (by simp [hrange]), hk⟩
  · rintro ⟨k, hk, hsub⟩
    have hall : ∀ k ∈ m, IsSubpath k := h.resolve_right fun hnone => hnone k hk hsub
    cases hrange : ord.range m with
    | nil =>
      have := (ord.mem_range m k).mpr hk
      simp [hrange] at this
    | cons j rest => exact ⟨j, rest, rfl, hall j ((ord.mem_range m j).mp (by simp [hrange]))⟩

lemma resolveMembers_nil (fields : List (Bytes × Json)) (have_ : List Bytes) :
    ∃ e, resolveMembers [] have_ fields = .error e ∧ ∀ key, e ≠ .noExportsEntry key := by
  induction fields generalizing have_ with
  | nil => exact ⟨_, by rw [resolveMembers], by simp⟩
  | cons field fields ih =>
    obtain ⟨key, v⟩ := field
    rw [resolveMembers]
    by_cases hdeep : Json.maxNestingDepth < v.depth
    · exact ⟨.maxDepth, if_pos hdeep, by simp⟩
    · rw [if_neg hdeep, if_neg not_mem_nil]
      exact ih (have_ ++ [key])

/-- `resolveExports` gives the same result for every order of the maps. -/
def Deterministic (exports : Option Json) : Prop :=
  ∀ subpath conds ordKind ord ordKind' ord',
    resolveExports ordKind ord exports subpath conds =
      resolveExports ordKind' ord' exports subpath conds

lemma deterministic_iff (exports : Option Json) :
    Deterministic exports ↔ ∀ m, rawObject exports = some m → Unmixed m := by
  constructor
  · intro hdet m hm
    by_contra hmixed
    simp only [Unmixed, not_or, not_forall, not_not] at hmixed
    obtain ⟨⟨k, hk, hplain⟩, j, hj, hsub⟩ := hmixed
    obtain ⟨ordPlain, rest, hfirst⟩ := exists_order_first hk
    obtain ⟨ordSub, rest', hfirst'⟩ := exists_order_first hj
    have hkind : isSubpathMap ordPlain m = false := by
      rw [isSubpathMap, hfirst]
      exact Bool.eq_false_iff.mpr hplain
    have hkind' : isSubpathMap ordSub m = true := by
      rw [isSubpathMap, hfirst']
      exact hsub
    obtain ⟨fields, rfl⟩ : ∃ fields, exports = some (.obj fields) := by
      unfold rawObject at hm
      split at hm
      · exact ⟨_, rfl⟩
      · cases hm
    -- with no condition enabled, the object is no target, and the two kinds of error differ
    have hresult := hdet [] [] ordPlain ordPlain ordSub ordPlain
    obtain ⟨e, he, hne⟩ := resolveMembers_nil fields []
    simp only [resolveExports, hm, Option.filter, hkind, hkind', resolveConditions, resolveTarget,
      he] at hresult
    simp only [ne_eq, not_true_eq_false, if_false, if_true, Bool.false_eq_true] at hresult
    split at hresult
    · exact hne _ (Except.error.inj hresult)
    · cases hresult
  · intro hall subpath conds ordKind ord ordKind' ord'
    have hkind : (rawObject exports).filter (isSubpathMap ordKind)
        = (rawObject exports).filter (isSubpathMap ordKind') := by
      cases hm : rawObject exports with
      | none => rfl
      | some m =>
        have heq : isSubpathMap ordKind m = isSubpathMap ordKind' m := by
          rw [Bool.eq_iff_iff, (hall m hm).isSubpathMap_iff, (hall m hm).isSubpathMap_iff]
        simp only [Option.filter, heq]
    unfold resolveExports
    rw [hkind]
    cases (rawObject exports).filter (isSubpathMap ordKind') with
    | none => rfl
    | some m => simp only [resolveSubpathMap_congr ord ord']

/-- Resolution depends on the order of a map exactly if subpaths and conditions are mixed; a key
that is not in the map is resolved through its one most specific pattern. -/
theorem exports_deterministic_most_specific (exports : Option Json) (ord : MapOrder)
    (m : RawMap) (key : Bytes) (conds : Conditions) :
    (Deterministic exports ↔ ∀ m, rawObject exports = some m → Unmixed m) ∧
      (m.lookup key = none →
        (∃ pat lead star tail, MostSpecific m key pat ∧
          (∀ pat', MostSpecific m key pat' → pat' = pat) ∧ Captures key pat lead star tail ∧
          resolveSubpathMap ord m key conds = substitute m key pat star conds) ∨
        (∀ pat ∈ m, ¬ MatchesKey key pat) ∧
          resolveSubpathMap ord m key conds = .error (.noEntry key)) := by
  refine ⟨deterministic_iff exports, fun hkey => ?_⟩
  rcases resolveSubpathMap_spec ord m key conds hkey with ⟨pat, hmost, heq⟩ | hno
  · obtain ⟨-, lead, star, tail, hc, -⟩ := id hmost
    refine .inl ⟨pat, lead, star, tail, hmost, fun pat' hmost' => ?_, hc, by rw [heq, hc.captured]⟩
    exact (mostSpecific_iff.mp hmost').unique (mostSpecific_iff.mp hmost)
  · exact .inr hno

def overlapping : Json :=
  .obj [(str "./*", .str (str "./all/*")), (str "./lib/*", .str (str "./lib/*.js")),
    (str "./lib/*.js", .str (str "./lib/*.mjs"))]

theorem overlapping_deterministic : Deterministic (some overlapping) := by
  refine (exports_deterministic_most_specific (some overlapping) .sorted ∅ [] []).1.mpr
    fun m hm => .inl ?_
  cases hm
  decide +kernel

def mixed : List (Bytes × Json) :=
  [(str ".", .str (str "./a.js")), (str "import", .str (str "./b.js"))]

/-- The order of the keys decides which file the package is. -/
theorem mixed_depends_on_order : ∃ ord ord',
    resolveExports ord ord (some (.obj mixed)) [] esmConditions = .ok (str "./a.js") ∧
      resolveExports ord' ord (some (.obj mixed)) [] esmConditions = .ok (str "./b.js") := by
  have hm : rawObject (some (.obj mixed)) = some (Json.rawMap mixed ∅) := rfl
  obtain ⟨ord, rest, hord⟩ := exists_order_first (m := Json.rawMap mixed ∅) (k := str ".")
    (by decide +kernel)
  obtain ⟨ord', rest', hord'⟩ := exists_order_first (m := Json.rawMap mixed ∅) (k := str "import")
    (by decide +kernel)
  refine ⟨ord, ord', ?_, ?_⟩
  · simp only [resolveExports, hm, Option.filter, isSubpathMap, hord]
    rfl
  · simp only [resolveExports, hm, Option.filter, isSubpathMap, hord']
    rfl

end GoSpidermonkey.Nodejs
