import GoSpidermonkey.Go.Path

/-!
# Walking along a path

`path.Clean` walks along the elements of a path with a stack of the directories it is in. `walk`
continues such a walk from any stack, so that joining a path to a directory is walking on from the
directory. `Inside d q` says of a cleaned path that it leads into the directory `d`: its elements
are those of `d` and then others, none of which goes up.
-/

namespace GoSpidermonkey.Path

open List

def rooted (p : Bytes) : Bool := p.head? == some slash

def walk (r : Bool) (stack : List Bytes) (p : Bytes) : List Bytes :=
  (p.splitOn slash).foldl (pushElem r) stack

def stackOf (p : Bytes) : List Bytes := walk (rooted p) [] p

lemma clean_eq (p : Bytes) : clean p =
    if rooted p then slash :: [slash].intercalate (stackOf p).reverse
    else if (stackOf p).reverse = [] then root
    else [slash].intercalate (stackOf p).reverse := rfl

lemma walk_append_slash (r : Bool) (stack : List Bytes) (a b : Bytes) :
    walk r stack (a ++ slash :: b) = walk r (walk r stack a) b := by
  rw [walk, splitOn_append_cons_self, foldl_append]
  rfl

@[simp] lemma walk_nil (r : Bool) (stack : List Bytes) : walk r stack [] = stack := by
  simp [walk, pushElem]

variable {d e : Bytes} {stack : List Bytes}

lemma walk_elem (r : Bool) (stack : List Bytes) (he : slash ∉ e) :
    walk r stack e = pushElem r stack e := by
  simp [walk, splitOn_eq_singleton he]

/-! ### The elements of a cleaned path -/

/-- An element that a walk can keep. -/
structure Kept (e : Bytes) : Prop where
  nonempty : e ≠ []
  notDot : e ≠ [dot]
  noSlash : slash ∉ e

lemma kept_pushElem {r : Bool} (hstack : ∀ x ∈ stack, Kept x)
    (he : slash ∉ e) : ∀ x ∈ pushElem r stack e, Kept x := by
  unfold pushElem
  by_cases hskip : e = [] ∨ e = [dot]
  · rw [if_pos hskip]
    exact hstack
  rw [if_neg hskip]
  obtain ⟨hnil, hdot⟩ := not_or.mp hskip
  have hpush : ∀ x ∈ e :: stack, Kept x := by
    intro x hx
    rcases mem_cons.mp hx with rfl | hx
    · exact ⟨hnil, hdot, he⟩
    · exact hstack x hx
  by_cases hup : e = [dot, dot]
  · rw [if_pos hup]
    cases stack with
    | nil =>
      cases r with
      | true => simp
      | false => simpa using hpush
    | cons top rest =>
      by_cases htop : top = [dot, dot]
      · simp only [if_pos htop]
        exact hpush
      · simp only [if_neg htop]
        exact fun x hx => hstack x (mem_cons_of_mem _ hx)
  · rw [if_neg hup]
    exact hpush

lemma kept_walk {r : Bool} (hstack : ∀ x ∈ stack, Kept x) (p : Bytes) :
    ∀ x ∈ walk r stack p, Kept x := by
  have hfold : ∀ (es : List Bytes) (stack : List Bytes), (∀ e ∈ es, slash ∉ e) →
      (∀ x ∈ stack, Kept x) → ∀ x ∈ es.foldl (pushElem r) stack, Kept x := by
    intro es
    induction es with
    | nil => exact fun stack _ h => h
    | cons e es ih =>
      intro stack hes h
      exact ih _ (fun x hx => hes x (mem_cons_of_mem _ hx))
        (kept_pushElem h (hes e mem_cons_self))
  exact hfold _ stack (slash_not_mem_elem p) hstack

lemma proper_pushElem (hstack : ∀ x ∈ stack, properElem x) :
    ∀ x ∈ pushElem true stack e, properElem x := by
  unfold pushElem
  by_cases hskip : e = [] ∨ e = [dot]
  · rw [if_pos hskip]
    exact hstack
  rw [if_neg hskip]
  obtain ⟨hnil, hdot⟩ := not_or.mp hskip
  by_cases hup : e = [dot, dot]
  · rw [if_pos hup]
    cases stack with
    | nil => simp
    | cons top rest =>
      have htop : top ≠ [dot, dot] := by
        rintro rfl
        exact absurd (hstack _ mem_cons_self) (by decide)
      simp only [if_neg htop]
      exact fun x hx => hstack x (mem_cons_of_mem _ hx)
  · rw [if_neg hup]
    intro x hx
    rcases mem_cons.mp hx with rfl | hx
    · simp [properElem, hnil, hdot, hup]
    · exact hstack x hx

lemma proper_walk (hstack : ∀ x ∈ stack, properElem x) (p : Bytes) :
    ∀ x ∈ walk true stack p, properElem x := by
  unfold walk
  induction p.splitOn slash generalizing stack with
  | nil => exact hstack
  | cons e es ih => exact ih (proper_pushElem hstack)

def pathElems (q : Bytes) : List Bytes :=
  if q = root then [] else (q.splitOn slash).filter (· ≠ [])

lemma splitOn_kept {es : List Bytes} (hes : ∀ e ∈ es, Kept e) (hne : es ≠ []) :
    ([slash].intercalate es).splitOn slash = es :=
  splitOn_intercalate slash (fun e he => (hes e he).noSlash) hne

lemma pathElems_clean (p : Bytes) : pathElems (clean p) = (stackOf p).reverse := by
  have hkept : ∀ e ∈ (stackOf p).reverse, Kept e := fun e he =>
    kept_walk (by simp) p e (mem_reverse.mp he)
  generalize hes : (stackOf p).reverse = es at hkept
  have hfilter : es.filter (· ≠ []) = es :=
    filter_eq_self.mpr fun e he => by simpa using (hkept e he).nonempty
  rw [clean_eq, hes]
  by_cases hr : rooted p
  · have hsplit : (slash :: [slash].intercalate es).splitOn slash
        = [] :: ([slash].intercalate es).splitOn slash :=
      splitOn_append_cons_self (a := slash) [] _
    have hroot : slash :: [slash].intercalate es ≠ root := fun h => by
      have := congrArg List.head? h
      simp [slash, dot] at this
    rw [if_pos hr, pathElems, if_neg hroot, hsplit]
    by_cases hnil : es = []
    · subst hnil
      simp [intercalate_nil]
    · rw [splitOn_kept hkept hnil]
      simpa using hfilter
  · rw [if_neg hr]
    by_cases hnil : es = []
    · simp [hnil, pathElems]
    · have hroot : [slash].intercalate es ≠ root := by
        intro hroot
        have hsplit := splitOn_kept hkept hnil
        rw [hroot] at hsplit
        exact (hkept root (by rw [← hsplit]; decide)).notDot rfl
      rw [if_neg hnil, pathElems, if_neg hroot, splitOn_kept hkept hnil, hfilter]

lemma rooted_clean (p : Bytes) : rooted (clean p) = rooted p := by
  rw [clean_eq]
  by_cases hr : rooted p
  · rw [if_pos hr, hr]
    simp [rooted]
  · rw [if_neg hr]
    have hkept : ∀ e ∈ (stackOf p).reverse, Kept e := fun e he =>
      kept_walk (by simp) p e (mem_reverse.mp he)
    generalize (stackOf p).reverse = es at hkept
    have hfalse : rooted p = false := by simpa using hr
    rw [hfalse]
    cases es with
    | nil => rfl
    | cons e es =>
      have he := hkept e mem_cons_self
      obtain ⟨c, e', rfl⟩ := exists_cons_of_ne_nil he.nonempty
      have hc : c ≠ slash := by
        rintro rfl
        exact he.noSlash mem_cons_self
      rw [if_neg (by simp)]
      cases es with
      | nil => simpa [rooted] using hc
      | cons f es => simpa [rooted, intercalate_cons_cons] using hc

/-! ### Paths inside a directory -/

/-- The cleaned path `q` leads to the directory `d` or to something in it. -/
def Inside (d q : Bytes) : Prop :=
  rooted q = rooted d ∧ (pathElems (clean d)).isPrefixOf (pathElems q) ∧
    [dot, dot] ∉ (pathElems q).drop (pathElems (clean d)).length

instance (d q : Bytes) : Decidable (Inside d q) := inferInstanceAs (Decidable (_ ∧ _))

/-- The walk has come back to `stack`, or to something below it. -/
def Below (stack stack' : List Bytes) : Prop := ∃ rest, stack' = rest ++ stack ∧ [dot, dot] ∉ rest

lemma inside_clean_iff {p : Bytes} (hr : rooted p = rooted d) :
    Inside d (clean p) ↔ Below (stackOf d) (stackOf p) := by
  rw [Inside, rooted_clean, pathElems_clean, pathElems_clean, isPrefixOf_iff_prefix]
  constructor
  · rintro ⟨-, ⟨rest, hrest⟩, hup⟩
    rw [← hrest, drop_left] at hup
    refine ⟨rest.reverse, ?_, by simpa using hup⟩
    rw [← reverse_reverse (stackOf p), ← hrest, reverse_append, reverse_reverse]
  · rintro ⟨rest, hrest, hup⟩
    refine ⟨hr, ⟨rest.reverse, by rw [hrest, reverse_append]⟩, ?_⟩
    rw [hrest, reverse_append, drop_left]
    simpa using hup

lemma inside_join_iff {t : Bytes} (ht : t ≠ []) (hrt : rooted t = false ∨ d ≠ []) :
    Inside d (join [d, t]) ↔ Below (stackOf d) (walk (rooted d) (stackOf d) t) := by
  by_cases hd : d = []
  · subst hd
    have hr : rooted t = false := hrt.resolve_right (by simp)
    have hjoin : join [[], t] = clean t := by simp [join, ht, intercalate_singleton]
    have hstack : stackOf t = walk (rooted []) (stackOf []) t := by
      rw [stackOf, hr, stackOf, walk_nil]
      rfl
    rw [hjoin, inside_clean_iff (by rw [hr]; rfl), hstack]
  · have hjoin : join [d, t] = clean (d ++ slash :: t) := by
      simp [join, ht, hd, intercalate_cons_cons]
    have hr : rooted (d ++ slash :: t) = rooted d := by
      rw [rooted, head?_append_of_ne_nil d hd, rooted]
    have hstack : stackOf (d ++ slash :: t) = walk (rooted d) (stackOf d) t := by
      rw [stackOf, hr, walk_append_slash, stackOf]
    rw [hjoin, inside_clean_iff hr, hstack]

lemma inside_join_nil (hd : d ≠ []) : Inside d (join [d, []]) := by
  have hjoin : join [d, []] = clean d := by simp [join, hd, intercalate_singleton]
  rw [hjoin, inside_clean_iff rfl]
  exact ⟨[], rfl, by simp⟩

lemma rooted_of_inside_join {t : Bytes} (ht : t ≠ []) (h : Inside d (join [d, t])) :
    rooted t = false ∨ d ≠ [] := by
  by_cases hd : d = []
  · subst hd
    have hjoin : join [[], t] = clean t := by simp [join, ht, intercalate_singleton]
    rw [hjoin] at h
    exact .inl ((rooted_clean t).symm.trans h.1)
  · exact .inr hd

lemma stackOf_intercalate {es : List Bytes} (hes : ∀ e ∈ es, properElem e)
    (hslash : ∀ e ∈ es, slash ∉ e) (hne : es ≠ []) :
    stackOf ([slash].intercalate es) = es.reverse := by
  rw [stackOf, walk, splitOn_intercalate slash hslash hne, foldl_pushElem_proper _ _ _ hes,
    append_nil]

lemma foldl_pushElem_up (r : Bool) {above : List Bytes} (habove : [dot, dot] ∉ above)
    (stack : List Bytes) :
    (List.replicate above.length [dot, dot]).foldl (pushElem r) (above ++ stack) = stack := by
  induction above with
  | nil => rfl
  | cons top above ih =>
    rw [mem_cons, not_or] at habove
    have hup : pushElem r (top :: (above ++ stack)) [dot, dot] = above ++ stack := by
      simp [pushElem, Ne.symm habove.1]
    rw [length_cons, replicate_succ, foldl_cons, cons_append, hup, ih habove.2]

end GoSpidermonkey.Path
