import GoSpidermonkey.Go.PathWalk
import GoSpidermonkey.Nodejs.Files

/-!
# Paths of the guest

`guestPath` stands between the strings of the guest and the file system. It merges slashes in one
pass, and then keeps a stack of elements from which `..` takes one away. Merging makes no difference
to the walk along the elements (`walk_mergeSlashes`), and the stack is the one `path.Clean` has for
a path from the root (`pathClean_eq`).
-/

open GoSpidermonkey.Path

namespace GoSpidermonkey.Nodejs.Files

open List

/-- A slash more or less does not change the walk; `x` is the beginning of an element. -/
lemma walk_append_mergeSlashes (r : Bool) (stack : List Bytes) (x p : Bytes) :
    walk r stack (x ++ mergeSlashes p) = walk r stack (x ++ p) := by
  induction p using List.twoStepInduction generalizing x stack with
  | nil => rfl
  | singleton a => rfl
  | cons_cons a b rest ih ihcons =>
    by_cases h : a = slash ∧ b = slash
    · obtain ⟨rfl, rfl⟩ := h
      have hrest := ih (walk r stack x) []
      rw [mergeSlashes, if_pos ⟨rfl, rfl⟩, walk_append_slash, walk_append_slash,
        ← nil_append (slash :: rest), walk_append_slash, walk_nil]
      exact hrest
    rw [mergeSlashes, if_neg h]
    by_cases ha : a = slash
    · subst ha
      rw [walk_append_slash, walk_append_slash]
      exact ihcons b (walk r stack x) []
    · rw [append_cons, append_cons x a (b :: rest)]
      exact ihcons b stack (x ++ [a])

lemma walk_slash_cons (r : Bool) (stack : List Bytes) (p : Bytes) :
    walk r stack (slash :: p) = walk r stack p := by
  rw [← nil_append (slash :: p), walk_append_slash, walk_nil]

lemma walk_trimSlash (r : Bool) (stack : List Bytes) (p : Bytes) :
    walk r stack (trimSlash p) = walk r stack p := by
  unfold trimSlash cutLead
  split_ifs with h
  · obtain ⟨q, rfl⟩ := isPrefixOf_iff_prefix.mp h
    exact (walk_slash_cons r stack q).symm
  · rfl

/-- One element, on the list of `pathClean` and on the stack of `path.Clean`. -/
lemma pathClean_step {stack : List Bytes} (hstack : ∀ x ∈ stack, properElem x) (e : Bytes) :
    (if e = [] ∨ e = str "." then stack.reverse
      else if e = str ".." then stack.reverse.dropLast
      else stack.reverse ++ [e]) = (pushElem true stack e).reverse := by
  unfold pushElem
  by_cases hskip : e = [] ∨ e = [dot]
  · rw [if_pos hskip]
    exact if_pos hskip
  rw [if_neg hskip]
  refine (if_neg hskip).trans ?_
  by_cases hup : e = [dot, dot]
  · rw [if_pos hup]
    refine (if_pos hup).trans ?_
    cases stack with
    | nil => rfl
    | cons top rest =>
      have htop : top ≠ [dot, dot] := by
        rintro rfl
        exact absurd (hstack _ mem_cons_self) (by decide)
      rw [reverse_cons, dropLast_concat]
      simp only [if_neg htop]
  · rw [if_neg hup, reverse_cons]
    exact if_neg hup

/-- The list of `pathClean` is the stack of `path.Clean`, the other way round. -/
lemma pathClean_eq (p : Bytes) : pathClean p = [slash].intercalate (walk true [] p).reverse := by
  have hfold : ∀ (es stack : List Bytes), (∀ x ∈ stack, properElem x) →
      es.foldl (fun out seg =>
        if seg = [] ∨ seg = str "." then out
        else if seg = str ".." then out.dropLast
        else out ++ [seg]) stack.reverse = (es.foldl (pushElem true) stack).reverse := by
    intro es
    induction es with
    | nil => exact fun stack _ => rfl
    | cons e es ih =>
      intro stack hstack
      rw [foldl_cons, foldl_cons, pathClean_step hstack, ih _ (proper_pushElem hstack)]
  exact congrArg _ (hfold (p.splitOn slash) [] (by simp))

def nameOf (es : List Bytes) : Bytes := if es = [] then root else [slash].intercalate es

lemma guestPath_eq (s : Bytes) : guestPath s = nameOf (walk true [] s).reverse := by
  have hnil : [slash].intercalate (walk true [] s).reverse = [] ↔
    (walk true [] s).reverse = [] := by
    constructor
    · intro h
      by_contra hne
      have hkept : ∀ e ∈ (walk true [] s).reverse, Kept e := fun e he =>
        kept_walk (by simp) s e (mem_reverse.mp he)
      have hsplit := splitOn_kept hkept hne
      rw [h, splitOn_nil] at hsplit
      exact absurd (hkept [] (by rw [← hsplit]; simp)).nonempty (by simp)
    · intro h
      rw [h]
      rfl
  have hclean : pathClean (trimSlash (mergeSlashes (slash :: trimSlash s))) =
      [slash].intercalate (walk true [] s).reverse := by
    have hmerge := walk_append_mergeSlashes true [] [] (slash :: trimSlash s)
    rw [nil_append, nil_append] at hmerge
    rw [pathClean_eq, walk_trimSlash, hmerge, walk_slash_cons, walk_trimSlash]
  unfold guestPath nameOf
  simp only [hclean, hnil]
  by_cases hempty : trimSlash s = []
  · have hwalk : walk true [] s = [] := by
      rw [← walk_trimSlash, hempty, walk_nil]
    rw [if_pos hempty, hwalk, reverse_nil, if_pos rfl]
  · rw [if_neg hempty]

lemma walk_nameOf {es : List Bytes} (hproper : ∀ e ∈ es, properElem e)
    (hslash : ∀ e ∈ es, slash ∉ e) :
    walk true [] (nameOf es) = es.reverse := by
  unfold nameOf
  by_cases hne : es = []
  · rw [if_pos hne, hne]
    decide
  · rw [if_neg hne, walk, splitOn_intercalate slash hslash hne,
      foldl_pushElem_proper true es [] hproper, append_nil]

lemma slash_not_at_ends {p : Bytes} (h : ∀ e ∈ p.splitOn slash, e ≠ []) :
    p.head? ≠ some slash ∧ p.getLast? ≠ some slash := by
  constructor
  · intro hhead
    obtain ⟨q, rfl⟩ := head?_eq_some_iff.mp hhead
    refine h [] ?_ rfl
    rw [← nil_append (slash :: q), splitOn_append_cons_self, splitOn_nil]
    simp
  · intro hlast
    obtain ⟨q, rfl⟩ := getLast?_eq_some_iff.mp hlast
    refine h [] ?_ rfl
    rw [splitOn_append_cons_self, splitOn_nil]
    simp

/-- A path of the guest is a name below the root, the one that `path.Clean` finds for it from the
root, and it names itself. -/
theorem guestPath_normalizes (s : Bytes) :
    (guestPath s = root ∨ (∀ e ∈ (guestPath s).splitOn slash, e ≠ [] ∧ e ≠ [dot] ∧ e ≠ [dot, dot]) ∧
        (guestPath s).head? ≠ some slash ∧ (guestPath s).getLast? ≠ some slash) ∧
      slash :: (if guestPath s = root then [] else guestPath s) = clean (slash :: s) ∧
      guestPath (guestPath s) = guestPath s := by
  have hproper : ∀ e ∈ (walk true [] s).reverse, properElem e := fun e he =>
    proper_walk (by simp) s e (mem_reverse.mp he)
  have hslash : ∀ e ∈ (walk true [] s).reverse, slash ∉ e := fun e he =>
    (kept_walk (by simp) s e (mem_reverse.mp he)).noSlash
  have hclean : clean (slash :: s) = slash :: [slash].intercalate (walk true [] s).reverse := by
    have hrooted : rooted (slash :: s) = true := rfl
    rw [clean_eq, if_pos hrooted, stackOf, hrooted, walk_slash_cons]
  have hagain : guestPath (guestPath s) = guestPath s := by
    rw [guestPath_eq (guestPath s), guestPath_eq s, walk_nameOf hproper hslash, reverse_reverse]
  refine ⟨?_, ?_, hagain⟩
  · rw [guestPath_eq]
    generalize (walk true [] s).reverse = es at hproper hslash
    by_cases hne : es = []
    · exact .inl (if_pos hne)
    · refine .inr ?_
      have helems : ∀ e ∈ (nameOf es).splitOn slash, e ≠ [] ∧ e ≠ [dot] ∧ e ≠ [dot, dot] := by
        rw [nameOf, if_neg hne, splitOn_intercalate slash hslash hne]
        intro e he
        simpa [properElem, and_assoc] using hproper e he
      exact ⟨helems, slash_not_at_ends fun e he => (helems e he).1⟩
  · rw [hclean, guestPath_eq]
    generalize (walk true [] s).reverse = es at hproper hslash
    by_cases hne : es = []
    · rw [nameOf, if_pos hne, if_pos rfl, hne]
      rfl
    · have hroot : [slash].intercalate es ≠ root := by
        intro h
        have hsplit := splitOn_intercalate slash hslash hne
        rw [h] at hsplit
        exact absurd (hproper root (by rw [← hsplit]; decide)) (by decide)
      rw [nameOf, if_neg hne, if_neg hroot]

end GoSpidermonkey.Nodejs.Files
