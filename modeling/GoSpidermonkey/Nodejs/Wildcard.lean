import GoSpidermonkey.Go.PathWalk
import GoSpidermonkey.Nodejs.Patterns

/-!
# Substituting a captured text

`resolveSubpathMap` puts the text that a pattern has captured in the place of every `*` of the
target, after it has made sure that no element of the text is `.` or `..`. The target is then joined
to the directory of the package. Whether that path is inside the directory can depend on the text
where an element of it meets the literal text around the star, and where it has not as many elements
as stars.

A text of a single element stands for a name: the walk along the target is the same walk for every
such text (`symbolicWalk`). A text with a slash at an end leaves the literal text next to the star
on its own, so that `..*` can become `..`; and one with several elements takes more steps down than
a target that goes up and comes back has counted on.
-/

open GoSpidermonkey.Path

namespace GoSpidermonkey.Nodejs

open List

/-! ### Elements of a substituted target -/

lemma replaceStar_append (c a b : Bytes) :
    replaceStar c (a ++ b) = replaceStar c a ++ replaceStar c b := by
  simp [replaceStar]

lemma replaceStar_cons (c : Bytes) (b : UInt8) (t : Bytes) :
    replaceStar c (b :: t) = (if b = ch '*' then c else [b]) ++ replaceStar c t := by
  simp [replaceStar]

variable {c e star t : Bytes} {b : UInt8}

lemma replaceStar_of_not_mem (ht : ch '*' ∉ t) (c : Bytes) : replaceStar c t = t := by
  induction t with
  | nil => rfl
  | cons b t ih =>
    rw [mem_cons, not_or] at ht
    rw [replaceStar_cons, if_neg (Ne.symm ht.1), ih ht.2]
    rfl

lemma infix_replaceStar (ht : ch '*' ∈ t) (c : Bytes) : c <:+: replaceStar c t := by
  obtain ⟨a, b, rfl⟩ := append_of_mem ht
  refine ⟨replaceStar c a, replaceStar c b, ?_⟩
  rw [replaceStar_append, replaceStar_cons, if_pos rfl, append_assoc]

lemma splitOn_replaceStar (c t : Bytes) :
    (replaceStar c t).splitOn slash
      = (t.splitOn slash).flatMap fun e => (replaceStar c e).splitOn slash := by
  -- by induction on the length: the part before the last slash is shorter
  induction hlen : t.length using Nat.strong_induction_on generalizing t with
  | _ len ih =>
    by_cases h : slash ∈ t
    · obtain ⟨a, x, rfl, hx⟩ := exists_last_slash h
      have hslash : slash ≠ ch '*' := by decide
      have ha := ih a.length (by rw [← hlen]; simp) a rfl
      rw [replaceStar_append, replaceStar_cons, if_neg hslash, singleton_append,
        splitOn_append_cons_self, splitOn_append_cons_self, ha, flatMap_append,
        splitOn_eq_singleton hx]
      simp
    · rw [splitOn_eq_singleton h]
      simp

lemma walk_replaceStar_elems (c : Bytes) (r : Bool) (stack : List Bytes) (t : Bytes) :
    walk r stack (replaceStar c t) =
      (t.splitOn slash).foldl (fun st e => walk r st (replaceStar c e)) stack := by
  rw [walk, splitOn_replaceStar, foldl_flatMap]
  rfl

lemma slash_not_mem_replaceStar (hc : slash ∉ c) (he : slash ∉ e) :
    slash ∉ replaceStar c e := by
  intro hmem
  simp only [replaceStar, mem_flatMap] at hmem
  obtain ⟨b, hb, hmem⟩ := hmem
  split_ifs at hmem
  · exact hc hmem
  · exact he (mem_singleton.mp hmem ▸ hb)

lemma splitOn_replaceStar_elem (hc : slash ∉ c) (t : Bytes) :
    (replaceStar c t).splitOn slash = (t.splitOn slash).map (replaceStar c) := by
  rw [splitOn_replaceStar, map_eq_flatMap]
  refine flatMap_congr fun e he => splitOn_eq_singleton ?_
  exact slash_not_mem_replaceStar hc (slash_not_mem_elem t e he)

lemma not_properElem_iff : ¬ properElem e ↔ ∃ n ≤ 2, e = List.replicate n dot := by
  simp only [properElem, Bool.and_eq_true, bne_iff_ne, not_and_or, not_not]
  constructor
  · rintro ((rfl | rfl) | rfl)
    · exact ⟨0, by omega, rfl⟩
    · exact ⟨1, by omega, rfl⟩
    · exact ⟨2, by omega, rfl⟩
  · rintro ⟨n, hn, rfl⟩
    interval_cases n
    · exact .inl (.inl rfl)
    · exact .inl (.inr rfl)
    · exact .inr rfl

lemma properElem_mono {s : Bytes} (hs : properElem s) (h : s <:+: e) : properElem e := by
  by_contra he
  obtain ⟨n, hn, rfl⟩ := not_properElem_iff.mp he
  obtain ⟨k, hk, rfl⟩ := sublist_replicate_iff.mp h.sublist
  exact not_properElem_iff.mpr ⟨k, hk.trans hn, rfl⟩ hs

/-! ### Texts of one element -/

/-- An element of a target: literal, or with a star in it. -/
inductive Item
  | lit (e : Bytes)
  | star (e : Bytes) (h : ch '*' ∈ e)

def Item.inst (c : Bytes) : Item → Bytes
  | .lit e => e
  | .star e _ => replaceStar c e

def pushItem (r : Bool) (stack : List Item) (e : Bytes) : List Item :=
  if h : ch '*' ∈ e then .star e h :: stack
  else if e = [] ∨ e = [dot] then stack
  else if e = [dot, dot] then
    match stack with
    | .lit top :: rest => if top = [dot, dot] then .lit e :: stack else rest
    | .star _ _ :: rest => rest
    | [] => if r then [] else [.lit e]
  else .lit e :: stack

def symbolicWalk (r : Bool) (stack : List Bytes) (t : Bytes) : List Item :=
  (t.splitOn slash).foldl (pushItem r) (stack.map .lit)

section

variable {c : Bytes} (hc : properElem c)
include hc

lemma properElem_replaceStar {e : Bytes} (he : ch '*' ∈ e) : properElem (replaceStar c e) :=
  properElem_mono hc (infix_replaceStar he c)

lemma map_pushItem (r : Bool) (stack : List Item) (e : Bytes) :
    (pushItem r stack e).map (Item.inst c) =
      pushElem r (stack.map (Item.inst c)) (replaceStar c e) := by
  unfold pushItem
  by_cases hstar : ch '*' ∈ e
  · rw [dif_pos hstar, pushElem_proper (properElem_replaceStar hc hstar)]
    rfl
  rw [dif_neg hstar, replaceStar_of_not_mem hstar]
  unfold pushElem
  by_cases hskip : e = [] ∨ e = [dot]
  · rw [if_pos hskip, if_pos hskip]
  rw [if_neg hskip, if_neg hskip]
  by_cases hup : e = [dot, dot]
  · rw [if_pos hup, if_pos hup]
    cases stack with
    | nil => cases r <;> rfl
    | cons top rest =>
      cases top with
      | lit top =>
        by_cases htop : top = [dot, dot]
        · simp [htop, Item.inst]
        · simp [htop, Item.inst]
      | star top h =>
        have hne : replaceStar c top ≠ [dot, dot] := by
          have hproper := properElem_replaceStar hc h
          simp only [properElem, Bool.and_eq_true, bne_iff_ne] at hproper
          exact hproper.2
        simp [Item.inst, hne]
  · rw [if_neg hup, if_neg hup]
    rfl

lemma walk_replaceStar (hslash : slash ∉ c) (r : Bool) (stack : List Bytes) (t : Bytes) :
    walk r stack (replaceStar c t) = (symbolicWalk r stack t).map (Item.inst c) := by
  have hfold : ∀ (es : List Bytes) (items : List Item),
      (es.map (replaceStar c)).foldl (pushElem r) (items.map (Item.inst c)) =
        (es.foldl (pushItem r) items).map (Item.inst c) := by
    intro es
    induction es with
    | nil => exact fun items => rfl
    | cons e es ih =>
      intro items
      rw [map_cons, foldl_cons, foldl_cons, ← map_pushItem hc, ih]
  have hstart : stack = (stack.map Item.lit).map (Item.inst c) := by
    simp [Function.comp_def, Item.inst]
  rw [walk, splitOn_replaceStar_elem hslash, symbolicWalk, ← hfold, ← hstart]

end

def isLetter (b : UInt8) : Bool := ch 'a' ≤ b && b ≤ ch 'z' || ch 'A' ≤ b && b ≤ ch 'Z'

lemma properElem_letter (hb : isLetter b) : properElem [b] ∧ slash ∉ [b] := by
  have hdot : b ≠ dot := by
    rintro rfl
    exact absurd hb (by decide)
  have hslash : b ≠ slash := by
    rintro rfl
    exact absurd hb (by decide)
  exact ⟨by simp [properElem, hdot], by simpa using hslash.symm⟩

lemma replaceStar_letter_ne (he : ch '*' ∈ e) :
    replaceStar [ch 'a'] e ≠ replaceStar [ch 'b'] e := by
  induction e with
  | nil => cases he
  | cons b e ih =>
    rw [replaceStar_cons, replaceStar_cons]
    by_cases hb : b = ch '*'
    · simp only [if_pos hb, singleton_append]
      intro h
      exact absurd (List.cons.inj h).1 (by decide)
    · simp only [if_neg hb, singleton_append]
      intro h
      exact ih ((mem_cons.mp he).resolve_left (Ne.symm hb)) (List.cons.inj h).2

/-- The target leads into the directory with every letter in the place of the stars. -/
def LettersInside (d target : Bytes) : Prop :=
  ∀ b, isLetter b → Inside d (join [d, replaceStar [b] target])

/-- A walk that is below the directory for two letters is so for every text of one element. -/
lemma below_of_letters (hc : properElem c) (hslash : slash ∉ c) {r : Bool}
    {stack : List Bytes} (ha : Below stack (walk r stack (replaceStar [ch 'a'] t)))
    (hb : Below stack (walk r stack (replaceStar [ch 'b'] t))) :
    Below stack (walk r stack (replaceStar c t)) := by
  have hla := properElem_letter (b := ch 'a') (by decide)
  have hlb := properElem_letter (b := ch 'b') (by decide)
  rw [walk_replaceStar hla.1 hla.2] at ha
  rw [walk_replaceStar hlb.1 hlb.2] at hb
  rw [walk_replaceStar hc hslash]
  obtain ⟨ra, hra, hupa⟩ := ha
  obtain ⟨rb, hrb, -⟩ := hb
  obtain ⟨za, zs, hz, rfl, hzs⟩ := map_eq_append_iff.mp hra
  obtain ⟨zb, zs', hz', rfl, hzs'⟩ := map_eq_append_iff.mp hrb
  -- the part that is the directory has no star in it
  have hlen : zs.length = zs'.length := by
    rw [← length_map (Item.inst [ch 'a']), hzs, ← hzs', length_map]
  obtain rfl : zs = zs' := (append_inj' (hz.symm.trans hz') hlen).2
  have hlit : ∀ z ∈ zs, Item.inst c z = Item.inst [ch 'a'] z := by
    intro z hmem
    cases z with
    | lit e => rfl
    | star e h =>
      have heq := map_inj_left.mp (hzs.trans hzs'.symm) _ hmem
      exact absurd heq (replaceStar_letter_ne h)
  refine ⟨za.map (Item.inst c), ?_, ?_⟩
  · rw [hz, map_append, map_congr_left hlit, hzs]
  · intro hup
    obtain ⟨z, hmem, heq⟩ := mem_map.mp hup
    cases z with
    | lit e => exact hupa (mem_map.mpr ⟨_, hmem, heq⟩)
    | star e h =>
      have hproper := properElem_replaceStar hc h
      simp only [properElem, Bool.and_eq_true, bne_iff_ne] at hproper
      exact hproper.2 heq

/-! ### Accepted texts -/

def names (c : Bytes) : List Bytes := (c.splitOn slash).filter (· ≠ [])

/-- The guard accepts the text. -/
def Accepted (c : Bytes) : Prop := ∀ seg ∈ c.splitOn slash, traversalSeg seg = false

lemma properElem_of_accepted {seg : Bytes} (h : traversalSeg seg = false) (hne : seg ≠ []) :
    properElem seg := by
  simp only [traversalSeg, Bool.or_eq_false_iff, beq_eq_false_iff_ne] at h
  simp only [properElem, Bool.and_eq_true, bne_iff_ne]
  exact ⟨⟨hne, h.1.1⟩, h.1.2⟩

lemma up_not_mem_names (hc : Accepted c) : [dot, dot] ∉ names c := by
  intro hup
  have hproper := hc _ (mem_of_mem_filter hup)
  exact absurd hproper (by decide)

lemma foldl_pushElem_down (r : Bool) {es : List Bytes} (hes : ∀ e ∈ es, e = [] ∨ properElem e)
    (stack : List Bytes) :
    es.foldl (pushElem r) stack = (es.filter (· ≠ [])).reverse ++ stack := by
  induction es generalizing stack with
  | nil => rfl
  | cons e es ih =>
    rw [foldl_cons, ih fun x hx => hes x (mem_cons_of_mem _ hx)]
    rcases hes e mem_cons_self with rfl | he
    · simp [pushElem]
    · have hne : e ≠ [] := by
        rintro rfl
        exact absurd he (by decide)
      simp [pushElem_proper he, hne]

lemma walk_accepted (hc : Accepted c) (r : Bool) (stack : List Bytes) :
    walk r stack c = (names c).reverse ++ stack := by
  refine foldl_pushElem_down r (fun e he => ?_) stack
  by_cases hne : e = []
  · exact .inl hne
  · exact .inr (properElem_of_accepted (hc e he) hne)

/-! ### Texts of several elements -/

/-- The elements never lead above where the walk began; `n` is how far below it is. -/
def descendsFrom : ℕ → List Bytes → Bool
  | _, [] => true
  | n, e :: es =>
    if e = [] ∨ e = [dot] then descendsFrom n es
    else if e = [dot, dot] then 0 < n && descendsFrom (n - 1) es
    else descendsFrom (n + 1) es

/-- The path never leads above where it begins, not even to come back. -/
def Descends (t : Bytes) : Prop := descendsFrom 0 (t.splitOn slash)

lemma splitOn_append_elem {x : Bytes} (hx : slash ∉ x) (t : Bytes) :
    (x ++ t).splitOn slash = (t.splitOn slash).modifyHead (x ++ ·) := by
  induction x with
  | nil => cases h : t.splitOn slash <;> simp [h]
  | cons b x ih =>
    rw [mem_cons, not_or] at hx
    have hb : ¬ (b == slash) := by simpa using Ne.symm hx.1
    rw [cons_append, List.splitOn, splitOnP_cons_eq_if_modifyHead, if_neg hb,
      ← List.splitOn, ih hx.2]
    cases t.splitOn slash <;> rfl

lemma splitOn_head {a : Bytes} (hhead : a.head? ≠ some slash) (hne : a ≠ []) :
    ∃ s ss, a.splitOn slash = s :: ss ∧ s ≠ [] := by
  obtain ⟨b, a, rfl⟩ := exists_cons_of_ne_nil hne
  have hb : slash ∉ [b] := by
    rw [mem_singleton]
    rintro rfl
    exact hhead rfl
  obtain ⟨s, ss, hs⟩ := exists_cons_of_ne_nil (splitOn_ne_nil slash a)
  exact ⟨b :: s, ss, by rw [← singleton_append, splitOn_append_elem hb, hs]; rfl, by simp⟩

section

variable {c : Bytes} (hc : Accepted c) (hhead : c.head? ≠ some slash)
  (hlast : c.getLast? ≠ some slash) (hne : c ≠ [])
include hc hhead hlast hne

lemma splitOn_accepted_append (t : Bytes) :
    ∃ x xs r rs, (c ++ t).splitOn slash = x :: (xs ++ rs) ∧ t.splitOn slash = r :: rs ∧
      properElem x ∧ ∀ y ∈ xs, y = [] ∨ properElem y := by
  obtain ⟨r, rs, ht⟩ := exists_cons_of_ne_nil (splitOn_ne_nil (a := slash) t)
  by_cases hslash : slash ∈ c
  · obtain ⟨a, x, rfl, hx⟩ := exists_last_slash hslash
    have hsplit : (a ++ slash :: x).splitOn slash = a.splitOn slash ++ [x] := by
      rw [splitOn_append_cons_self, splitOn_eq_singleton hx]
    have ha : a ≠ [] := by
      rintro rfl
      exact hhead rfl
    have hahead : a.head? ≠ some slash := by
      rwa [head?_append_of_ne_nil a ha] at hhead
    have hxne : x ≠ [] := by
      rintro rfl
      simp at hlast
    obtain ⟨s, ss, hs, hsne⟩ := splitOn_head hahead ha
    have hproper : ∀ y ∈ s :: (ss ++ [x]), y ≠ [] → properElem y := fun y hy =>
      properElem_of_accepted (hc y (by rw [hsplit, hs]; exact hy))
    refine ⟨s, ss ++ [x ++ r], r, rs, ?_, ht, hproper s (by simp) hsne, ?_⟩
    · rw [append_assoc, cons_append, splitOn_append_cons_self,
        splitOn_append_elem hx, ht, hs]
      simp
    · intro y hy
      rcases mem_append.mp hy with hy | hy
      · by_cases hyne : y = []
        · exact .inl hyne
        · exact .inr (hproper y (by simp [hy]) hyne)
      · rw [mem_singleton.mp hy]
        exact .inr (properElem_mono (hproper x (by simp) hxne) (prefix_append x r).isInfix)
  · have hproper : properElem c :=
      properElem_of_accepted (hc c (by rw [splitOn_eq_singleton hslash]; simp)) hne
    refine ⟨c ++ r, [], r, rs, ?_, ht, ?_, by simp⟩
    · rw [splitOn_append_elem hslash, ht]
      rfl
    · exact properElem_mono hproper (prefix_append c r).isInfix

lemma splitOn_replaceStar_accepted {e : Bytes} (he : slash ∉ e) (hstar : ch '*' ∈ e) :
    ∃ x xs, (replaceStar c e).splitOn slash = x :: xs ∧ properElem x ∧
      ∀ y ∈ xs, y = [] ∨ properElem y := by
  induction e with
  | nil => cases hstar
  | cons b e ih =>
    rw [mem_cons, not_or] at he
    by_cases hb : b = ch '*'
    · rw [replaceStar_cons, if_pos hb]
      obtain ⟨x, xs, r, rs, hsplit, ht, hx, hxs⟩ :=
        splitOn_accepted_append hc hhead hlast hne (replaceStar c e)
      refine ⟨x, xs ++ rs, hsplit, hx, fun y hy => ?_⟩
      rcases mem_append.mp hy with hy | hy
      · exact hxs y hy
      by_cases hmore : ch '*' ∈ e
      · obtain ⟨x', xs', hsplit', -, hxs'⟩ := ih he.2 hmore
        obtain ⟨-, rfl⟩ := List.cons.inj (ht.symm.trans hsplit')
        exact hxs' y hy
      · rw [replaceStar_of_not_mem hmore, splitOn_eq_singleton he.2] at ht
        obtain ⟨-, rfl⟩ := List.cons.inj ht
        cases hy
    · obtain ⟨x, xs, hsplit, hx, hxs⟩ := ih he.2 ((mem_cons.mp hstar).resolve_left (Ne.symm hb))
      refine ⟨b :: x, xs, ?_, properElem_mono hx (suffix_cons b x).isInfix, hxs⟩
      rw [replaceStar_cons, if_neg hb, splitOn_append_elem (by simpa using he.1), hsplit]
      rfl

lemma descends_replaceStar {b : UInt8} (hb : isLetter b) (r : Bool) (stack : List Bytes)
    {es : List Bytes} (hes : ∀ e ∈ es, slash ∉ e) {n : ℕ}
    (hdown : descendsFrom n (es.map (replaceStar [b]))) {above : List Bytes}
    (hlen : n ≤ above.length) (habove : [dot, dot] ∉ above) :
    Below stack (es.foldl (fun st e => walk r st (replaceStar c e)) (above ++ stack)) := by
  induction es generalizing n above with
  | nil => exact ⟨above, rfl, habove⟩
  | cons e es ih =>
    have hes' : ∀ x ∈ es, slash ∉ x := fun x hx => hes x (mem_cons_of_mem _ hx)
    have he := hes e mem_cons_self
    rw [foldl_cons]
    rw [map_cons, descendsFrom] at hdown
    by_cases hstar : ch '*' ∈ e
    · -- one step down for the letter, at least one for the text
      have hletter := properElem_replaceStar (properElem_letter hb).1 hstar
      simp only [properElem, Bool.and_eq_true, bne_iff_ne] at hletter
      rw [if_neg (by simp [hletter.1.1, hletter.1.2]), if_neg hletter.2] at hdown
      obtain ⟨x, xs, hsplit, hx, hxs⟩ := splitOn_replaceStar_accepted hc hhead hlast hne he hstar
      have hall : ∀ y ∈ x :: xs, y = [] ∨ properElem y := by
        intro y hy
        rcases mem_cons.mp hy with rfl | hy
        · exact .inr hx
        · exact hxs y hy
      rw [walk, hsplit, foldl_pushElem_down r hall, ← append_assoc]
      refine ih hes' hdown ?_ ?_
      · have hxne : x ≠ [] := by
          rintro rfl
          exact absurd hx (by decide)
        simp [hxne]
        omega
      · intro hup
        rcases mem_append.mp hup with hup | hup
        · rw [mem_reverse, mem_filter] at hup
          rcases hall _ hup.1 with h | h
          · exact absurd h (by decide)
          · exact absurd h (by decide)
        · exact habove hup
    · rw [replaceStar_of_not_mem hstar] at hdown ⊢
      rw [walk_elem _ _ he]
      unfold pushElem
      by_cases hskip : e = [] ∨ e = [dot]
      · rw [if_pos hskip] at hdown ⊢
        exact ih hes' hdown hlen habove
      rw [if_neg hskip] at hdown ⊢
      by_cases hup : e = [dot, dot]
      · rw [if_pos hup, Bool.and_eq_true, decide_eq_true_eq] at hdown
        rw [if_pos hup]
        cases above with
        | nil => exact absurd hdown.1 (by simpa using hlen)
        | cons top above =>
          rw [mem_cons, not_or] at habove
          rw [cons_append]
          simp only [if_neg (Ne.symm habove.1)]
          refine ih hes' hdown.2 ?_ habove.2
          rw [length_cons] at hlen
          omega
      · rw [if_neg hup] at hdown ⊢
        have habove' : [dot, dot] ∉ e :: above := by
          rw [mem_cons, not_or]
          exact ⟨Ne.symm hup, habove⟩
        have hlen' : n + 1 ≤ (e :: above).length := Nat.succ_le_succ hlen
        exact ih hes' hdown hlen' habove'

end

/-! ### The resolution of a subpath -/

/-- The key is resolved through a pattern that captures `star`, and the pattern's target. -/
structure Selected (m : RawMap) (key : Bytes) (conds : Conditions) (star target : Bytes) :
    Prop where
  noEntry : m.lookup key = none
  pattern : ∃ pat lead tail, MostSpecific m key pat ∧ Captures key pat lead star tail ∧
    resolveConditions conds (m.lookup pat) = .ok target

lemma Selected.resolve {m : RawMap} {key : Bytes} {conds : Conditions} {target : Bytes}
    (h : Selected m key conds star target) (ord : MapOrder) (t : Bytes) :
    resolveSubpathMap ord m key conds = .ok t ↔ Accepted star ∧ t = replaceStar star target := by
  obtain ⟨pat, lead, tail, hmost, hcaptures, htarget⟩ := h.pattern
  have hguard : (star.splitOn (ch '/')).any traversalSeg = false ↔ Accepted star := by
    rw [any_eq_false]
    simp only [Bool.not_eq_true]
    exact Iff.rfl
  have heq : resolveSubpathMap ord m key conds = substitute m key pat star conds := by
    rcases resolveSubpathMap_spec ord m key conds h.noEntry with ⟨pat', hmost', heq⟩ | ⟨hno, -⟩
    · obtain rfl := (mostSpecific_iff.mp hmost').unique (mostSpecific_iff.mp hmost)
      rw [heq, hcaptures.captured]
    · exact absurd ⟨lead, star, tail, hcaptures⟩ (hno pat hmost.1)
  rw [heq, substitute, htarget, ← hguard]
  cases (star.splitOn (ch '/')).any traversalSeg with
  | true => simp
  | false => simp [eq_comm]

/-- Where a letter in the place of the stars leads into the package, so does the captured text. -/
def StaysInside (star : Bytes) : Prop :=
  ∀ ord m key conds target d, Selected m key conds star target → LettersInside d target →
    ∀ t, resolveSubpathMap ord m key conds = .ok t → Inside d (join [d, t])

lemma rooted_replaceStar (hne : c ≠ []) (hslash : slash ∉ c) (t : Bytes) :
    rooted (replaceStar c t) = rooted t := by
  obtain ⟨b, c, rfl⟩ := exists_cons_of_ne_nil hne
  rw [mem_cons, not_or] at hslash
  cases t with
  | nil => rfl
  | cons a t =>
    rw [replaceStar_cons]
    by_cases ha : a = ch '*'
    · have hstar : a ≠ slash := by
        rw [ha]
        decide
      simp [rooted, if_pos ha, Ne.symm hslash.1, hstar]
    · simp [rooted, if_neg ha]

lemma replaceStar_ne_nil (hc : c ≠ []) (ht : t ≠ []) : replaceStar c t ≠ [] := by
  obtain ⟨b, t, rfl⟩ := exists_cons_of_ne_nil ht
  rw [replaceStar_cons]
  by_cases hb : b = ch '*'
  · simp [if_pos hb, hc]
  · simp [if_neg hb]

lemma inside_of_letters {d target : Bytes} (hproper : properElem c) (hslash : slash ∉ c)
    (hletters : LettersInside d target) : Inside d (join [d, replaceStar c target]) := by
  have ha := hletters (ch 'a') (by decide)
  have hb := hletters (ch 'b') (by decide)
  by_cases htarget : target = []
  · subst htarget
    exact ha
  have hne : c ≠ [] := by
    rintro rfl
    exact absurd hproper (by decide)
  have hletter : ∀ b, isLetter b → slash ∉ [b] := fun b hb => (properElem_letter hb).2
  have hrooted : rooted (replaceStar c target) = rooted (replaceStar [ch 'a'] target) := by
    rw [rooted_replaceStar hne hslash, rooted_replaceStar (by simp) (hletter _ (by decide))]
  have hrooted' : rooted (replaceStar [ch 'b'] target) = rooted (replaceStar [ch 'a'] target) := by
    rw [rooted_replaceStar (by simp) (hletter _ (by decide)),
      rooted_replaceStar (by simp) (hletter _ (by decide))]
  have hta : replaceStar [ch 'a'] target ≠ [] := replaceStar_ne_nil (by simp) htarget
  have hr := rooted_of_inside_join hta ha
  rw [inside_join_iff hta hr] at ha
  rw [inside_join_iff (replaceStar_ne_nil (by simp) htarget) (by rwa [hrooted'])] at hb
  rw [inside_join_iff (replaceStar_ne_nil hne htarget) (by rwa [hrooted])]
  exact below_of_letters hproper hslash ha hb

/-! ### Texts that lead outside -/

lemma walk_lit (hstar : ch '*' ∉ e) (hslash : slash ∉ e) (c : Bytes) (r : Bool)
    (stack : List Bytes) : walk r stack (replaceStar c e) = pushElem r stack e := by
  rw [replaceStar_of_not_mem hstar, walk_elem r stack hslash]

lemma foldl_walk_lits {es : List Bytes} (hes : ∀ e ∈ es, ch '*' ∉ e ∧ slash ∉ e) (c : Bytes)
    (r : Bool)
    (stack : List Bytes) :
    es.foldl (fun st e => walk r st (replaceStar c e)) stack = es.foldl (pushElem r) stack := by
  induction es generalizing stack with
  | nil => rfl
  | cons e es ih =>
    have he := hes e mem_cons_self
    rw [foldl_cons, foldl_cons, walk_lit he.1 he.2,
      ih fun x hx => hes x (mem_cons_of_mem _ hx)]

/-- A subpath map with the one pattern `./*`. -/
def anyPattern (target : Bytes) : RawMap := Finmap.singleton (str "./*") (.str target)

lemma selected_anyPattern (target : Bytes) (conds : Conditions)
    (hslash : slash ∈ star) :
    Selected (anyPattern target) (str "./" ++ star) conds star target := by
  have hcaptures : Captures (str "./" ++ star) (str "./*") (str "./") star [] :=
    ⟨rfl, by decide, by simp, by simp, ne_nil_of_mem hslash⟩
  constructor
  · rw [Finmap.lookup_eq_none, anyPattern, Finmap.mem_singleton]
    intro hkey
    rw [append_cancel_left hkey] at hslash
    exact absurd hslash (by decide)
  · refine ⟨str "./*", str "./", [], ⟨?_, _, _, _, hcaptures, ?_⟩, hcaptures, ?_⟩
    · exact (Finmap.mem_singleton _ _ _).mpr rfl
    · intro pat' hpat' hne'
      exact absurd ((Finmap.mem_singleton _ _ _).mp hpat') hne'
    · rw [anyPattern, Finmap.lookup_singleton_eq]
      rfl

/-- The text leads a target of the pattern `./*` outside. -/
lemma not_staysInside (target : Bytes) (es : List Bytes) (haccepted : Accepted star)
    (hslash : slash ∈ star) (htarget : target ≠ []) (hes : ∀ e ∈ es, properElem e)
    (helem : ∀ e ∈ es, slash ∉ e) (hne : es ≠ [])
    (hletters : ∀ r b, isLetter b → Below es.reverse (walk r es.reverse (replaceStar [b] target)))
    (hout : ∀ r, ¬ Below es.reverse (walk r es.reverse (replaceStar star target))) :
    ¬ StaysInside star := by
  intro hstays
  have hstar : star ≠ [] := ne_nil_of_mem hslash
  have hstack := stackOf_intercalate hes helem hne
  have hd : [slash].intercalate es ≠ [] := by
    intro hd
    have hsplit := splitOn_intercalate slash helem hne
    rw [hd, splitOn_nil] at hsplit
    exact absurd (hes [] (by rw [← hsplit]; simp)) (by decide)
  have hsel := selected_anyPattern target [] hslash
  have hinside := hstays .sorted _ _ [] target ([slash].intercalate es) hsel
    (fun b hb => ?_) _ ((hsel.resolve .sorted _).mpr ⟨haccepted, rfl⟩)
  · rw [inside_join_iff (replaceStar_ne_nil hstar htarget) (.inr hd), hstack] at hinside
    exact hout _ hinside
  · rw [inside_join_iff (replaceStar_ne_nil (by simp) htarget) (.inr hd), hstack]
    exact hletters _ b hb

lemma accepted_append_slash {a b : Bytes} :
    Accepted (a ++ slash :: b) ↔ Accepted a ∧ Accepted b := by
  simp only [Accepted, splitOn_append_cons_self, mem_append]
  constructor
  · exact fun h => ⟨fun s hs => h s (.inl hs), fun s hs => h s (.inr hs)⟩
  · rintro ⟨ha, hb⟩ s (hs | hs)
    · exact ha s hs
    · exact hb s hs

lemma length_name_le (he : e ∈ names c) : e.length ≤ c.length := by
  have hmem := mem_of_mem_filter he
  have hle : e.length + 1 ≤ elemsLength (c.splitOn slash) :=
    single_le_sum (by simp) _ (mem_map.mpr ⟨e, hmem, rfl⟩)
  rw [elemsLength_splitOn] at hle
  omega

lemma replaceStar_concat (ht : ch '*' ∉ t) (c : Bytes) :
    replaceStar c (t ++ [ch '*']) = t ++ c := by
  rw [replaceStar_append, replaceStar_of_not_mem ht]
  simp [replaceStar]

lemma walk_dots (r : Bool) (stack : List Bytes) (c : Bytes) :
    walk r stack (replaceStar c (str "./..*")) = walk r stack ([dot, dot] ++ c) := by
  have hsplit : (str "./..*").splitOn slash = [str ".", [dot, dot] ++ [ch '*']] := by decide
  rw [walk_replaceStar_elems, hsplit, foldl_cons, walk_lit (by decide) (by decide),
    foldl_cons, replaceStar_concat (by decide)]
  rfl

lemma below_dots (hb : isLetter b) (r : Bool) (stack : List Bytes) :
    Below stack (walk r stack (replaceStar [b] (str "./..*"))) := by
  have hproper : properElem ([dot, dot] ++ [b]) :=
    properElem_mono (properElem_letter hb).1 (suffix_append _ _).isInfix
  have hslash : slash ∉ [dot, dot] ++ [b] := by
    rw [mem_append, not_or]
    exact ⟨by decide, (properElem_letter hb).2⟩
  rw [walk_dots, walk_elem r _ hslash, pushElem_proper hproper]
  exact ⟨[[dot, dot] ++ [b]], rfl, by simp⟩

/-- A text that begins with a slash leaves the `..` before a star on its own. -/
lemma escape_leading (haccepted : Accepted (slash :: c)) : ¬ StaysInside (slash :: c) := by
  -- a directory with a longer name than any in the text
  let x : Bytes := List.replicate (c.length + 2) (ch 'p')
  have hx : properElem x := by simp [x, properElem, replicate_succ, dot, ch]
  have hxslash : slash ∉ x := fun h => absurd (eq_of_mem_replicate h) (by decide)
  have hxup : [dot, dot] ∉ [x] := by simp [x, replicate_succ, dot, ch]
  have hc : Accepted c := (accepted_append_slash (a := []).mp haccepted).2
  refine not_staysInside (str "./..*") [x] haccepted mem_cons_self (by decide)
    (by simpa using hx) (by simpa using hxslash) (by simp) (fun r b hb => below_dots hb r _) ?_
  · intro r hbelow
    have hup : walk r [x] [dot, dot] = [] := by
      rw [walk_elem r _ (by decide)]
      exact foldl_pushElem_up r hxup []
    rw [reverse_singleton, walk_dots, walk_append_slash, hup, walk_accepted hc] at hbelow
    obtain ⟨rest, hrest, -⟩ := hbelow
    have hmem : x ∈ names c := by
      rw [← mem_reverse, ← append_nil (names c).reverse, hrest]
      simp
    have := length_name_le hmem
    simp [x] at this

/-- A text of one name that ends with a slash leaves the `..` after a star on its own. -/
lemma escape_trailing (haccepted : Accepted (c ++ [slash]))
    (he : names c = [e]) : ¬ StaysInside (c ++ [slash]) := by
  have hc : Accepted c := (accepted_append_slash.mp haccepted).1
  let x : Bytes := str "p"
  have hwalk : ∀ r s, walk r [x] (replaceStar s (str "./*../..")) =
      pushElem r (walk r [x] (s ++ [dot, dot])) [dot, dot] := by
    intro r s
    have hsplit : (str "./*../..").splitOn slash = [str ".", ch '*' :: [dot, dot], [dot, dot]] := by
      decide
    rw [walk_replaceStar_elems, hsplit, foldl_cons, walk_lit (by decide) (by decide),
      foldl_cons, replaceStar_cons, if_pos rfl, replaceStar_of_not_mem (by decide),
      foldl_cons, walk_lit (by decide) (by decide)]
    rfl
  refine not_staysInside (str "./*../..") [x] haccepted (by simp) (by decide) (by decide)
    (by decide)
    (by simp) ?_ ?_
  · intro r b hb
    have hproper : properElem ([b] ++ [dot, dot]) :=
      properElem_mono (properElem_letter hb).1 (prefix_append _ _).isInfix
    have hslash : slash ∉ [b] ++ [dot, dot] := by
      rw [mem_append, not_or]
      exact ⟨(properElem_letter hb).2, by decide⟩
    rw [reverse_singleton, hwalk, walk_elem r _ hslash, pushElem_proper hproper]
    have hup : [dot, dot] ∉ [[b] ++ [dot, dot]] := by simp
    exact ⟨[], foldl_pushElem_up r hup [x], by simp⟩
  · intro r hbelow
    have hnames : [dot, dot] ∉ [e, x] := by
      have hup := up_not_mem_names hc
      rw [he, mem_singleton] at hup
      simp [hup, x, str, ch, dot]
    have hup : pushElem r (pushElem r [e, x] [dot, dot]) [dot, dot] = [] :=
      foldl_pushElem_up r hnames []
    rw [reverse_singleton, hwalk, append_assoc, singleton_append, walk_append_slash,
      walk_accepted hc, he, walk_elem _ _ (by decide), reverse_singleton, singleton_append,
      hup] at hbelow
    obtain ⟨rest, hrest, -⟩ := hbelow
    exact absurd hrest (by simp)

lemma escape_several (haccepted : Accepted c) (hslash : slash ∈ c) {j : ℕ}
    (hnames : (names c).length = j + 2) : ¬ StaysInside c := by
  let es := List.replicate (j + 1) (str "p") ++ [str "q"]
  let ups := List.replicate (j + 3) [dot, dot]
  let target := [slash].intercalate (str "." :: [ch '*'] :: (ups ++ es))
  have hes : ∀ e ∈ es, e = str "p" ∨ e = str "q" := by
    intro e he
    rcases mem_append.mp he with he | he
    · exact .inl (eq_of_mem_replicate he)
    · exact .inr (mem_singleton.mp he)
  have hproper : ∀ e ∈ es, properElem e := fun e he => by
    rcases hes e he with rfl | rfl <;> decide
  have hplain : ∀ e ∈ ups ++ es, ch '*' ∉ e ∧ slash ∉ e := by
    intro e he
    rcases mem_append.mp he with he | he
    · rw [eq_of_mem_replicate he]
      decide
    · rcases hes e he with rfl | rfl <;> decide
  have hslashes : ∀ e ∈ es, slash ∉ e := fun e he =>
    (hplain e (mem_append_right _ he)).2
  have hwalk : ∀ r s, walk r es.reverse (replaceStar s target) =
      es.reverse ++ ups.foldl (pushElem r) (walk r es.reverse s) := by
    intro r s
    have hsplit : ∀ e ∈ str "." :: [ch '*'] :: (ups ++ es), slash ∉ e := by
      intro e he
      rcases mem_cons.mp he with rfl | he
      · decide
      rcases mem_cons.mp he with rfl | he
      · decide
      · exact (hplain e he).2
    have hstar : replaceStar s [ch '*'] = s := replaceStar_concat (t := []) (by simp) s
    rw [walk_replaceStar_elems, splitOn_intercalate slash hsplit (by simp), foldl_cons,
      walk_lit (by decide) (by decide), foldl_cons, hstar, foldl_walk_lits hplain,
      foldl_append, foldl_pushElem_proper r es _ hproper]
    rfl
  have hup : [dot, dot] ∉ es.reverse := by
    rw [mem_reverse]
    exact fun h => absurd (hproper _ h) (by decide)
  have hreverse : es.reverse = str "q" :: List.replicate (j + 1) (str "p") := by simp [es]
  refine not_staysInside target es haccepted hslash ?_ hproper hslashes (by simp [es]) ?_ ?_
  · simp [target, intercalate_cons_cons]
  · intro r b hb
    have hletter := properElem_letter hb
    have habove : [dot, dot] ∉ [b] :: es.reverse := by
      rw [mem_cons, not_or]
      exact ⟨by simp, hup⟩
    have hout := foldl_pushElem_up r habove []
    rw [hwalk, walk_elem r _ hletter.2, pushElem_proper hletter.1]
    have hlen : ([b] :: es.reverse).length = j + 3 := by simp [es]
    rw [hlen, append_nil] at hout
    rw [hout]
    exact ⟨[], by simp, by simp⟩
  · intro r hbelow
    -- one directory of the package is left when the target comes back
    have habove : [dot, dot] ∉ (names c).reverse ++ [str "q"] := by
      rw [mem_append, not_or, mem_reverse]
      exact ⟨up_not_mem_names haccepted, by decide⟩
    have hout := foldl_pushElem_up r habove (List.replicate (j + 1) (str "p"))
    have hlen : ((names c).reverse ++ [str "q"]).length = j + 3 := by simp [hnames]
    rw [hlen, append_assoc, singleton_append, ← hreverse] at hout
    rw [hwalk, walk_accepted haccepted, hout] at hbelow
    obtain ⟨rest, hrest, -⟩ := hbelow
    have hforward : List.replicate (j + 1) (str "p") ++ es = es ++ rest.reverse := by
      simpa using congrArg List.reverse hrest
    have hsame : es = [str "q"] ++ rest.reverse :=
      append_cancel_left (hforward.trans (append_assoc _ _ _))
    exact absurd (congrArg List.head? hsame) (by simp [es, replicate_succ, str, ch])

lemma not_staysInside_of_slash (haccepted : Accepted c) (hslash : slash ∈ c) :
    ¬ StaysInside c := by
  obtain ⟨a, x, rfl, hx⟩ := exists_last_slash hslash
  by_cases hhead : (a ++ slash :: x).head? = some slash
  · obtain ⟨c, hc⟩ := head?_eq_some_iff.mp hhead
    rw [hc] at haccepted ⊢
    exact escape_leading haccepted
  -- the text begins with a name; with a second one it has several
  have ha : a ≠ [] := by
    rintro rfl
    exact hhead rfl
  rw [head?_append_of_ne_nil a ha] at hhead
  obtain ⟨s, ss, hs, hsne⟩ := splitOn_head hhead ha
  have hsplit : names (a ++ slash :: x) = names a ++ names x := by
    rw [names, splitOn_append_cons_self, filter_append, names, names]
  have hfirst : names a = s :: ss.filter (· ≠ []) := by
    rw [names, hs, filter_cons_of_pos (by simpa using hsne)]
  by_cases hone : ss.filter (· ≠ []) = [] ∧ x = []
  · obtain ⟨hss, rfl⟩ := hone
    exact escape_trailing haccepted (by rw [hfirst, hss])
  · have hlen : 2 ≤ (names (a ++ slash :: x)).length := by
      rw [hsplit, hfirst, length_append, length_cons]
      rcases not_and_or.mp hone with hss | hxne
      · have := length_pos_iff.mpr hss
        omega
      · have hxnames : names x = [x] := by
          rw [names, splitOn_eq_singleton hx, filter_cons_of_pos (by simpa using hxne)]
          rfl
        rw [hxnames, length_singleton]
        omega
    obtain ⟨j, hj⟩ := Nat.exists_eq_add_of_le' hlen
    exact escape_several haccepted hslash hj

/-- A captured text keeps every target inside that a letter does exactly if it has no slash, or is
refused; one with slashes between its elements keeps those inside that never lead above the package.
-/
theorem staysInside_iff (star : Bytes) :
    (StaysInside star ↔ slash ∉ star ∨ (star.splitOn slash).any traversalSeg) ∧
      ∀ ord m key conds target d, Selected m key conds star target →
        star.head? ≠ some slash → star.getLast? ≠ some slash → d ≠ [] →
        (∀ b, isLetter b → Descends (replaceStar [b] target)) →
        ∀ t, resolveSubpathMap ord m key conds = .ok t → Inside d (join [d, t]) := by
  constructor
  · constructor
    · intro hstays
      by_contra hnot
      rw [not_or, not_not, Bool.not_eq_true, any_eq_false] at hnot
      refine not_staysInside_of_slash (fun seg hseg => ?_) hnot.1 hstays
      simpa using hnot.2 seg hseg
    · rintro (hslash | hrefused) ord m key conds target d hsel hletters t ht
      · obtain ⟨haccepted, rfl⟩ := (hsel.resolve ord t).mp ht
        obtain ⟨pat, lead, tail, -, hcaptures, -⟩ := hsel.pattern
        have hproper : properElem star := properElem_of_accepted
          (haccepted star (by rw [splitOn_eq_singleton hslash]; simp)) hcaptures.nonempty
        exact inside_of_letters hproper hslash hletters
      · obtain ⟨haccepted, -⟩ := (hsel.resolve ord t).mp ht
        obtain ⟨seg, hseg, htraversal⟩ := any_eq_true.mp hrefused
        rw [haccepted seg hseg] at htraversal
        cases htraversal
  · intro ord m key conds target d hsel hhead hlast hd hdown t ht
    obtain ⟨haccepted, rfl⟩ := (hsel.resolve ord t).mp ht
    obtain ⟨pat, lead, tail, -, hcaptures, -⟩ := hsel.pattern
    by_cases htarget : target = []
    · subst htarget
      exact inside_join_nil hd
    rw [inside_join_iff (replaceStar_ne_nil hcaptures.nonempty htarget) (.inr hd),
      walk_replaceStar_elems]
    have hletter : isLetter (ch 'a') := by decide
    have hdown' := hdown _ hletter
    rw [Descends, splitOn_replaceStar_elem (properElem_letter hletter).2] at hdown'
    have hbelow := descends_replaceStar haccepted hhead hlast hcaptures.nonempty hletter (rooted d)
      (stackOf d) (slash_not_mem_elem target) hdown' (Nat.zero_le ([] : List Bytes).length)
      not_mem_nil
    exact hbelow

/-- A text of two elements in the target of a package that maps its subpaths into `src`. -/
theorem nested_staysInside : StaysInside (str "x") ∧
    Inside (str "node_modules/p") (join [str "node_modules/p", str "./src/a/b.js"]) := by
  refine ⟨(staysInside_iff (str "x")).1.mpr (.inl (by decide)), ?_⟩
  refine (staysInside_iff (str "a/b")).2 .sorted (anyPattern (str "./src/*.js")) (str "./a/b")
    esmConditions (str "./src/*.js") _ (selected_anyPattern _ _ (by decide)) (by decide) (by decide)
    (by decide) (fun b hb => ?_) _ (by decide +kernel)
  have hsplit : (str "./src/*.js").splitOn slash = [str ".", str "src", str "*.js"] := by decide
  rw [Descends, splitOn_replaceStar_elem (properElem_letter hb).2, hsplit]
  show descendsFrom 0 [str ".", str "src", b :: str ".js"]
  simp [descendsFrom, str, ch, dot]

/-- With a letter the target is in the package, with the captured text it is not. -/
theorem captured_slash_escapes :
    Selected (anyPattern (str "./..*")) (str ".//x") esmConditions (str "/x") (str "./..*") ∧
      LettersInside (str "node_modules/p") (str "./..*") ∧
      resolveSubpathMap .sorted (anyPattern (str "./..*")) (str ".//x") esmConditions
        = .ok (str "./../x") ∧
      ¬ Inside (str "node_modules/p") (join [str "node_modules/p", str "./../x"]) := by
  have hslash : slash ∈ str "/x" := by decide
  have hsel := selected_anyPattern (str "./..*") esmConditions hslash
  refine ⟨hsel, fun b hb => ?_, ?_, by decide +kernel⟩
  · rw [inside_join_iff (replaceStar_ne_nil (by simp) (by decide)) (.inr (by decide))]
    exact below_dots hb _ _
  · exact (hsel.resolve .sorted _).mpr ⟨by unfold Accepted; decide, by decide⟩

end GoSpidermonkey.Nodejs
