import GoSpidermonkey.Go.Bytes

/-!
# Slash-separated paths

The functions of Go's `path` package that the repository uses, and `io/fs.ValidPath`. A path is
split at its slashes; `clean` runs over the elements with a stack, as its documentation describes.

A path is *proper* when `ValidPath` accepts it and it is not the root `"."`: proper paths are
exactly the slash-joined lists of proper elements, so they can be cut and joined at any slash, and
`dir` cuts off the last element.
-/

namespace GoSpidermonkey.Path

open List

/-- The byte `'/'`. -/
abbrev slash : UInt8 := 47

/-- The byte `'.'`. -/
abbrev dot : UInt8 := 46

/-- The root of an `fs.FS`. -/
abbrev root : Bytes := [dot]

/-! ### UTF-8 -/

def isCont (b : UInt8) : Bool := 0x80 ≤ b && b ≤ 0xBF

def utf8Two (b₀ b₁ : UInt8) : Bool := 0xC2 ≤ b₀ && b₀ ≤ 0xDF && isCont b₁

def utf8Three (b₀ b₁ b₂ : UInt8) : Bool :=
  isCont b₁ && isCont b₂ &&
    ((b₀ == 0xE0 && 0xA0 ≤ b₁) || (0xE1 ≤ b₀ && b₀ ≤ 0xEC) || (b₀ == 0xED && b₁ ≤ 0x9F)
      || b₀ == 0xEE || b₀ == 0xEF)

/-- A well-formed four-byte sequence: no overlong form, nothing above `U+10FFFF`. -/
def utf8Four (b₀ b₁ b₂ b₃ : UInt8) : Bool :=
  isCont b₁ && isCont b₂ && isCont b₃ &&
    ((b₀ == 0xF0 && 0x90 ≤ b₁) || (0xF1 ≤ b₀ && b₀ ≤ 0xF3) || (b₀ == 0xF4 && b₁ ≤ 0x8F))

/-- `utf8.ValidString`. -/
def validUTF8 : Bytes → Bool
  | [] => true
  | b₀ :: rest =>
    if b₀ < 0x80 then validUTF8 rest
    else match rest with
      | [] => false
      | b₁ :: rest₁ =>
        if utf8Two b₀ b₁ then validUTF8 rest₁
        else match rest₁ with
          | [] => false
          | b₂ :: rest₂ =>
            if utf8Three b₀ b₁ b₂ then validUTF8 rest₂
            else match rest₂ with
              | [] => false
              | b₃ :: rest₃ => utf8Four b₀ b₁ b₂ b₃ && validUTF8 rest₃

variable {b₀ : UInt8} {p x : Bytes}

lemma validUTF8_ascii (h : b₀ < 0x80) (rest : Bytes) :
    validUTF8 (b₀ :: rest) = validUTF8 rest := by
  rw [validUTF8.eq_def]
  simp only [h, if_true]

lemma validUTF8_two {b₁ : UInt8} (h : ¬ b₀ < 0x80) (h₂ : utf8Two b₀ b₁) (rest : Bytes) :
    validUTF8 (b₀ :: b₁ :: rest) = validUTF8 rest := by
  rw [validUTF8.eq_def]
  simp only [h, h₂, if_true, if_false]

lemma validUTF8_three {b₁ b₂ : UInt8} (h : ¬ b₀ < 0x80) (h₂ : ¬ utf8Two b₀ b₁)
    (h₃ : utf8Three b₀ b₁ b₂) (rest : Bytes) :
    validUTF8 (b₀ :: b₁ :: b₂ :: rest) = validUTF8 rest := by
  rw [validUTF8.eq_def]
  simp only [h, h₂, h₃, if_true, if_false, Bool.false_eq_true]

/-! ### The `path` package -/

/-- One element of `clean`'s scan; the stack has the last element kept on top. -/
def pushElem (rooted : Bool) (stack : List Bytes) (e : Bytes) : List Bytes :=
  if e = [] ∨ e = [dot] then stack
  else if e = [dot, dot] then
    match stack with
    | top :: rest => if top = [dot, dot] then e :: stack else rest
    | [] => if rooted then [] else [e]
  else e :: stack

def clean (p : Bytes) : Bytes :=
  let rooted := p.head? == some slash
  let elems := ((p.splitOn slash).foldl (pushElem rooted) []).reverse
  if rooted then slash :: [slash].intercalate elems
  else if elems = [] then root
  else [slash].intercalate elems

def join (elems : List Bytes) : Bytes :=
  match elems.filter (· != []) with
  | [] => []
  | es => clean ([slash].intercalate es)

/-- `path.Dir`: clean what stands before the last slash. -/
def dir (p : Bytes) : Bytes := clean (p.reverse.dropWhile (· != slash)).reverse

/-- `path.Base`: the last element, trailing slashes left out. -/
def base (p : Bytes) : Bytes :=
  if p = [] then root
  else
    let last := ((p.reverse.dropWhile (· == slash)).takeWhile (· != slash)).reverse
    if last = [] then [slash] else last

/-- `path.Ext`: from the last dot of the last element on. -/
def ext (p : Bytes) : Bytes :=
  let last := (p.reverse.takeWhile (· != slash)).reverse
  if dot ∈ last then dot :: (last.reverse.takeWhile (· != dot)).reverse else []

/-- An element `ValidPath` accepts. -/
def properElem (e : Bytes) : Bool := e != [] && e != [dot] && e != [dot, dot]

/-- A path other than the root that `ValidPath` accepts. -/
def proper (p : Bytes) : Bool := validUTF8 p && (p.splitOn slash).all properElem

def validPath (p : Bytes) : Bool := p == root || proper p

/-! ### Cutting a path at a slash -/

@[simp] lemma not_utf8Two_slash (b₀ : UInt8) : utf8Two b₀ slash = false := by
  simp [utf8Two, isCont, slash]

@[simp] lemma not_utf8Three_slash (b₀ b : UInt8) : utf8Three b₀ slash b = false := by
  simp [utf8Three, isCont, slash]

@[simp] lemma not_utf8Three_slash' (b₀ b : UInt8) : utf8Three b₀ b slash = false := by
  simp [utf8Three, isCont, slash]

@[simp] lemma not_utf8Four_slash (b₀ b b' : UInt8) : utf8Four b₀ slash b b' = false := by
  simp [utf8Four, isCont, slash]

@[simp] lemma not_utf8Four_slash' (b₀ b b' : UInt8) : utf8Four b₀ b slash b' = false := by
  simp [utf8Four, isCont, slash]

@[simp] lemma not_utf8Four_slash'' (b₀ b b' : UInt8) : utf8Four b₀ b b' slash = false := by
  simp [utf8Four, isCont, slash]

/-- A slash is never part of a longer sequence, so validity can be checked on both sides of it. -/
lemma validUTF8_append_slash (a b : Bytes) :
    validUTF8 (a ++ slash :: b) = (validUTF8 a && validUTF8 b) := by
  fun_induction validUTF8 a with
  | case1 => simpa using validUTF8_ascii (by decide) b
  | case2 b₀ rest h ih => rw [cons_append, validUTF8_ascii h, ih]
  | case3 b₀ h =>
    cases b with
    | nil => simp [validUTF8, h]
    | cons c b => cases b <;> simp [validUTF8, h]
  | case4 b₀ h b₁ rest₁ h₂ ih => rw [cons_append, cons_append, validUTF8_two h h₂, ih]
  | case5 b₀ h b₁ h₂ => cases b <;> simp [validUTF8, h, h₂]
  | case6 b₀ h b₁ h₂ b₂ rest₂ h₃ ih =>
    rw [cons_append, cons_append, cons_append, validUTF8_three h h₂ h₃, ih]
  | case7 b₀ h b₁ h₂ b₂ h₃ => simp [validUTF8, h, h₂, h₃]
  | case8 b₀ h b₁ h₂ b₂ h₃ b₃ rest₃ ih => simp [validUTF8, h, h₂, h₃, ih, Bool.and_assoc]

lemma proper_append_slash (a b : Bytes) :
    proper (a ++ slash :: b) = (proper a && proper b) := by
  rw [proper, validUTF8_append_slash, splitOn_append_cons_self, all_append, proper,
    proper]
  cases validUTF8 a <;> cases validUTF8 b <;> simp

lemma proper_ne_root (h : proper p) : p ≠ root := by
  rintro rfl
  exact absurd h (by decide)

lemma proper_ne_nil (h : proper p) : p ≠ [] := by
  rintro rfl
  exact absurd h (by decide)

lemma validPath_of_proper (h : proper p) : validPath p := by
  simp [validPath, h]

lemma proper_of_validPath (h : validPath p) (hne : p ≠ root) : proper p := by
  simpa [validPath, hne] using h

lemma validPath_length_pos (h : validPath p) : 0 < p.length := by
  refine length_pos_iff.mpr ?_
  rintro rfl
  exact absurd h (by decide)

lemma proper_elems (h : proper p) : ∀ e ∈ p.splitOn slash, properElem e := by
  simp only [proper, Bool.and_eq_true, all_eq_true] at h
  exact h.2

/-! ### Cleaning and cutting off the last element -/

lemma pushElem_proper {e : Bytes} (h : properElem e) (rooted : Bool) (stack : List Bytes) :
    pushElem rooted stack e = e :: stack := by
  simp only [properElem, Bool.and_eq_true, bne_iff_ne] at h
  simp [pushElem, h.1.1, h.1.2, h.2]

lemma foldl_pushElem_proper (rooted : Bool) (es stack : List Bytes)
    (h : ∀ e ∈ es, properElem e) :
    es.foldl (pushElem rooted) stack = es.reverse ++ stack := by
  induction es generalizing stack with
  | nil => rfl
  | cons e es ih =>
    rw [foldl_cons, pushElem_proper (h e (by simp)), ih _ fun e' he => h e' (by simp [he])]
    simp

lemma head?_proper (h : proper p) : (p.head? == some slash) = false := by
  cases p with
  | nil => rfl
  | cons c p =>
    -- a leading slash would make the first element empty
    have hne : c ≠ slash := by
      rintro rfl
      have := proper_append_slash [] p
      simp only [nil_append] at this
      rw [this] at h
      simp [proper, properElem] at h
    simpa using hne

lemma clean_proper_slash (h : proper p) : clean (p ++ [slash]) = p := by
  have hne := proper_ne_nil h
  have hhead : ((p ++ [slash]).head? == some slash) = false := by
    rw [head?_append_of_ne_nil p hne]
    exact head?_proper h
  have hsplit : (p ++ [slash]).splitOn slash = p.splitOn slash ++ [[]] := by
    rw [splitOn_append_cons_self, splitOn_nil]
  have hfold : ((p ++ [slash]).splitOn slash).foldl (pushElem false) []
      = (p.splitOn slash).reverse := by
    rw [hsplit, foldl_append, foldl_pushElem_proper false _ _ (proper_elems h)]
    simp [pushElem]
  simp only [clean, hhead, hfold, reverse_reverse, Bool.false_eq_true, if_false,
    splitOn_ne_nil, intercalate_splitOn]

lemma before_last_slash (a : Bytes) (hx : slash ∉ x) :
    ((a ++ slash :: x).reverse.dropWhile (· != slash)).reverse = a ++ [slash] := by
  have hx' : ∀ c ∈ x.reverse, (c != slash) = true := by
    intro c hc
    simp only [mem_reverse] at hc
    simp only [bne_iff_ne]
    rintro rfl
    exact hx hc
  rw [reverse_append, reverse_cons, append_assoc,
    dropWhile_append_of_pos hx']
  simp

/-- `dir` cuts off the last element of a proper path. -/
lemma dir_append_slash {a : Bytes} (h : proper a) (hx : slash ∉ x) :
    dir (a ++ slash :: x) = a := by
  rw [dir, before_last_slash a hx, clean_proper_slash h]

lemma dir_of_not_mem (hx : slash ∉ x) : dir x = root := by
  have : x.reverse.dropWhile (· != slash) = [] := by
    rw [dropWhile_eq_nil_iff]
    intro c hc
    simp only [bne_iff_ne]
    rintro rfl
    exact hx (mem_reverse.mp hc)
  rw [dir, this]
  decide

lemma exists_last_slash (h : slash ∈ p) :
    ∃ a x, p = a ++ slash :: x ∧ slash ∉ x := by
  induction p with
  | nil => simp at h
  | cons c p ih =>
    by_cases hp : slash ∈ p
    · obtain ⟨a, x, rfl, hx⟩ := ih hp
      exact ⟨c :: a, x, rfl, hx⟩
    · obtain rfl : slash = c := by simpa [hp] using h
      exact ⟨[], p, rfl, hp⟩

lemma slash_not_mem_elem (p : Bytes) : ∀ e ∈ p.splitOn slash, slash ∉ e := by
  -- by induction on the length: the part before the last slash is shorter
  induction hlen : p.length using Nat.strong_induction_on generalizing p with
  | _ len ih =>
    by_cases h : slash ∈ p
    · obtain ⟨a, x, rfl, hx⟩ := exists_last_slash h
      rw [splitOn_append_cons_self, splitOn_eq_singleton hx]
      intro e he
      rcases mem_append.mp he with ha | hx'
      · exact ih a.length (by rw [← hlen]; simp) a rfl e ha
      · rw [mem_singleton.mp hx']
        exact hx
    · rw [splitOn_eq_singleton h]
      intro e he
      rw [mem_singleton.mp he]
      exact h

/-! ### Lengths -/

def elemsLength (es : List Bytes) : ℕ := (es.map fun e => e.length + 1).sum

@[simp] lemma elemsLength_nil : elemsLength [] = 0 := rfl

@[simp] lemma elemsLength_cons (e : Bytes) (es : List Bytes) :
    elemsLength (e :: es) = e.length + 1 + elemsLength es := by
  simp [elemsLength]

lemma elemsLength_reverse (es : List Bytes) : elemsLength es.reverse = elemsLength es := by
  simp [elemsLength, sum_reverse]

lemma length_intercalate_slash (es : List Bytes) :
    ([slash].intercalate es).length = elemsLength es - 1 := by
  induction es with
  | nil => rfl
  | cons e es ih =>
    cases es with
    | nil => simp
    | cons e' es =>
      simp only [elemsLength_cons, intercalate_cons_cons, length_append,
        length_singleton] at ih ⊢
      omega

lemma elemsLength_splitOn (p : Bytes) : elemsLength (p.splitOn slash) = p.length + 1 := by
  obtain ⟨e, es, h⟩ := exists_cons_of_ne_nil (splitOn_ne_nil slash p)
  have := length_intercalate_slash (p.splitOn slash)
  rw [intercalate_splitOn] at this
  rw [h, elemsLength_cons] at this ⊢
  omega

lemma elemsLength_pushElem (rooted : Bool) (stack : List Bytes) (e : Bytes) :
    elemsLength (pushElem rooted stack e) ≤ e.length + 1 + elemsLength stack := by
  unfold pushElem
  by_cases h₁ : e = [] ∨ e = [dot]
  · rw [if_pos h₁]
    omega
  rw [if_neg h₁]
  by_cases h₂ : e = [dot, dot]
  · rw [if_pos h₂]
    cases stack with
    | nil => cases rooted <;> simp
    | cons top rest =>
      by_cases h₃ : top = [dot, dot]
      · simp [h₃]
      · simp only [if_neg h₃, elemsLength_cons]
        omega
  · rw [if_neg h₂, elemsLength_cons]

lemma elemsLength_foldl (rooted : Bool) (es stack : List Bytes) :
    elemsLength (es.foldl (pushElem rooted) stack) ≤ elemsLength es + elemsLength stack := by
  induction es generalizing stack with
  | nil => simp
  | cons e es ih =>
    have := ih (pushElem rooted stack e)
    have := elemsLength_pushElem rooted stack e
    simp only [foldl_cons, elemsLength_cons]
    omega

/-- Cleaning makes a path no longer, up to the `"."` for the empty path. -/
lemma length_clean_le (p : Bytes) : (clean p).length ≤ max 1 p.length := by
  by_cases hroot : p.head? = some slash
  · obtain ⟨q, rfl⟩ : ∃ q, p = slash :: q := by
      cases p with
      | nil => simp at hroot
      | cons c q => exact ⟨q, by simpa using hroot⟩
    -- the empty element before the leading slash is dropped
    have hsplit : (slash :: q).splitOn slash = [] :: q.splitOn slash := by
      simpa using splitOn_append_cons_self (a := slash) [] q
    have hlen := elemsLength_foldl true (q.splitOn slash) []
    rw [elemsLength_splitOn] at hlen
    simp only [clean, head?_cons, beq_self_eq_true, if_true, hsplit, foldl_cons,
      length_cons, length_intercalate_slash, elemsLength_reverse]
    simp only [pushElem, true_or, if_true, elemsLength_nil] at hlen ⊢
    omega
  · have hlen := elemsLength_foldl false (p.splitOn slash) []
    rw [elemsLength_splitOn] at hlen
    have hhead : (p.head? == some slash) = false := by simpa using hroot
    simp only [clean, hhead, Bool.false_eq_true, if_false]
    split
    · simp
    · rw [length_intercalate_slash, elemsLength_reverse]
      simp only [elemsLength_nil] at hlen
      omega

lemma clean_append_slash (h : p ≠ []) : clean (p ++ [slash]) = clean p := by
  have hsplit : (p ++ [slash]).splitOn slash = p.splitOn slash ++ [[]] := by
    rw [splitOn_append_cons_self, splitOn_nil]
  simp only [clean, head?_append_of_ne_nil p h, hsplit, foldl_append, foldl_cons,
    foldl_nil]
  simp [pushElem]

/-- Going up ends at `"."` or `"/"`, or makes a path shorter. -/
lemma dir_shorter (p : Bytes) : dir p = root ∨ dir p = [slash] ∨ (dir p).length < p.length := by
  by_cases h : slash ∈ p
  · obtain ⟨a, x, rfl, hx⟩ := exists_last_slash h
    rw [dir, before_last_slash a hx]
    by_cases ha : a = []
    · subst ha
      exact .inr (.inl (by decide))
    · have hpos := length_pos_iff.mpr ha
      have := length_clean_le a
      rw [clean_append_slash ha]
      refine .inr (.inr ?_)
      simp only [length_append, length_cons]
      omega
  · exact .inl (dir_of_not_mem h)

lemma dir_ne_self (h : proper p) : dir p ≠ p := by
  rcases dir_shorter p with hd | hd | hd
  · exact fun hp => proper_ne_root h (hp ▸ hd)
  · rw [hd]
    rintro rfl
    exact absurd h (by decide)
  · intro hp
    rw [hp] at hd
    omega

/-! ### Joining, and the last element -/

lemma clean_proper (h : proper p) : clean p = p := by
  rw [← clean_append_slash (proper_ne_nil h), clean_proper_slash h]

lemma join_proper {a b : Bytes} (ha : proper a) (hb : proper b) :
    join [a, b] = a ++ slash :: b := by
  have hne := proper_ne_nil ha
  have hne' := proper_ne_nil hb
  have hfilter : [a, b].filter (· != []) = [a, b] := by simp [hne, hne']
  have hab : proper (a ++ slash :: b) := by simp [proper_append_slash, ha, hb]
  have hinter : [slash].intercalate [a, b] = a ++ slash :: b := by simp [intercalate_cons_cons]
  simp only [join, hfilter, hinter]
  exact clean_proper hab

lemma join_root {b : Bytes} (hb : proper b) : join [root, b] = b := by
  have hne := proper_ne_nil hb
  have hfilter : [root, b].filter (· != []) = [root, b] := by simp [hne]
  have hinter : [slash].intercalate [root, b] = dot :: slash :: b := by
    simp [intercalate_cons_cons]
  have hsplit : (dot :: slash :: b).splitOn slash = [dot] :: b.splitOn slash :=
    splitOn_append_cons_self (a := slash) [dot] b
  have hfold : ((dot :: slash :: b).splitOn slash).foldl (pushElem false) []
      = (b.splitOn slash).reverse := by
    have hdot : pushElem false [] [dot] = [] := by simp [pushElem]
    rw [hsplit, foldl_cons, hdot, foldl_pushElem_proper false _ _ (proper_elems hb),
      append_nil]
  have hhead : ((dot :: slash :: b).head? == some slash) = false := rfl
  simp only [join, hfilter, hinter, clean, hhead, hfold, reverse_reverse, Bool.false_eq_true,
    if_false, splitOn_ne_nil, intercalate_splitOn]

lemma base_append_slash (hx : slash ∉ x) (hne : x ≠ []) (a : Bytes) :
    base (a ++ slash :: x) = x := by
  obtain ⟨y, c, rfl⟩ := eq_nil_or_concat' x |>.resolve_left hne
  have hc : c ≠ slash := by
    rintro rfl
    simp at hx
  have htake : ∀ d ∈ (y ++ [c]).reverse, (d != slash) = true := by
    intro d hd
    rw [mem_reverse] at hd
    simp only [bne_iff_ne]
    rintro rfl
    exact hx hd
  have hlast : ((a ++ slash :: (y ++ [c])).reverse.dropWhile (· == slash)).takeWhile (· != slash)
      = (y ++ [c]).reverse := by
    have hdrop : (a ++ slash :: (y ++ [c])).reverse.dropWhile (· == slash)
        = (y ++ [c]).reverse ++ slash :: a.reverse := by simp [hc]
    rw [hdrop, takeWhile_append_of_pos htake]
    simp
  rw [base, if_neg (by simp)]
  simp only [hlast]
  simp

lemma base_of_not_mem (hx : slash ∉ x) (hne : x ≠ []) : base x = x := by
  have htake : ∀ d ∈ x.reverse, (d != slash) = true := by
    intro d hd
    rw [mem_reverse] at hd
    simp only [bne_iff_ne]
    rintro rfl
    exact hx hd
  have hdrop : x.reverse.dropWhile (· == slash) = x.reverse := by
    cases hr : x.reverse with
    | nil => rfl
    | cons c r =>
      have : (c != slash) = true := htake c (by simp [hr])
      simp only [bne_iff_ne] at this
      simp [this]
  have htw : x.reverse.takeWhile (· != slash) = x.reverse := takeWhile_eq_self_iff.mpr htake
  simp [base, hne, hdrop, htw]

lemma eq_dir_append_base {k : Bytes} (hk : proper k) :
    dir k = root ∧ base k = k ∧ slash ∉ k ∨
      proper (dir k) ∧ k = dir k ++ slash :: base k ∧ slash ∉ base k := by
  by_cases h : slash ∈ k
  · obtain ⟨a, x, rfl, hx⟩ := exists_last_slash h
    rw [proper_append_slash, Bool.and_eq_true] at hk
    have hb := base_append_slash hx (proper_ne_nil hk.2) a
    have hd := dir_append_slash hk.1 hx
    exact .inr ⟨by rw [hd]; exact hk.1, by rw [hd, hb], by rw [hb]; exact hx⟩
  · exact .inl ⟨dir_of_not_mem h, base_of_not_mem h (proper_ne_nil hk), h⟩

end GoSpidermonkey.Path
