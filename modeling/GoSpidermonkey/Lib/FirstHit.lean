import Mathlib

/-!
# Backtracking search for a first hit

A search visits a node, looks for a hit there, then tries the successors of the node in order until
one of them yields a hit, and last looks at the node once more. No node is remembered, so the search
may run forever; `search` counts the nested visits it may still make and answers `none` when they
are used up.

`terminates_iff` characterises termination by the links alone: a successor is tried exactly when no
hit can be reached from the successors before it, and the search returns exactly when no node it
comes to can be tried again from itself. When it returns, it has found a hit exactly when one can be
reached (`returns_of_acc`).
-/

namespace FirstHit

open Relation

variable {α ρ : Type*}

/-- The first answer of a list of attempts; `none` when an attempt does not return. -/
def firstOk (visit : α → Option (Option ρ)) : List α → Option (Option ρ)
  | [] => some none
  | a :: as =>
    match visit a with
    | none => none
    | some (some r) => some (some r)
    | some none => firstOk visit as

/-- Visit a node with `n` nested visits to spare. -/
def search (pre : α → Option ρ) (next : α → List α) (post : α → Option ρ) :
    ℕ → α → Option (Option ρ)
  | 0, _ => none
  | n + 1, a =>
    match pre a with
    | some r => some (some r)
    | none =>
      match firstOk (search pre next post n) (next a) with
      | none => none
      | some (some r) => some (some r)
      | some none => some (post a)

variable (pre : α → Option ρ) (next : α → List α) (post : α → Option ρ)

/-- `b` is a successor of a node without a hit of its own. -/
def Link (a b : α) : Prop := pre a = none ∧ b ∈ next a

/-- A hit can be reached from `a`. -/
def Found (a : α) : Prop :=
  ∃ b, ReflTransGen (Link pre next) a b ∧ ((pre b).isSome ∨ (post b).isSome)

/-- `b` is tried from `a`: no hit can be reached from the successors before it. -/
def Tried (a b : α) : Prop :=
  pre a = none ∧ ∃ l₁ l₂, next a = l₁ ++ b :: l₂ ∧ ∀ c ∈ l₁, ¬ Found pre next post c

variable {pre next post}

lemma Tried.link {a b : α} (h : Tried pre next post a b) : Link pre next a b := by
  obtain ⟨hp, l₁, l₂, hn, -⟩ := h
  exact ⟨hp, by simp [hn]⟩

lemma Found.head {a b : α} (hl : Link pre next a b) (h : Found pre next post b) :
    Found pre next post a := by
  obtain ⟨c, hbc, hc⟩ := h
  exact ⟨c, .head hl hbc, hc⟩

lemma found_iff {a : α} :
    Found pre next post a ↔ (pre a).isSome ∨ (post a).isSome ∨
      (pre a = none ∧ ∃ b ∈ next a, Found pre next post b) := by
  constructor
  · rintro ⟨c, hac, hc⟩
    rcases ReflTransGen.cases_head hac with rfl | ⟨b, hab, hbc⟩
    · tauto
    · exact .inr (.inr ⟨hab.1, b, hab.2, c, hbc, hc⟩)
  · rintro (h | h | ⟨hp, b, hb, h⟩)
    · exact ⟨a, .refl, .inl h⟩
    · exact ⟨a, .refl, .inr h⟩
    · exact h.head ⟨hp, hb⟩

/-! ### Lists of attempts -/

lemma firstOk_mono {v w : α → Option (Option ρ)} (h : ∀ a r, v a = some r → w a = some r)
    {as : List α} {r : Option ρ} (hr : firstOk v as = some r) : firstOk w as = some r := by
  induction as with
  | nil => exact hr
  | cons a as ih =>
    simp only [firstOk] at hr ⊢
    cases hv : v a with
    | none => simp [hv] at hr
    | some o =>
      rw [h a o hv]
      cases o with
      | none =>
        simp only [hv] at hr
        exact ih hr
      | some r' => simpa [hv] using hr

lemma exists_of_firstOk {v : α → Option (Option ρ)} {as : List α} {r : ρ}
    (h : firstOk v as = some (some r)) : ∃ a ∈ as, v a = some (some r) := by
  induction as with
  | nil => simp [firstOk] at h
  | cons a as ih =>
    simp only [firstOk] at h
    cases hv : v a with
    | none => simp [hv] at h
    | some o =>
      cases o with
      | none =>
        simp only [hv] at h
        obtain ⟨b, hb, hvb⟩ := ih h
        exact ⟨b, by simp [hb], hvb⟩
      | some r' =>
        simp only [hv, Option.some.injEq] at h
        exact ⟨a, by simp, by rw [hv, h]⟩

lemma attempt_returns {v : α → Option (Option ρ)} (l₁ l₂ : List α) {b : α}
    (h : (firstOk v (l₁ ++ b :: l₂)).isSome) (hl : ∀ c ∈ l₁, ∀ r, v c ≠ some (some r)) :
    (v b).isSome := by
  induction l₁ with
  | nil =>
    simp only [List.nil_append, firstOk] at h
    cases hv : v b with
    | none => simp [hv] at h
    | some o => rfl
  | cons c l₁ ih =>
    simp only [List.cons_append, firstOk] at h
    cases hv : v c with
    | none => simp [hv] at h
    | some o =>
      cases o with
      | none =>
        simp only [hv] at h
        exact ih h fun c' hc' => hl c' (by simp [hc'])
      | some r => exact absurd hv (hl c (by simp) r)

/-! ### Fuel -/

lemma search_succ_mono {n : ℕ} {a : α} {r : Option ρ}
    (h : search pre next post n a = some r) : search pre next post (n + 1) a = some r := by
  induction n generalizing a r with
  | zero => simp [search] at h
  | succ n ih =>
    rw [search] at h ⊢
    cases hp : pre a with
    | some r' => simpa [hp] using h
    | none =>
      simp only [hp] at h ⊢
      cases hf : firstOk (search pre next post n) (next a) with
      | none => simp [hf] at h
      | some o =>
        rw [firstOk_mono (fun a r h => ih h) hf]
        simpa [hf] using h

lemma search_mono {n m : ℕ} (hnm : n ≤ m) {a : α} {r : Option ρ}
    (h : search pre next post n a = some r) : search pre next post m a = some r := by
  induction m, hnm using Nat.le_induction with
  | base => exact h
  | succ m _ ih => exact search_succ_mono ih

lemma found_of_search {n : ℕ} {a : α} {r : ρ} (h : search pre next post n a = some (some r)) :
    Found pre next post a := by
  induction n generalizing a r with
  | zero => simp [search] at h
  | succ n ih =>
    rw [search] at h
    cases hp : pre a with
    | some r' => exact ⟨a, .refl, by simp [hp]⟩
    | none =>
      simp only [hp] at h
      cases hf : firstOk (search pre next post n) (next a) with
      | none => simp [hf] at h
      | some o =>
        cases o with
        | none =>
          simp only [hf, Option.some.injEq] at h
          exact ⟨a, .refl, by simp [h]⟩
        | some r' =>
          obtain ⟨b, hb, hs⟩ := exists_of_firstOk hf
          exact (ih hs).head ⟨hp, hb⟩

lemma Tried.returns {n : ℕ} {a b : α} (ht : Tried pre next post a b)
    (h : (search pre next post (n + 1) a).isSome) : (search pre next post n b).isSome := by
  obtain ⟨hp, l₁, l₂, hn, hl⟩ := ht
  rw [search] at h
  simp only [hp, hn] at h
  refine attempt_returns l₁ l₂ ?_ fun c hc r hs => hl c hc (found_of_search hs)
  cases hf : firstOk (search pre next post n) (l₁ ++ b :: l₂) with
  | none => simp [hf] at h
  | some o => rfl

lemma returns_of_transGen {a b : α} (hab : TransGen (Tried pre next post) a b) {n : ℕ}
    (h : (search pre next post n a).isSome) : ∃ m < n, (search pre next post m b).isSome := by
  induction hab with
  | single ht =>
    cases n with
    | zero => simp [search] at h
    | succ n => exact ⟨n, Nat.lt_succ_self n, ht.returns h⟩
  | tail _ ht ih =>
    obtain ⟨m, hm, hs⟩ := ih
    cases m with
    | zero => simp [search] at hs
    | succ m => exact ⟨m, by omega, ht.returns hs⟩

lemma not_returns_of_cycle {a : α} (h : TransGen (Tried pre next post) a a) (n : ℕ) :
    ¬ (search pre next post n a).isSome := by
  induction n using Nat.strongRecOn with
  | _ n ih =>
    intro hs
    obtain ⟨m, hm, hs'⟩ := returns_of_transGen h hs
    exact ih m hm hs'

/-! ### Termination -/

/-- Where every tried node is accessible the search returns, with a hit if one can be reached. -/
lemma returns_of_acc {a : α} (h : Acc (fun b a => Tried pre next post a b) a) :
    ∃ n r, search pre next post n a = some r ∧ (r.isSome ↔ Found pre next post a) := by
  induction h with
  | intro a _ ih =>
    cases hp : pre a with
    | some r =>
      refine ⟨1, some r, by simp [search, hp], ?_⟩
      simp only [Option.isSome_some, true_iff]
      exact ⟨a, .refl, by simp [hp]⟩
    | none =>
      -- the attempts return: by induction on the successors still to be tried
      have attempts : ∀ l₁ l₂, next a = l₁ ++ l₂ → (∀ c ∈ l₁, ¬ Found pre next post c) →
          ∃ n o, firstOk (search pre next post n) l₂ = some o ∧
            (o.isSome ↔ ∃ b ∈ l₂, Found pre next post b) := by
        intro l₁ l₂
        induction l₂ generalizing l₁ with
        | nil => exact fun _ _ => ⟨0, none, rfl, by simp⟩
        | cons b l₂ ihl =>
          intro hn hl
          obtain ⟨n, r, hs, hr⟩ := ih b ⟨hp, l₁, l₂, hn, hl⟩
          cases r with
          | some r => exact ⟨n, some r, by simp [firstOk, hs], by simpa using .inl (hr.mp rfl)⟩
          | none =>
            have hb : ¬ Found pre next post b := fun hf => by simpa using hr.mpr hf
            obtain ⟨m, o, ho, hiff⟩ := ihl (l₁ ++ [b]) (by simp [hn])
              (by simpa [or_imp, forall_and] using ⟨hl, hb⟩)
            refine ⟨max n m, o, ?_, by simpa [hb] using hiff⟩
            simp only [firstOk, search_mono (le_max_left n m) hs]
            exact firstOk_mono (fun _ _ h => search_mono (le_max_right n m) h) ho
      obtain ⟨n, o, ho, hiff⟩ := attempts [] (next a) rfl (by simp)
      rw [found_iff]
      cases o with
      | some r =>
        refine ⟨n + 1, some r, by simp [search, hp, ho], ?_⟩
        simpa [hp] using .inr (hiff.mp rfl)
      | none =>
        refine ⟨n + 1, post a, by simp [search, hp, ho], ?_⟩
        have : ¬ ∃ b ∈ next a, Found pre next post b := fun hf => by simpa using hiff.mpr hf
        simp [hp, this]

lemma acc_of_no_cycle {a : α} (hfin : {b | pre b = none ∧ next b ≠ []}.Finite)
    (h : ∀ b, ReflTransGen (Tried pre next post) a b → ¬ TransGen (Tried pre next post) b b) :
    Acc (fun b a => Tried pre next post a b) a := by
  set R := Tried pre next post with hR
  -- the nodes the search can come to
  have hreach : {b | ReflTransGen R a b}.Finite := by
    have hsub : {b | ReflTransGen R a b} ⊆
        {a} ∪ ⋃ b ∈ {b | pre b = none ∧ next b ≠ []}, {c | c ∈ next b} := by
      intro b hb
      rcases ReflTransGen.cases_tail hb with rfl | ⟨c, -, hcb⟩
      · exact .inl rfl
      · have hl := hcb.link
        refine .inr (Set.mem_biUnion (x := c) ⟨hl.1, ?_⟩ hl.2)
        exact List.ne_nil_of_mem hl.2
    exact ((Set.finite_singleton a).union
      (hfin.biUnion fun b _ => (next b).finite_toSet)).subset hsub
  have : Finite {b // ReflTransGen R a b} := hreach.to_subtype
  let r : {b // ReflTransGen R a b} → {b // ReflTransGen R a b} → Prop :=
    fun c b => TransGen R b.1 c.1
  have hwf : WellFounded r := by
    have : Std.Irrefl r := ⟨fun b => h b.1 b.2⟩
    exact Finite.wellFounded_of_trans_of_irrefl r
  have key : ∀ b : {b // ReflTransGen R a b}, Acc (fun b a => R a b) b.1 := by
    intro b
    induction b using hwf.induction with
    | _ b ih =>
      refine ⟨_, fun c hc => ?_⟩
      exact ih ⟨c, b.2.tail hc⟩ (.single hc)
  exact key ⟨a, .refl⟩

/-- The search returns exactly when no node it comes to can be tried again from itself. -/
theorem terminates_iff {a : α} (hfin : {b | pre b = none ∧ next b ≠ []}.Finite) :
    (∃ n, (search pre next post n a).isSome) ↔
      ∀ b, ReflTransGen (Tried pre next post) a b → ¬ TransGen (Tried pre next post) b b := by
  constructor
  · rintro ⟨n, hn⟩ b hab hbb
    rcases reflTransGen_iff_eq_or_transGen.mp hab with rfl | hab
    · exact not_returns_of_cycle hbb n hn
    · obtain ⟨m, -, hm⟩ := returns_of_transGen hab hn
      exact not_returns_of_cycle hbb m hm
  · intro h
    obtain ⟨n, r, hs, -⟩ := returns_of_acc (acc_of_no_cycle hfin h)
    exact ⟨n, by simp [hs]⟩

/-! ### Searches along a list -/

section List

variable {present : α → Bool} {read : α → Option ρ}

/-- A reader that only reads where something is present may start at the first such place. -/
lemma findSome?_dropWhile (hread : ∀ a, present a = false → read a = none) (l : List α) :
    l.findSome? read = (l.dropWhile fun a => !present a).findSome? read := by
  induction l with
  | nil => rfl
  | cons a l ih =>
    cases hp : present a with
    | true => simp [hp]
    | false => simp [hp, hread a hp, ih]

/-- A search settles for its first place exactly if no later place answers what the first leaves
open. -/
lemma findSome?_eq_head_iff (l : List α) :
    l.findSome? read = l.head?.bind read ↔
      ∀ a, l.head? = some a → read a = none → ∀ b ∈ l.tail, read b = none := by
  cases l with
  | nil => simp
  | cons a l =>
    cases ha : read a with
    | some v => simp [ha]
    | none => simp [ha, List.findSome?_eq_none_iff]

end List

end FirstHit
