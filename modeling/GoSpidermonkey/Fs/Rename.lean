import GoSpidermonkey.Fs.Calls

/-!
# What a rename does

`renamed` is the map a rename should leave: the old name and everything inside it is found at the
new name, and nothing else has changed. `Rename` gets there by moving keys in the map that it ranges
over, so a key that it has just inserted may come up again. As long as the new name lies outside the
old directory, no inserted key is moved a second time, and the order of the range does not matter. A
directory that is renamed to a name inside itself takes that very name along.
-/

open GoSpidermonkey.Path

namespace GoSpidermonkey.Fs

open MemFS

/-- The node at a name once `oldname`, and everything inside it, is at `newname`. -/
def renamed (m : Nodes) (oldname newname k : Bytes) : Option Node :=
  if k = newname then m.lookup oldname
  else if (newname ++ [slash]).isPrefixOf k then
    m.lookup (under oldname (k.drop (newname.length + 1)))
  else if k = oldname ∨ (oldname ++ [slash]).isPrefixOf k then none
  else m.lookup k

section

variable {m m' : Nodes} {a b k : Bytes}

@[simp] lemma renamed_new : renamed m a b b = m.lookup a := by
  simp [renamed]

@[simp] lemma renamed_under_new (x : Bytes) :
    renamed m a b (under b x) = m.lookup (under a x) := by
  have hp : (b ++ [slash]).isPrefixOf (under b x) := isPrefixOf_slash.mpr ⟨x, rfl⟩
  have hdrop : (under b x).drop (b.length + 1) = x := by simp [under]
  rw [renamed, if_neg (ne_under_self b x).symm, if_pos hp, hdrop]

lemma renamed_of_not_new (hb : k ≠ b) (hub : ∀ x, k ≠ under b x) :
    renamed m a b k = if k = a ∨ (a ++ [slash]).isPrefixOf k then none else m.lookup k := by
  have hp : ¬ (b ++ [slash]).isPrefixOf k := fun hp => by
    obtain ⟨x, hx⟩ := isPrefixOf_slash.mp hp
    exact hub x hx
  rw [renamed, if_neg hb, if_neg hp]

lemma eq_renamed (hnew : m'.lookup b = m.lookup a)
    (hinNew : ∀ x, m'.lookup (under b x) = m.lookup (under a x))
    (hold : ∀ k, k ≠ b → (∀ x, k ≠ under b x) → (k = a ∨ ∃ x, k = under a x) → m'.lookup k = none)
    (hother : ∀ k, k ≠ b → (∀ x, k ≠ under b x) → k ≠ a → (∀ x, k ≠ under a x) →
      m'.lookup k = m.lookup k) (k : Bytes) :
    m'.lookup k = renamed m a b k := by
  by_cases hb : k = b
  · subst hb
    rw [hnew, renamed_new]
  by_cases hub : ∃ x, k = under b x
  · obtain ⟨x, rfl⟩ := hub
    rw [hinNew, renamed_under_new]
  have hub' : ∀ x, k ≠ under b x := fun x hx => hub ⟨x, hx⟩
  rw [renamed_of_not_new hb hub']
  split_ifs with hk
  · exact hold k hb hub' (hk.imp_right isPrefixOf_slash.mp)
  · obtain ⟨hka, hua⟩ := not_or.mp hk
    exact hother k hb hub' hka fun x hx => hua (isPrefixOf_slash.mpr ⟨x, hx⟩)

lemma MovedTo.eq_renamed {n : Node} (h : MovedTo m a b n m') (hn : m.lookup a = some n)
    (k : Bytes) :
    m'.lookup k = renamed m a b k := by
  refine Fs.eq_renamed (by rw [h.new, hn]) h.inNew ?_ ?_ k
  · rintro k - - (rfl | ⟨x, rfl⟩)
    · exact h.old
    · exact h.inOld x
  · intro k hb hub hka hua
    exact h.other k hka hb hua hub

lemma eq_renamed_file (h : WellFormed m) {n : Node} (hr : Renamable m a b n)
    (hfile : isDir n.mode = false) (k : Bytes) :
    ((m.erase a).insert b n).lookup k = renamed m a b k := by
  have hsource : ∀ t, m.lookup a = some t → isDir t.mode = false := by
    intro t ht
    obtain rfl : n = t := by simpa [hr.source] using ht
    exact hfile
  have hina := no_names_under h hr.old hsource
  have hinb := no_names_under h hr.new hr.target_file
  refine eq_renamed (by rw [Finmap.lookup_insert, hr.source]) (fun x => ?_) ?_ ?_ k
  · have hax : under b x ≠ a := by
      rintro rfl
      have := hinb x
      simp [hr.source] at this
    rw [Finmap.lookup_insert_of_ne _ (ne_under_self b x).symm, Finmap.lookup_erase_ne hax, hinb,
      hina]
  · rintro k hb - (rfl | ⟨x, rfl⟩)
    · rw [Finmap.lookup_insert_of_ne _ hb, Finmap.lookup_erase]
    · rw [Finmap.lookup_insert_of_ne _ hb, Finmap.lookup_erase_ne (ne_under_self a x).symm, hina]
  · intro k hb _ hka _
    rw [Finmap.lookup_insert_of_ne _ hb, Finmap.lookup_erase_ne hka]

end

/-- A rename that succeeds moves exactly a subtree, and one that fails changes nothing. -/
def MovesSubtree (fs : MemFS) (oldname newname : Bytes) (order : List Bytes) : Prop :=
  match fs.rename oldname newname order with
  | (.ok (), fs') => ∀ k, fs'.nodes.lookup k = renamed fs.nodes oldname newname k
  | (.error _, fs') => fs' = fs

/-- A rename moves exactly a subtree, unless it moves a directory into itself. -/
theorem movesSubtree_iff {fs : MemFS} (hfs : WellFormed fs.nodes) {oldname newname : Bytes}
    {order : List Bytes} (hvisits : Visits fs.nodes oldname newname order) :
    MovesSubtree fs oldname newname order ↔ ¬ IntoItself fs.nodes oldname newname := by
  rcases rename_cases fs oldname newname order with ⟨e, heq, hnot⟩ | ⟨n, hr, heq⟩
  · simp only [MovesSubtree, heq]
    exact iff_of_true trivial hnot
  · simp only [MovesSubtree, heq, hr.intoItself_iff, renameNodes]
    by_cases hdir : isDir n.mode
    · simp only [hdir, if_true, true_and]
      by_cases hin : ∃ x, newname = under oldname x
      · refine iff_of_false (fun hall => ?_) (not_not.mpr hin)
        obtain ⟨c, rfl⟩ := hin
        -- the new name is moved along when the loop comes to it, and never comes back
        have hself := hall (under oldname c)
        rw [lookup_move_old fun y => (ne_under_self _ y).symm, if_pos hvisits.1, renamed_new,
          hr.source] at hself
        cases hself
      · have hout : ∀ x, newname ≠ under oldname x := fun x hx => hin ⟨x, hx⟩
        have hmoved := movedTo_foldl hfs hr.new hr.source hdir hr.target_file hout
          (mem_order hvisits n)
        exact iff_of_true (hmoved.eq_renamed hr.source) hin
    · simp only [hdir, Bool.false_eq_true, if_false, false_and, not_false_eq_true, iff_true]
      exact eq_renamed_file hfs hr (by simpa using hdir)

/-- A directory `a` with a file in it, as the calls of a session make it. -/
def withDir : MemFS :=
  (((new 0).mkdir (str "a") 0o755 1).2.writeFile (str "a/f") (str "x") 0o644 2).2

lemma withDir_wellFormed : WellFormed withDir.nodes :=
  ((Session.wellFormed_start 0).mkdir (str "a") 0o755 1).writeFile (str "a/f") (str "x") 0o644 2

/-- The directory is renamed to a name beside it, and the range happens to visit what it inserts. -/
theorem movesSubtree_withDir : Visits withDir.nodes (str "a") (str "b")
      [str ".", str "b", str "a/f", str "b/f"] ∧
    MovesSubtree withDir (str "a") (str "b") [str ".", str "b", str "a/f", str "b/f"] := by
  have hvisits : Visits withDir.nodes (str "a") (str "b")
      [str ".", str "b", str "a/f", str "b/f"] := by decide +kernel
  exact ⟨hvisits, (movesSubtree_iff withDir_wellFormed hvisits).mpr (by decide +kernel)⟩

/-- The directory is renamed to a name inside itself: the call succeeds, and nothing is at the new
name. -/
theorem renamed_into_itself : WellFormed withDir.nodes ∧
    Visits withDir.nodes (str "a") (str "a/b") [str ".", str "a/b", str "a/f"] ∧
    (withDir.rename (str "a") (str "a/b") [str ".", str "a/b", str "a/f"]).1 = .ok () ∧
    (withDir.rename (str "a") (str "a/b") [str ".", str "a/b", str "a/f"]).2.nodes.lookup
      (str "a/b") = none ∧
    ¬ MovesSubtree withDir (str "a") (str "a/b") [str ".", str "a/b", str "a/f"] := by
  have hok : (withDir.rename (str "a") (str "a/b") [str ".", str "a/b", str "a/f"]).1 = .ok () := by
    decide +kernel
  have hnone : (withDir.rename (str "a") (str "a/b") [str ".", str "a/b", str "a/f"]).2.nodes.lookup
      (str "a/b") = none := by
    decide +kernel
  refine ⟨withDir_wellFormed, by decide +kernel, hok, hnone, fun hmoves => ?_⟩
  unfold MovesSubtree at hmoves
  split at hmoves
  next fs' heq =>
    have hnew := hmoves (str "a/b")
    rw [heq] at hnone
    rw [hnone, renamed_new] at hnew
    exact absurd hnew.symm (by decide +kernel)
  next e fs' heq =>
    rw [heq] at hok
    cases hok

end GoSpidermonkey.Fs
