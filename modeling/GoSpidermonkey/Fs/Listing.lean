import GoSpidermonkey.Fs.Calls

/-!
# Directory listings

`Open` on a directory lists the keys of the flat map whose directory it is, each by its last
element. In a tree, a listing has each entry once, under the name that leads back to its key, and
every name below a directory is an entry of it or lies below one of its entries.
-/

open GoSpidermonkey.Path

namespace GoSpidermonkey.Fs

open List

/-! ### Entries -/

/-- What an `fs.DirEntry` says. -/
structure DirEntry where
  name : Bytes
  isDir : Bool

def entryOf (m : Nodes) (p : Bytes) : DirEntry := ⟨base p, IsDirAt m p⟩

/-- `entriesLocked`: the loop finds the keys in some order, and the entries are sorted by name. -/
def MemFS.entries (fs : MemFS) (d : Bytes) : List DirEntry :=
  (((fs.nodes.keys.filter fun p => p ≠ root ∧ dir p = d).sort (· ≤ ·)).map
    (entryOf fs.nodes)).insertionSort fun a b => a.name ≤ b.name

variable {fs : MemFS} {d : Bytes}

lemma mem_entries {e : DirEntry} : e ∈ fs.entries d ↔
    ∃ p n, fs.nodes.lookup p = some n ∧ p ≠ root ∧ dir p = d ∧ e = ⟨base p, isDir n.mode⟩ := by
  unfold MemFS.entries
  rw [(perm_insertionSort _ _).mem_iff, mem_map]
  simp only [Finset.mem_sort, Finset.mem_filter, Finmap.mem_keys]
  constructor
  · rintro ⟨p, ⟨hp, hne, hdir⟩, rfl⟩
    obtain ⟨n, hn⟩ := Finmap.mem_iff.mp hp
    exact ⟨p, n, hn, hne, hdir, by simp [entryOf, IsDirAt, hn]⟩
  · rintro ⟨p, n, hn, hne, hdir, rfl⟩
    exact ⟨p, ⟨Finmap.mem_of_lookup_eq_some hn, hne, hdir⟩, by simp [entryOf, IsDirAt, hn]⟩

lemma join_dir_base {p : Bytes} (hp : proper p) : join [dir p, base p] = p := by
  rcases eq_dir_append_base hp with ⟨hdir, hbase, -⟩ | ⟨hdir, heq, -⟩
  · rw [hdir, hbase, join_root hp]
  · have hbase : proper (base p) := by
      have hp' := hp
      rw [heq, proper_append_slash, Bool.and_eq_true] at hp'
      exact hp'.2
    rw [join_proper hdir hbase, ← heq]

example : join [dir (str "a/b"), base (str "a/b")] = str "a/b" := by decide +kernel

lemma nodup_entries (h : WellFormed fs.nodes) (d : Bytes) :
    ((fs.entries d).map DirEntry.name).Nodup := by
  unfold MemFS.entries
  refine (((perm_insertionSort _ _).map _).nodup_iff).mpr ?_
  rw [map_map]
  refine List.Nodup.map_on (fun p hp q hq hpq => ?_) (Finset.sort_nodup _ _)
  simp only [Finset.mem_sort, Finset.mem_filter, Finmap.mem_keys] at hp hq
  have hkey : ∀ k, k ∈ fs.nodes ∧ k ≠ root ∧ dir k = d → join [d, base k] = k := by
    rintro k ⟨hmem, hne, rfl⟩
    obtain ⟨n, hn⟩ := Finmap.mem_iff.mp hmem
    exact join_dir_base (h.proper k n hn hne)
  have hbase : base p = base q := hpq
  rw [← hkey p hp, ← hkey q hq, hbase]

/-! ### Taking out a subtree -/

/-- The name is `d`, or lies inside it. -/
def Within (d k : Bytes) : Prop := k = d ∨ (d ++ [slash]).isPrefixOf k

instance (d k : Bytes) : Decidable (Within d k) := inferInstanceAs (Decidable (_ ∨ _))

lemma within_iff {k : Bytes} : Within d k ↔ k = d ∨ ∃ x, k = under d x := by
  rw [Within, isPrefixOf_slash]

/-- `m'` has the nodes of `m` outside of the subtree at `d`. -/
def Without (m m' : Nodes) (d : Bytes) : Prop :=
  ∀ k, m'.lookup k = if Within d k then none else m.lookup k

lemma within_of_dir {k : Bytes} (hd : proper d) (hk : proper k) (h : Within d (dir k)) :
    ∃ x, k = under d x :=
  under_of_dir hd hk (within_iff.mp h)

lemma WellFormed.without {m m' : Nodes} (h : WellFormed m) (hd : Path.proper d)
    (hw : Without m m' d) : WellFormed m' := by
  have hsub : ∀ k n, m'.lookup k = some n → m.lookup k = some n ∧ ¬ Within d k := by
    intro k n hk
    rw [hw k] at hk
    split_ifs at hk with hin
    exact ⟨hk, hin⟩
  refine ⟨?_, fun k n hk => h.proper k n (hsub k n hk).1, fun k n hk hne => ?_,
    fun k n hk => h.empty k n (hsub k n hk).1⟩
  · obtain ⟨r, hr, hrd⟩ := h.root
    have hnot : ¬ Within d Path.root := by
      rw [within_iff]
      rintro (hroot | ⟨x, hx⟩)
      · exact proper_ne_root hd hroot.symm
      · exact root_ne_under d x hx
    exact ⟨r, by rw [hw, if_neg hnot, hr], hrd⟩
  · obtain ⟨hold, hout⟩ := hsub k n hk
    obtain ⟨p, hp, hpd⟩ := h.parent k n hold hne
    have hnot : ¬ Within d (dir k) := fun hin =>
      hout (within_iff.mpr (.inr (within_of_dir hd (h.proper k n hold hne) hin)))
    exact ⟨p, by rw [hw, if_neg hnot, hp], hpd⟩

lemma WellFormed.exists_entry {m : Nodes} (h : WellFormed m) (hd : Path.proper d) {x : Bytes}
    {n : Node} (hn : m.lookup (under d x) = some n) :
    ∃ p c, m.lookup p = some c ∧ p ≠ Path.root ∧ dir p = d ∧ Within p (under d x) := by
  -- by induction on the length of the name inside: the directory has a shorter one
  induction hlen : x.length using Nat.strong_induction_on generalizing x n with
  | _ len ih =>
    have hne := (root_ne_under d x).symm
    have hp := h.proper _ n hn hne
    rcases dir_under hd hp hd with ⟨hdir, -⟩ | ⟨y, hlt, hdir, -⟩
    · exact ⟨under d x, n, hn, hne, hdir, .inl rfl⟩
    · obtain ⟨c, hc, -⟩ := h.parent _ n hn hne
      obtain ⟨p, c', hp', hpne, hpd, hin⟩ := ih y.length (hlen ▸ hlt) (hdir ▸ hc) rfl
      refine ⟨p, c', hp', hpne, hpd, ?_⟩
      rw [← hdir] at hin
      exact within_iff.mpr (.inr (within_of_dir (h.proper p c' hp' hpne) hp hin))

lemma not_within_sibling {p q : Bytes} (hp : proper p) (hq : proper q) (hdir : dir p = dir q)
    (hne : p ≠ q) : ¬ Within p q := by
  rw [within_iff]
  rintro (rfl | ⟨x, rfl⟩)
  · exact hne rfl
  · rcases dir_under hp hq hp with ⟨hd, -⟩ | ⟨y, -, hd, -⟩
    · exact dir_ne_self hp (hdir.trans hd)
    · -- the directory of the outer one would lie inside it
      have hlen : (dir p).length < p.length ∨ dir p = root ∨ dir p = [slash] := by
        rcases dir_shorter p with h | h | h
        · exact .inr (.inl h)
        · exact .inr (.inr h)
        · exact .inl h
      rw [hdir, hd] at hlen
      rcases hlen with h | h | h
      · simp at h
      · exact root_ne_under p y h.symm
      · have hpos := length_pos_iff.mpr (proper_ne_nil hp)
        have := congrArg List.length h
        simp only [length_append, length_cons, length_nil] at this
        omega

end GoSpidermonkey.Fs
