import GoSpidermonkey.Fs.Listing

/-!
# Recursive removal

`removeAll` of `fsextra.go`: list a directory, remove each entry, a directory by the same function,
and then the directory itself. The fuel counts the nested calls; each of them is for a longer name,
so more fuel than the longest name is enough.

A call for a directory takes out its subtree and nothing else (`Without`). The loop over a listing
keeps that the entries still to come are the ones that are left (`Listed`), so that the directory is
empty when the loop is through.
-/

open GoSpidermonkey.Path GoSpidermonkey.Fs

namespace GoSpidermonkey.Nodejs

open List Finmap

/-- What the functions on directory trees fail with. -/
inductive TreeErr
  | fs (e : PathError)
  /-- `fs.ReadDir` on something that is no directory. -/
  | notDir (path : Bytes)
  deriving DecidableEq

def readDir (fs : MemFS) (d : Bytes) : Except TreeErr (List DirEntry) :=
  match fs.openRead d with
  | .ok .dir => .ok (fs.entries d)
  | .ok _ => .error (.notDir d)
  | .error e => .error (.fs e)

/-- `Remove`, with the errors of `removeAll`. -/
def removeOne (fs : MemFS) (name : Bytes) : Except TreeErr Unit × MemFS :=
  match fs.remove name with
  | (.ok (), fs') => (.ok (), fs')
  | (.error e, fs') => (.error (.fs e), fs')

/-- The loop of `removeAll` over a listing, and the removal of the directory after it. -/
def removeEntries (removeDir : MemFS → Bytes → Option (Except TreeErr Unit × MemFS)) (d : Bytes) :
    List DirEntry → MemFS → Option (Except TreeErr Unit × MemFS)
  | [], fs => some (removeOne fs d)
  | e :: rest, fs =>
    let child := join [d, e.name]
    match if e.isDir then removeDir fs child else some (removeOne fs child) with
    | none => none
    | some (.error err, fs') => some (.error err, fs')
    | some (.ok (), fs') => removeEntries removeDir d rest fs'

/-- `removeAll`, with so many nested calls. -/
def removeAll : ℕ → MemFS → Bytes → Option (Except TreeErr Unit × MemFS)
  | 0, _, _ => none
  | n + 1, fs, d =>
    match readDir fs d with
    | .error e => some (.error e, fs)
    | .ok entries => removeEntries (removeAll n) d entries fs

/-! ### Taking out a node -/

variable {fs : MemFS} {m m' : Nodes} {d c : Bytes}

lemma without_trans {m₁ m₂ : Nodes} (h₁ : Without m m₁ c) (hcd : Within d c)
    (h₂ : Without m₁ m₂ d) : Without m m₂ d := by
  intro k
  rw [h₂ k]
  split_ifs with hk
  · rfl
  · have hout : ¬ Within c k := fun hck => by
      refine hk (within_iff.mpr ?_)
      rcases within_iff.mp hck with rfl | ⟨x, rfl⟩
      · exact within_iff.mp hcd
      · rcases within_iff.mp hcd with rfl | ⟨y, rfl⟩
        · exact .inr ⟨x, rfl⟩
        · exact .inr ⟨y ++ slash :: x, by simp⟩
    rw [h₁ k, if_neg hout]

lemma keys_subset_of_without (h : Without m m' c) : ∀ k ∈ m'.keys, k ∈ m.keys := by
  intro k hk
  obtain ⟨n, hn⟩ := mem_iff.mp (mem_keys.mp hk)
  rw [h k] at hn
  split_ifs at hn
  exact mem_keys.mpr (mem_of_lookup_eq_some hn)

lemma without_erase (h : ∀ x, m.lookup (under c x) = none) : Without m (m.erase c) c := by
  intro k
  split_ifs with hk
  · rcases within_iff.mp hk with rfl | ⟨x, rfl⟩
    · exact lookup_erase k m
    · rw [lookup_erase_ne (ne_under_self c x).symm, h]
  · exact lookup_erase_ne fun hkc => hk (.inl hkc)

lemma removeOne_eq (hfs : WellFormed fs.nodes) (hc : proper c) {n : Node}
    (hn : fs.nodes.lookup c = some n)
    (hempty : ∀ p x, fs.nodes.lookup p = some x → p ≠ root → dir p ≠ c) :
    ∃ m', removeOne fs c = (.ok (), { fs with nodes := m' }) ∧ Without fs.nodes m' c := by
  have hentry : ¬ fs.hasEntry c := by
    rintro ⟨p, hp, hdir⟩
    obtain ⟨x, hx⟩ := mem_iff.mp (mem_keys.mp hp)
    by_cases hroot : p = root
    · subst hroot
      exact proper_ne_root hc (hdir.symm.trans (by decide))
    · exact hempty p x hx hroot hdir
  have hnone : ∀ x, fs.nodes.lookup (under c x) = none := by
    intro x
    by_contra hne
    obtain ⟨y, hy⟩ := Option.ne_none_iff_exists'.mp hne
    obtain ⟨p, z, hp, hpne, hpd, -⟩ := hfs.exists_entry hc hy
    exact hempty p z hp hpne hpd
  refine ⟨fs.nodes.erase c, ?_, without_erase hnone⟩
  simp [removeOne, MemFS.remove, validPath_of_proper hc, proper_ne_root hc, hn, hentry]

/-! ### The loop -/

/-- The entries are those that the directory has. -/
structure Listed (m : Nodes) (d : Bytes) (es : List DirEntry) : Prop where
  present : ∀ e ∈ es, ∃ n, m.lookup (join [d, e.name]) = some n ∧
    join [d, e.name] ≠ root ∧ dir (join [d, e.name]) = d ∧ e.isDir = isDir n.mode
  complete : ∀ p n, m.lookup p = some n → p ≠ root → dir p = d → ∃ e ∈ es, p = join [d, e.name]
  distinct : es.Pairwise fun a b => join [d, a.name] ≠ join [d, b.name]

lemma listed_entries (hfs : WellFormed fs.nodes) (d : Bytes) :
    Listed fs.nodes d (fs.entries d) where
  present := by
    intro e he
    obtain ⟨p, n, hp, hne, rfl, rfl⟩ := mem_entries.mp he
    have hjoin := join_dir_base (hfs.proper p n hp hne)
    rw [hjoin]
    exact ⟨n, hp, hne, rfl, rfl⟩
  complete := by
    rintro p n hp hne rfl
    exact ⟨⟨base p, isDir n.mode⟩, mem_entries.mpr ⟨p, n, hp, hne, rfl, rfl⟩,
      (join_dir_base (hfs.proper p n hp hne)).symm⟩
  distinct := by
    have hnodup := pairwise_map.mp (nodup_entries hfs d)
    refine hnodup.imp_of_mem fun {a b} ha hb hne hjoin => hne ?_
    have hname : ∀ e ∈ fs.entries d, base (join [d, e.name]) = e.name := by
      intro e he
      obtain ⟨p, n, hp, hpne, rfl, rfl⟩ := mem_entries.mp he
      rw [join_dir_base (hfs.proper p n hp hpne)]
    rw [← hname a ha, ← hname b hb, hjoin]

lemma Listed.tail {e : DirEntry} {es : List DirEntry} (hm : WellFormed m) (h : Listed m d (e :: es))
    (hw : Without m m' (join [d, e.name])) : Listed m' d es := by
  have hproper : ∀ a ∈ e :: es, proper (join [d, a.name]) ∧ dir (join [d, a.name]) = d := by
    intro a ha
    obtain ⟨n, hn, hne, hdir, -⟩ := h.present a ha
    exact ⟨hm.proper _ n hn hne, hdir⟩
  have he := hproper e mem_cons_self
  refine ⟨fun a ha => ?_, fun p n hp hne hdir => ?_, (pairwise_cons.mp h.distinct).2⟩
  · obtain ⟨n, hn, hne, hdir, hmode⟩ := h.present a (mem_cons_of_mem _ ha)
    have hout : ¬ Within (join [d, e.name]) (join [d, a.name]) :=
      not_within_sibling he.1 (hproper a (mem_cons_of_mem _ ha)).1 (he.2.trans hdir.symm)
        ((pairwise_cons.mp h.distinct).1 a ha)
    exact ⟨n, by rw [hw, if_neg hout, hn], hne, hdir, hmode⟩
  · rw [hw p] at hp
    split_ifs at hp with hin
    obtain ⟨a, ha, rfl⟩ := h.complete p n hp hne hdir
    rcases mem_cons.mp ha with rfl | hrest
    · exact absurd (.inl rfl) hin
    · exact ⟨a, hrest, rfl⟩

/-- The nested calls take out the directories they are for, as long as no name is longer than theirs
by `len`. -/
def RemovesDirs (removeDir : MemFS → Bytes → Option (Except TreeErr Unit × MemFS)) (len : ℕ) :
    Prop :=
  ∀ fs c, WellFormed fs.nodes → proper c → IsDirAt fs.nodes c →
    (∀ k ∈ fs.nodes.keys, k.length < c.length + len) →
    ∃ m', removeDir fs c = some (.ok (), { fs with nodes := m' }) ∧ Without fs.nodes m' c

lemma within_of_entry (hd : proper d) {p : Bytes} (hp : proper p) (hdir : dir p = d) :
    Within d p ∧ d.length < p.length := by
  obtain ⟨x, rfl⟩ := under_of_dir hd hp (.inl hdir)
  exact ⟨within_iff.mpr (.inr ⟨x, rfl⟩), by simp⟩

lemma not_within_of_length {k : Bytes} (h : k.length < c.length) : ¬ Within c k := by
  rw [within_iff]
  rintro (rfl | ⟨x, rfl⟩)
  · omega
  · simp only [length_append, length_cons] at h
    omega

lemma removeEntries_spec {removeDir : MemFS → Bytes → Option (Except TreeErr Unit × MemFS)}
    {len : ℕ}
    (hrec : RemovesDirs removeDir len) (hd : proper d) (es : List DirEntry)
    (hfs : WellFormed fs.nodes) (hdir : IsDirAt fs.nodes d) (hlisted : Listed fs.nodes d es)
    (hlen : ∀ k ∈ fs.nodes.keys, k.length < d.length + (len + 1)) :
    ∃ m', removeEntries removeDir d es fs = some (.ok (), { fs with nodes := m' }) ∧
      Without fs.nodes m' d := by
  induction es generalizing fs with
  | nil =>
    obtain ⟨n, hn, -⟩ := isDirAt_iff.mp hdir
    obtain ⟨m', heq, hw⟩ := removeOne_eq hfs hd hn fun p x hp hne hpd => by
      obtain ⟨e, he, -⟩ := hlisted.complete p x hp hne hpd
      cases he
    exact ⟨m', by rw [removeEntries, heq], hw⟩
  | cons e es ih =>
    obtain ⟨n, hn, hne, hpd, hmode⟩ := hlisted.present e mem_cons_self
    have hchild := hfs.proper _ n hn hne
    obtain ⟨hwithin, hlonger⟩ := within_of_entry hd hchild hpd
    -- a directory goes with everything in it, a file has nothing in it
    obtain ⟨m₁, hstep, hw⟩ : ∃ m₁, (if e.isDir then removeDir fs (join [d, e.name])
        else some (removeOne fs (join [d, e.name]))) = some (.ok (), { fs with nodes := m₁ }) ∧
        Without fs.nodes m₁ (join [d, e.name]) := by
      by_cases hedir : e.isDir
      · rw [if_pos hedir]
        refine hrec fs _ hfs hchild (isDirAt_iff.mpr ⟨n, hn, hmode ▸ hedir⟩) fun k hk => ?_
        have := hlen k hk
        omega
      · rw [if_neg hedir]
        obtain ⟨m₁, heq, hw⟩ := removeOne_eq hfs hchild hn fun p x hp hpne => by
          refine hfs.no_entries hp hpne fun y hy => ?_
          obtain rfl : n = y := by simpa [hn] using hy
          simpa [hmode] using hedir
        exact ⟨m₁, by rw [heq], hw⟩
    have hdir₁ : IsDirAt m₁ d := by
      obtain ⟨x, hx, hxd⟩ := isDirAt_iff.mp hdir
      exact isDirAt_iff.mpr ⟨x, by rw [hw, if_neg (not_within_of_length hlonger), hx], hxd⟩
    have hfs₁ : WellFormed { fs with nodes := m₁ }.nodes := hfs.without hchild hw
    obtain ⟨m', heq, hw'⟩ := ih hfs₁ hdir₁
      (hlisted.tail hfs hw) fun k hk => hlen k (keys_subset_of_without hw k hk)
    exact ⟨m', by simp only [removeEntries, hstep, heq], without_trans hw hwithin hw'⟩

/-! ### All calls -/

lemma removesDirs_removeAll (n : ℕ) : RemovesDirs (removeAll n) n := by
  induction n with
  | zero =>
    intro fs c hfs hc hdir hlen
    obtain ⟨x, hx, -⟩ := isDirAt_iff.mp hdir
    have := hlen c (mem_keys.mpr (mem_of_lookup_eq_some hx))
    omega
  | succ n ih =>
    intro fs c hfs hc hdir hlen
    obtain ⟨x, hx, hxd⟩ := isDirAt_iff.mp hdir
    have hread : readDir fs c = .ok (fs.entries c) := by
      simp [readDir, MemFS.openRead, validPath_of_proper hc, hx, hxd]
    obtain ⟨m', heq, hw⟩ := removeEntries_spec ih hc _ hfs hdir (listed_entries hfs c) hlen
    exact ⟨m', by rw [removeAll, hread]; exact heq, hw⟩

/-- Recursive removal of a directory succeeds, and leaves the file system without its subtree. -/
theorem removeAll_takes_out_subtree (fs : MemFS) (d : Bytes) (hfs : WellFormed fs.nodes)
    (hdir : IsDirAt fs.nodes d) (hroot : d ≠ root) :
    ∃ fs', (∃ N, ∀ n, N ≤ n → removeAll n fs d = some (.ok (), fs')) ∧
      ∀ k, fs'.nodes.lookup k =
        if k = d ∨ (d ++ [slash]).isPrefixOf k then none else fs.nodes.lookup k := by
  obtain ⟨x, hx, -⟩ := isDirAt_iff.mp hdir
  have hd := hfs.proper d x hx hroot
  have hrun : ∀ n, fs.nodes.keys.sup List.length < n →
      ∃ m', removeAll n fs d = some (.ok (), { fs with nodes := m' }) ∧ Without fs.nodes m' d := by
    intro n hn
    refine removesDirs_removeAll n fs d hfs hd hdir fun k hk => ?_
    have := Finset.le_sup (f := List.length) hk
    omega
  obtain ⟨m', -, hw⟩ := hrun _ (Nat.lt_succ_self _)
  refine ⟨{ fs with nodes := m' }, ⟨fs.nodes.keys.sup List.length + 1, fun n hn => ?_⟩, hw⟩
  -- what is left is the same for every amount of fuel
  obtain ⟨m'', heq, hw'⟩ := hrun n hn
  obtain rfl : m'' = m' := ext_lookup fun k => by rw [hw k, hw' k]
  exact heq

/-- A directory with a file and a directory in it, and a file beside it that begins with
its name. -/
def nested : MemFS :=
  (((((new 0).mkdir (str "a") 0o755 1).2.mkdir (str "a/b") 0o755 2).2.writeFile (str "a/b/f")
    (str "x") 0o644 3).2.writeFile (str "ab") (str "y") 0o644 4).2

lemma nested_wellFormed : WellFormed nested.nodes :=
  ((((Session.wellFormed_start 0).mkdir (str "a") 0o755 1).mkdir (str "a/b") 0o755 2).writeFile
    (str "a/b/f") (str "x") 0o644 3).writeFile (str "ab") (str "y") 0o644 4

theorem nested_without_dir :
    ∃ fs', (∃ N, ∀ n, N ≤ n → removeAll n nested (str "a") = some (.ok (), fs')) ∧
      ∀ k, fs'.nodes.lookup k = if k = str "a" ∨ (str "a" ++ [slash]).isPrefixOf k then none
        else nested.nodes.lookup k :=
  removeAll_takes_out_subtree nested (str "a") nested_wellFormed (by decide +kernel) (by decide)

end GoSpidermonkey.Nodejs
