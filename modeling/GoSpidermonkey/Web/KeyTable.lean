import GoSpidermonkey.Lib.Machine
import GoSpidermonkey.Lib.Recency
import GoSpidermonkey.Web.AlgBinding

/-!
# The key table

The host's table of keys over whole sequences of `put`, `get` and `reset`. The log of what the calls
returned says which keys were put since the last reset and when each of them was used, by its `put`
or by a `get` that found it. An id can be drawn again once its key is gone, so the keys are counted
by their `put`s. The table holds the most recently used of them, up to its capacity
(`keyTable_lru`).
-/

namespace GoSpidermonkey.Web.Subtle.KeyTable

open Recency List

inductive Op
  | put (draws : List ℕ) (k : SubtleKey)
  | get (id : ℕ)
  | reset

inductive Event
  | issued (id : ℕ) (k : SubtleKey)
  | got (id : ℕ) (k : SubtleKey)
  | unknown (id : ℕ)
  | dropped

/-- One operation. A `put` that has only drawn ids it cannot take is still in its loop. -/
def step (s : KeyTable × List Event) : Op → Option (KeyTable × List Event)
  | .put draws k => (s.1.put draws k).map fun r => (r.2, s.2 ++ [.issued r.1 k])
  | .get id =>
    match s.1.get id with
    | some r => some (r.2, s.2 ++ [.got id r.1])
    | none => some (s.1, s.2 ++ [.unknown id])
  | .reset => some (KeyTable.reset, s.2 ++ [.dropped])

/-! ### Keys and their uses -/

/-- The ids and keys put since the last reset, and the numbers of the keys in the order in which
they were used. -/
structure Uses where
  issued : List (ℕ × SubtleKey)
  uses : List ℕ

namespace Uses

variable (h : Uses)

def idOf (m : ℕ) : ℕ := (h.issued.map Prod.fst).getD m 0

def keyOf (m : ℕ) : Option SubtleKey := h.issued[m]?.map Prod.snd

def last (id : ℕ) : Option ℕ := (List.range h.issued.length).reverse.find? fun m => h.idOf m = id

def add : Event → Uses
  | .issued id k => ⟨h.issued ++ [(id, k)], h.uses ++ [h.issued.length]⟩
  | .got id _ => ⟨h.issued, h.uses ++ (h.last id).toList⟩
  | .unknown _ => h
  | .dropped => ⟨[], []⟩

def held : List ℕ := (recent h.uses).take maxSubtleKeys

end Uses

def usesOf (log : List Event) : Uses := log.foldl Uses.add ⟨[], []⟩

lemma usesOf_snoc (log : List Event) (e : Event) : usesOf (log ++ [e]) = (usesOf log).add e :=
  foldl_append

namespace Uses

variable (h : Uses) (id : ℕ) (k : SubtleKey)

variable {m : ℕ}

lemma idOf_issued (hm : m < h.issued.length) :
    (h.add (.issued id k)).idOf m = h.idOf m ∧ (h.add (.issued id k)).keyOf m = h.keyOf m := by
  constructor
  · rw [idOf, idOf, add, map_append, getD_append _ _ _ _ (by rwa [length_map])]
  · rw [keyOf, keyOf, add, getElem?_append_left hm]

lemma idOf_issued_self :
    (h.add (.issued id k)).idOf h.issued.length = id ∧
      (h.add (.issued id k)).keyOf h.issued.length = some k := by
  simp [idOf, keyOf, add]

lemma getElem?_issued (hm : m < h.issued.length) {e : ℕ × SubtleKey} :
    h.issued[m]? = some e ↔ h.idOf m = e.1 ∧ h.keyOf m = some e.2 := by
  rw [idOf, keyOf, getD_eq_getElem _ _ (by rwa [length_map]), getElem?_eq_getElem hm]
  simp [Prod.ext_iff]

lemma find?_range_reverse {p : ℕ → Prop} [DecidablePred p] {n : ℕ} (hm : m < n) (hp : p m)
    (hlast : ∀ i < n, p i → i ≤ m) : (List.range n).reverse.find? (fun i => p i) = some m := by
  induction n with
  | zero => omega
  | succ n ih =>
    rw [range_succ, reverse_append, reverse_singleton, singleton_append]
    by_cases hn : m = n
    · rw [hn] at hp
      rw [find?_cons_of_pos (by simpa using hp), hn]
    · have hnot : ¬ p n := fun h => by
        have := hlast n (by omega) h
        omega
      rw [find?_cons_of_neg (by simpa using hnot)]
      exact ih (by omega) fun i hi => hlast i (by omega)

end Uses

/-! ### One operation -/

/-- The table holds the most recently used keys. -/
structure Tracks (t : KeyTable) (h : Uses) : Prop where
  coherent : t.Coherent
  lru_eq : t.lru = h.held.map h.idOf
  lookup : ∀ m ∈ h.held, t.keys.lookup (h.idOf m) = h.keyOf m
  mem_uses : ∀ m, m ∈ h.uses ↔ m < h.issued.length
  latest : ∀ m ∈ h.held, ∀ m' < h.issued.length, h.idOf m' = h.idOf m → m' ≤ m

lemma tracks_reset : Tracks reset ⟨[], []⟩ where
  coherent := ⟨nodup_nil, rfl, rfl⟩
  lru_eq := rfl
  lookup := fun m hm => nomatch hm
  mem_uses := by simp
  latest := fun m hm => nomatch hm

namespace Tracks

variable {t : KeyTable} {h : Uses}

variable (ht : Tracks t h)
include ht

lemma lt_length {m : ℕ} (hm : m ∈ h.held) : m < h.issued.length :=
  (ht.mem_uses m).mp (mem_recent.mp (mem_of_mem_take hm))

variable {id : ℕ}

lemma mem_keys : id ∈ t.keys ↔ ∃ m ∈ h.held, h.idOf m = id := by
  rw [← Finmap.mem_keys, ← ht.coherent.lru_eq, mem_toFinset, ht.lru_eq, mem_map]

/-- The list after a `put`, and the keys that stay. -/
lemma held_issued (id : ℕ) (k : SubtleKey) :
    (h.add (.issued id k)).held = h.issued.length :: (recent h.uses).take (maxSubtleKeys - 1) := by
  have hnew : h.issued.length ∉ recent h.uses := by
    rw [mem_recent, ht.mem_uses]
    exact lt_irrefl _
  have hheld : (h.add (.issued id k)).held =
      (recent (h.uses ++ [h.issued.length])).take (maxSubtleKeys - 1 + 1) := rfl
  rw [hheld, recent_snoc, take_touch_of_notMem _ hnew]

lemma length_lru : t.lru.length = min maxSubtleKeys (recent h.uses).length := by
  rw [ht.lru_eq, length_map, Uses.held, length_take]

lemma card_insert (hfree : t.Free id) (k : SubtleKey) :
    (t.keys.insert id k).keys.card = t.lru.length + 1 := by
  have hid : id ∉ t.keys.keys := fun hmem => hfree.2 (Finmap.mem_keys.mp hmem)
  rw [keys_insert, Finset.card_insert_of_notMem hid, ← ht.coherent.lru_eq,
    toFinset_card_of_nodup ht.coherent.nodup]

lemma lru_store (hfree : t.Free id) (k : SubtleKey) :
    (t.store id k).lru = id :: ((recent h.uses).take (maxSubtleKeys - 1)).map h.idOf := by
  have hcard := ht.card_insert hfree k
  have hlen := ht.length_lru
  have hlru : t.lru = ((recent h.uses).take maxSubtleKeys).map h.idOf := ht.lru_eq
  by_cases hfull : maxSubtleKeys < (t.keys.insert id k).keys.card
  · -- the last of the held keys is not among the first `maxSubtleKeys - 1`
    have hle : maxSubtleKeys ≤ (recent h.uses).length := by omega
    have hne : t.lru ≠ [] := by
      intro hnil
      rw [hnil, maxSubtleKeys] at hlen
      rw [maxSubtleKeys] at hle
      simp only [length_nil] at hlen
      omega
    obtain ⟨front, old, hsplit⟩ := (eq_nil_or_concat' t.lru).resolve_left hne
    have hfront : front = t.lru.dropLast := by rw [hsplit, dropLast_concat]
    rw [store_of_full hfull hsplit]
    rw [hfront, hlru, ← map_dropLast, dropLast_eq_take, length_take, take_take,
      Nat.min_eq_left hle, Nat.min_eq_left (Nat.sub_le _ _)]
  · have hle : (recent h.uses).length ≤ maxSubtleKeys - 1 := by omega
    rw [store_of_room hfull, hlru, take_of_length_le (by omega), take_of_length_le hle]

/-- A `put` of a free id. -/
lemma store (hfree : t.Free id) (k : SubtleKey) : Tracks (t.store id k) (h.add (.issued id k)) := by
  obtain ⟨hcoherent, hstored⟩ := ht.coherent.store hfree k
  obtain ⟨hself, hkey⟩ := h.idOf_issued_self id k
  set rest := (recent h.uses).take (maxSubtleKeys - 1) with hrest
  have hheld := ht.held_issued id k
  rw [← hrest] at hheld
  have hsub : ∀ m ∈ rest, m ∈ h.held := fun m hm =>
    (take_prefix_take_left (Nat.sub_le maxSubtleKeys 1)).subset hm
  have hold : ∀ m ∈ rest, (h.add (.issued id k)).idOf m = h.idOf m ∧
      (h.add (.issued id k)).keyOf m = h.keyOf m := fun m hm =>
    h.idOf_issued id k (ht.lt_length (hsub m hm))
  have hlru : (t.store id k).lru =
      (h.issued.length :: rest).map (h.add (.issued id k)).idOf := by
    rw [ht.lru_store hfree k, map_cons, hself,
      map_congr_left fun m hm => ((hold m hm).1 : _ = _)]
  have hne : ∀ m ∈ rest, h.idOf m ≠ id := fun m hm heq =>
    hfree.2 (ht.mem_keys.mpr ⟨m, hsub m hm, heq⟩)
  refine ⟨hcoherent, by rw [hheld, hlru], ?_, ?_, ?_⟩
  · rw [hheld]
    -- the ids of the list are in the table, with the key they had or the new one
    have hfound : ∀ i ∈ (t.store id k).lru, ∃ entry, (t.store id k).keys.lookup i = some entry := by
      intro i hi
      rw [← mem_toFinset, hcoherent.lru_eq, Finmap.mem_keys] at hi
      exact Option.isSome_iff_exists.mp (Finmap.lookup_isSome.mpr hi)
    refine forall_mem_cons.mpr ⟨?_, fun m hm => ?_⟩
    · obtain ⟨entry, hentry⟩ := hfound id (by rw [hlru, map_cons, hself]; simp)
      have hlookup := lookup_store hentry
      rw [if_pos rfl] at hlookup
      rw [hself, hkey, hentry, hlookup]
    · rw [(hold m hm).1, (hold m hm).2]
      have hmem : h.idOf m ∈ (t.store id k).lru := by
        rw [ht.lru_store hfree k]
        exact mem_cons_of_mem _ (mem_map_of_mem hm)
      obtain ⟨entry, hentry⟩ := hfound _ hmem
      have hlookup := lookup_store hentry
      rw [if_neg (hne m hm), ht.lookup m (hsub m hm)] at hlookup
      rw [hentry, hlookup]
  · intro m
    simp only [Uses.add, mem_append, mem_singleton, length_append,
      length_singleton, ht.mem_uses]
    omega
  · rw [hheld]
    have hlen : (h.add (.issued id k)).issued.length = h.issued.length + 1 := by simp [Uses.add]
    intro m hm m' hm' heq
    rw [hlen] at hm'
    rcases mem_cons.mp hm with rfl | hm
    · omega
    · by_cases hnew : m' = h.issued.length
      · rw [hnew, hself, (hold m hm).1] at heq
        exact absurd heq.symm (hne m hm)
      · have hlt : m' < h.issued.length := by omega
        rw [(h.idOf_issued id k hlt).1, (hold m hm).1] at heq
        exact ht.latest m (hsub m hm) m' hlt heq

lemma put {draws : List ℕ} {k : SubtleKey} {t' : KeyTable}
    (hput : t.put draws k = some (id, t')) : Tracks t' (h.add (.issued id k)) := by
  simp only [KeyTable.put, Option.map_eq_some_iff, Prod.mk.injEq] at hput
  obtain ⟨id', hfind, rfl, rfl⟩ := hput
  exact ht.store (by simpa using find?_some hfind) k

/-- A `get` that finds a key. -/
lemma get {k : SubtleKey} {t' : KeyTable}
    (hget : t.get id = some (k, t')) : Tracks t' (h.add (.got id k)) := by
  have hcoherent := ht.coherent.get hget
  simp only [KeyTable.get, Option.map_eq_some_iff, Prod.mk.injEq] at hget
  obtain ⟨k', hk, rfl, rfl⟩ := hget
  have hmem : id ∈ t.keys := Finmap.mem_of_lookup_eq_some hk
  obtain ⟨m, hm, rfl⟩ := ht.mem_keys.mp hmem
  have helems : h.idOf m ∈ t.elems := by
    rw [ht.coherent.elems_eq, Finmap.mem_keys]
    exact hmem
  have hlast : h.last (h.idOf m) = some m :=
    Uses.find?_range_reverse (ht.lt_length hm) rfl (ht.latest m hm)
  have hheld : (h.add (.got (h.idOf m) k')).held = touch h.held m := by
    rw [Uses.held, Uses.add, hlast, Option.toList_some, recent_snoc, take_touch_of_mem hm]
    rfl
  have hiff : ∀ m', m' ∈ (h.add (.got (h.idOf m) k')).held ↔ m' ∈ h.held := by
    intro m'
    rw [hheld, mem_touch]
    exact ⟨fun hm' => hm'.elim (fun heq => heq ▸ hm) id, .inr⟩
  rw [if_pos helems] at hcoherent ⊢
  refine ⟨hcoherent, ?_, fun m' hm' => ht.lookup m' ((hiff m').mp hm'), ?_, fun m' hm' =>
    ht.latest m' ((hiff m').mp hm')⟩
  · have hnodup := ht.coherent.nodup
    rw [ht.lru_eq] at hnodup
    rw [hheld]
    show h.idOf m :: t.lru.erase (h.idOf m) = (touch h.held m).map h.idOf
    rw [map_touch hnodup hm, ht.lru_eq]
    rfl
  · intro m'
    simp only [Uses.add, hlast, Option.toList_some, mem_append, mem_singleton, ht.mem_uses]
    have hlt := ht.lt_length hm
    constructor
    · rintro (h | rfl)
      · exact h
      · exact hlt
    · exact .inl

end Tracks

/-! ### Whole runs -/

lemma Tracks.step {s s' : KeyTable × List Event} {op : Op} (ht : Tracks s.1 (usesOf s.2))
    (hstep : step s op = some s') : Tracks s'.1 (usesOf s'.2) := by
  cases op with
  | put draws k =>
    obtain ⟨⟨id, t'⟩, hput, rfl⟩ := Option.map_eq_some_iff.mp hstep
    rw [usesOf_snoc]
    exact ht.put hput
  | get id =>
    rw [KeyTable.step] at hstep
    split at hstep
    · rename_i r hget
      cases hstep
      rw [usesOf_snoc]
      exact ht.get hget
    · cases hstep
      rw [usesOf_snoc]
      exact ht
  | reset =>
    cases hstep
    rw [usesOf_snoc]
    exact tracks_reset

lemma tracks_of_run {ops : List Op} {t : KeyTable} {log : List Event}
    (hrun : Machine.run step (reset, []) ops = some (t, log)) : Tracks t (usesOf log) :=
  Machine.run_invariant_all (I := fun s => Tracks s.1 (usesOf s.2)) (fun _ _ _ ht => ht.step)
    tracks_reset hrun

lemma mem_issued {log : List Event} {id : ℕ} {k : SubtleKey}
    (hmem : (id, k) ∈ (usesOf log).issued) :
    ∃ pre post, log = pre ++ .issued id k :: post ∧ .dropped ∉ post := by
  induction log using List.reverseRecOn with
  | nil => cases hmem
  | append_singleton log e ih =>
    rw [usesOf_snoc] at hmem
    have hearlier : (id, k) ∈ (usesOf log).issued → e ≠ .dropped →
        ∃ pre post, log ++ [e] = pre ++ .issued id k :: post ∧ .dropped ∉ post := by
      intro hmem he
      obtain ⟨pre, post, rfl, hpost⟩ := ih hmem
      refine ⟨pre, post ++ [e], by simp, ?_⟩
      rw [mem_append, mem_singleton]
      exact not_or.mpr ⟨hpost, he.symm⟩
    cases e with
    | issued id' k' =>
      rcases mem_append.mp hmem with hmem | hmem
      · exact hearlier hmem (by simp)
      · obtain ⟨rfl, rfl⟩ := Prod.mk.inj (mem_singleton.mp hmem)
        exact ⟨log, [], rfl, by simp⟩
    | got id' k' | unknown id' => exact hearlier hmem (by simp)
    | dropped => cases hmem

namespace Tracks

variable {t : KeyTable} {h : Uses}

lemma length_held (ht : Tracks t h) : h.held.length = min h.issued.length maxSubtleKeys := by
  have hperm : (recent h.uses).Perm (List.range h.issued.length) := by
    rw [perm_ext_iff_of_nodup (nodup_recent _) nodup_range]
    intro m
    rw [mem_recent, ht.mem_uses, mem_range]
  rw [Uses.held, length_take, hperm.length_eq, length_range, Nat.min_comm]

lemma lookup_iff (ht : Tracks t h) {id : ℕ} {k : SubtleKey} :
    t.keys.lookup id = some k ↔ ∃ m ∈ h.held, h.issued[m]? = some (id, k) := by
  constructor
  · intro hk
    obtain ⟨m, hm, rfl⟩ := ht.mem_keys.mp (Finmap.mem_of_lookup_eq_some hk)
    refine ⟨m, hm, (h.getElem?_issued (ht.lt_length hm)).mpr ⟨rfl, ?_⟩⟩
    rw [← ht.lookup m hm, hk]
  · rintro ⟨m, hm, hentry⟩
    obtain ⟨rfl, hkey⟩ : h.idOf m = id ∧ h.keyOf m = some k :=
      (h.getElem?_issued (ht.lt_length hm)).mp hentry
    rw [ht.lookup m hm, hkey]

end Tracks

/-- The three parts of the table have the same ids, those of the most recently used keys, and every
id has its own key. -/
theorem keyTable_lru (ops : List Op) (t : KeyTable) (log : List Event)
    (hrun : Machine.run step (reset, []) ops = some (t, log)) :
    (t.lru.Nodup ∧ t.lru.toFinset = t.keys.keys ∧ t.elems = t.keys.keys ∧
        t.lru.length ≤ maxSubtleKeys) ∧
      (∃ held : List ℕ, held.Nodup ∧ (∀ m ∈ held, m < (usesOf log).issued.length) ∧
        held.length = min (usesOf log).issued.length maxSubtleKeys ∧
        (∀ m ∈ held, ∀ m' < (usesOf log).issued.length, m' ∉ held →
          UsedAfter (usesOf log).uses m m') ∧
        t.lru = held.map (usesOf log).idOf ∧
        ∀ id k, t.keys.lookup id = some k ↔ ∃ m ∈ held, (usesOf log).issued[m]? = some (id, k)) ∧
      ∀ id k t', t.get id = some (k, t') →
        ∃ pre post, log = pre ++ .issued id k :: post ∧ .dropped ∉ post := by
  have ht := tracks_of_run hrun
  refine ⟨⟨ht.coherent.nodup, ht.coherent.lru_eq, ht.coherent.elems_eq, ?_⟩,
    ⟨(usesOf log).held, ?_, fun m hm => ht.lt_length hm, ht.length_held, ?_, ht.lru_eq, ?_⟩, ?_⟩
  · rw [ht.length_lru]
    exact Nat.min_le_left _ _
  · exact (nodup_recent _).sublist (take_sublist _ _)
  · intro m hm m' hm' hout
    exact usedAfter_of_take hm ((ht.mem_uses m').mpr hm') hout
  · exact fun id k => ht.lookup_iff
  · intro id k t' hget
    simp only [KeyTable.get, Option.map_eq_some_iff, Prod.mk.injEq] at hget
    obtain ⟨k', hk, rfl, -⟩ := hget
    obtain ⟨m, -, hentry⟩ := ht.lookup_iff.mp hk
    exact mem_issued (mem_of_getElem? hentry)

/-- A key is put, the table reset, and another one put under the same id. -/
theorem keyTable_lru_reissued :
    ∃ t log, Machine.run step (reset, [])
        [.put [7] (.hmac [1]), .reset, .get 7, .put [7] (.hmac [2]), .get 7] = some (t, log) ∧
      t.lru.length ≤ maxSubtleKeys :=
  ⟨_, _, rfl, (keyTable_lru
    [.put [7] (.hmac [1]), .reset, .get 7, .put [7] (.hmac [2]), .get 7] _ _ rfl).1.2.2.2⟩

end GoSpidermonkey.Web.Subtle.KeyTable
