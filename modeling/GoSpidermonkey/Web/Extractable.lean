import GoSpidermonkey.Web.SubtleReads

/-!
# Keys that are not extractable

The material of a key created with `extractable = false` should not come out of `exportKey` or
`wrapKey`. Both look at the property `extractable` of the object they are given, and at the object's
own raw bytes or at the entry of the host's table that its property `_h` names. The properties are
writable and the constructor is public, so the guest can make an object extractable that refers to
the material of such a key. As long as it does not, and as long as the host draws handles that no
object names already, the material stays inside.
-/

namespace GoSpidermonkey.Web.Subtle

open Failing Transducer List

/-! ### The key table -/

/-- The three parts of the table have the same ids. -/
structure KeyTable.Coherent (t : KeyTable) : Prop where
  nodup : t.lru.Nodup
  lru_eq : t.lru.toFinset = t.keys.keys
  elems_eq : t.elems = t.keys.keys

namespace KeyTable

variable {t : KeyTable}

lemma keys_insert (keys : Finmap fun _ : ℕ => SubtleKey) (id : ℕ) (k : SubtleKey) :
    (keys.insert id k).keys = insert id keys.keys := by
  ext i
  simp only [Finmap.mem_keys, Finmap.mem_insert, Finset.mem_insert]

variable {id : ℕ}

lemma store_of_room {k : SubtleKey}
    (h : ¬ maxSubtleKeys < (t.keys.insert id k).keys.card) :
    t.store id k = ⟨t.keys.insert id k, insert id t.elems, id :: t.lru⟩ := if_neg h

lemma store_of_full {old : ℕ} {k : SubtleKey} {front : List ℕ}
    (h : maxSubtleKeys < (t.keys.insert id k).keys.card) (hlru : t.lru = front ++ [old]) :
    t.store id k
      = ⟨(t.keys.insert id k).erase old, (insert id t.elems).erase old, id :: front⟩ := by
  have hlast : (id :: t.lru).getLast? = some old := by
    rw [hlru, ← cons_append, getLast?_append]
    rfl
  have hdrop : (id :: t.lru).dropLast = id :: front := by
    rw [hlru, ← cons_append, dropLast_concat]
  simp only [store, h, if_true, hlast, hdrop]

lemma Coherent.store (h : t.Coherent) (hfree : t.Free id) (k : SubtleKey) :
    (t.store id k).Coherent ∧ id ∈ (t.store id k).keys := by
  have hid : id ∉ t.lru := by
    rw [← mem_toFinset, h.lru_eq, Finmap.mem_keys]
    exact hfree.2
  by_cases hfull : maxSubtleKeys < (t.keys.insert id k).keys.card
  · -- the list is not empty, so its last id is another one
    have hne : t.lru ≠ [] := by
      intro hnil
      rw [keys_insert, ← h.lru_eq, hnil] at hfull
      simp [maxSubtleKeys] at hfull
    obtain ⟨front, old, hlru⟩ := (eq_nil_or_concat' t.lru).resolve_left hne
    have hnodup := h.nodup
    rw [hlru] at hid hnodup
    have hold : id ≠ old := by
      rintro rfl
      exact hid (by simp)
    have hfront : old ∉ front := fun hmem =>
      (nodup_append.mp hnodup).2.2 old hmem old (by simp) rfl
    have hkeys : t.keys.keys.erase old = front.toFinset := by
      rw [← h.lru_eq, hlru, toFinset_append, Finset.erase_union_distrib,
        Finset.erase_eq_of_notMem (by simpa using hfront)]
      simp
    rw [store_of_full hfull hlru]
    refine ⟨⟨?_, ?_, ?_⟩, Finmap.mem_erase.mpr ⟨hold, Finmap.mem_insert.mpr (.inl rfl)⟩⟩
    · refine nodup_cons.mpr ⟨fun hmem => hid (mem_append_left _ hmem), ?_⟩
      exact (nodup_append.mp hnodup).1
    · dsimp only
      rw [Finmap.keys_erase, keys_insert, Finset.erase_insert_of_ne hold, hkeys,
        toFinset_cons]
    · rw [Finmap.keys_erase, keys_insert, h.elems_eq]
  · rw [store_of_room hfull]
    refine ⟨⟨nodup_cons.mpr ⟨hid, h.nodup⟩, ?_, ?_⟩, Finmap.mem_insert.mpr (.inl rfl)⟩
    · simp [keys_insert, h.lru_eq]
    · simp [keys_insert, h.elems_eq]

lemma Coherent.get (h : t.Coherent) {entry : SubtleKey × KeyTable}
    (hget : t.get id = some entry) : entry.2.Coherent := by
  simp only [KeyTable.get, Option.map_eq_some_iff] at hget
  obtain ⟨k, hk, rfl⟩ := hget
  have hmem : id ∈ t.keys.keys := Finmap.mem_keys.mpr (Finmap.mem_of_lookup_eq_some hk)
  rw [if_pos (h.elems_eq ▸ hmem)]
  have hlru : id ∈ t.lru := by rwa [← mem_toFinset, h.lru_eq]
  have hperm := perm_cons_erase hlru
  exact ⟨hperm.nodup_iff.mp h.nodup, (toFinset_eq_of_perm _ _ hperm.symm).trans h.lru_eq,
    h.elems_eq⟩

end KeyTable

/-! ### Secrets -/

def carries (k : ℕ) (p : CryptoKey) : List Material :=
  .raw k :: .jwk k :: p.handle.toList.map .host

variable {k : ℕ} {o : Object} {s : State}

lemma materials_subset {m : Material} (hm : m ∈ materials k o) :
    m ∈ carries k o.props := by
  simp only [materials, mem_append] at hm
  simp only [carries, mem_cons]
  rcases hm with (hm | hm) | hm
  · left
    split at hm <;> simp_all
  · right
    left
    split at hm <;> simp_all
  · exact .inr (.inr hm)

/-- An object that `exportKey` accepts refers to no secret. -/
def Harmless (s : State) (k : ℕ) (p : CryptoKey) : Prop :=
  p.extractable = true → ∀ m ∈ carries k p, m ∉ s.secrets

instance (s : State) (k : ℕ) (p : CryptoKey) : Decidable (Harmless s k p) :=
  inferInstanceAs (Decidable (_ → ∀ m ∈ carries k p, m ∉ s.secrets))

/-- A handle that is not the one of a secret, and that no object names which `exportKey` accepts. -/
def FreshHandle (s : State) (id : ℕ) : Prop :=
  .host id ∉ s.secrets ∧ ∀ o ∈ s.objects, o.props.extractable = true → o.props.handle ≠ some id

instance (s : State) (id : ℕ) : Decidable (FreshHandle s id) :=
  inferInstanceAs (Decidable (_ ∧ ∀ o ∈ s.objects, _ → _))

/-- No object that `exportKey` accepts refers to a secret. -/
structure Sealed (s : State) : Prop where
  objects : ∀ k o, s.objects[k]? = some o → Harmless s k o.props
  known : ∀ k, .raw k ∈ s.secrets ∨ .jwk k ∈ s.secrets → k < s.objects.length
  table : s.table.Coherent

lemma sealed_boot (memory : Memory) : Sealed (boot memory) where
  objects := by simp [boot]
  known := by simp [boot]
  table := ⟨by simp [boot], rfl, rfl⟩

/-- The keys and the secrets are those of `c`. -/
structure At (c s : State) : Prop where
  objects : s.objects = c.objects
  secrets : s.secrets = c.secrets
  table : s.table.Coherent

lemma At.refl {c : State} (hc : Sealed c) : At c c := ⟨rfl, rfl, hc.table⟩

lemma At.sealed {c : State} (hc : Sealed c) (h : At c s) : Sealed s where
  objects := by
    unfold Harmless
    rw [h.objects, h.secrets]
    exact hc.objects
  known := by
    rw [h.objects, h.secrets]
    exact hc.known
  table := h.table

lemma getElem?_concat_cases {l : List Object} {o' : Object}
    (h : (l ++ [o])[k]? = some o') :
    (k < l.length ∧ l[k]? = some o') ∨ (k = l.length ∧ o' = o) := by
  rw [getElem?_append] at h
  split at h
  case isTrue hk => exact .inl ⟨hk, h⟩
  case isFalse hk =>
    obtain ⟨hlt, rfl⟩ := List.getElem?_eq_some_iff.mp h
    have hk0 : k = l.length := by
      simp only [length_singleton] at hlt
      omega
    subst hk0
    exact .inr ⟨rfl, by simp⟩

lemma Sealed.addOpen (hs : Sealed s)
    (ho : Harmless s s.objects.length o.props) :
    Sealed { s with objects := s.objects ++ [o] } where
  objects := by
    intro k o' hk
    rcases getElem?_concat_cases hk with ⟨-, hk⟩ | ⟨rfl, rfl⟩
    · exact hs.objects k o' hk
    · exact ho
  known := by
    intro k hk
    have := hs.known k hk
    simp only [length_append, length_singleton]
    omega
  table := hs.table

lemma Sealed.addSecret (hs : Sealed s) (hclosed : o.props.extractable = false)
    (ho : ∀ h ∈ o.props.handle, FreshHandle s h) :
    Sealed { s with
      objects := s.objects ++ [o]
      secrets := materials s.objects.length o ++ s.secrets } where
  objects := by
    intro k o' hk hopen m hm hsecret
    rcases getElem?_concat_cases hk with ⟨hlt, hk⟩ | ⟨rfl, rfl⟩
    · rcases mem_append.mp hsecret with hmem | hmem
      · -- the new material is that of the new object, whose handle no open object names
        have hnew := materials_subset hmem
        simp only [carries, mem_cons, mem_map, Option.mem_toList] at hm hnew
        rcases hm with rfl | rfl | ⟨h, hh, rfl⟩
        · simp only [Material.raw.injEq, reduceCtorEq, and_false, exists_false,
            or_false] at hnew
          omega
        · simp only [Material.jwk.injEq, reduceCtorEq, false_or, and_false, exists_false,
            or_false] at hnew
          omega
        · simp only [Material.host.injEq, reduceCtorEq, false_or, exists_eq_right] at hnew
          exact (ho h hnew).2 o' (mem_of_getElem? hk) hopen hh
      · exact hs.objects k o' hk hopen m hm hmem
    · rw [hclosed] at hopen
      exact absurd hopen Bool.false_ne_true
  known := by
    intro k hk
    simp only [mem_append, length_append, length_singleton] at hk ⊢
    have hplace : .raw k ∈ carries s.objects.length o.props
        ∨ .jwk k ∈ carries s.objects.length o.props → k = s.objects.length := by
      simp [carries]
    rcases hk with (hk | hk) | (hk | hk)
    · have := hplace (.inl (materials_subset hk))
      omega
    · have := hs.known k (.inl hk)
      omega
    · have := hplace (.inr (materials_subset hk))
      omega
    · have := hs.known k (.inr hk)
      omega
  table := hs.table

lemma Sealed.harmless_new (hs : Sealed s) {p : CryptoKey}
    (hp : ∀ h ∈ p.handle, .host h ∉ s.secrets) : Harmless s s.objects.length p := by
  intro _ m hm hsecret
  simp only [carries, mem_cons, mem_map, Option.mem_toList] at hm
  rcases hm with rfl | rfl | ⟨h, hh, rfl⟩
  · exact absurd (hs.known _ (.inl hsecret)) (lt_irrefl _)
  · exact absurd (hs.known _ (.inr hsecret)) (lt_irrefl _)
  · exact hp h hh hsecret

lemma Sealed.newKey (hs : Sealed s)
    (ho : ∀ h ∈ o.props.handle, FreshHandle s h) : Sealed ((newKey o).on s).2 := by
  rw [newKey_on]
  cases hopen : o.props.extractable with
  | true => exact hs.addOpen (hs.harmless_new fun h hh => (ho h hh).1)
  | false => exact hs.addSecret hopen ho

lemma FreshHandle.newKey {id : ℕ} (h : FreshHandle s id)
    (ho : o.props.handle ≠ some id) : FreshHandle ((newKey o).on s).2 id := by
  rw [newKey_on]
  refine ⟨?_, ?_⟩
  · have hnew : .host id ∉ materials s.objects.length o := by
      intro hmem
      have := materials_subset hmem
      simp only [carries, mem_cons, reduceCtorEq, mem_map, Option.mem_toList,
        Material.host.injEq, exists_eq_right, false_or] at this
      exact ho this
    split
    · exact h.1
    · simp [hnew, h.1]
  · intro o' ho' hopen
    rcases mem_append.mp ho' with hmem | hmem
    · exact h.2 o' hmem hopen
    · rw [mem_singleton.mp hmem]
      exact ho

/-! ### Calls -/

/-- The handle that `put` finds is new to the table. -/
lemma put_spec {t t' : KeyTable} {coins : Coins} {k : SubtleKey} {id : ℕ} (ht : t.Coherent)
    (hput : t.put coins.draws k = some (id, t')) :
    t'.Coherent ∧ id ∈ t'.keys ∧ id ∉ t.keys ∧ id ∈ coins.handles := by
  simp only [KeyTable.put, Option.map_eq_some_iff, Prod.mk.injEq] at hput
  obtain ⟨found, hfind, rfl, rfl⟩ := hput
  have hfree : t.Free found := by simpa using find?_some hfind
  exact ⟨(ht.store hfree k).1, (ht.store hfree k).2, hfree.2, mem_of_find?_eq_some hfind⟩

section Calls

variable {c : State} (hc : Sealed c)
include hc

variable {α : Type}

lemma Plain.quiet {x : Call α} (h : Plain x) :
    Triple (At c) x (fun _ => At c) Sealed := by
  induction h with
  | pure a | reads => exact fun s hs => hs
  | throw e => exact fun s hs => hs.sealed hc
  | suspend p => exact fun s hs => ⟨hs.objects, hs.secrets, hs.table⟩
  | bind _ _ hx hf => exact hx.bind hf
  | hostKey handle e =>
    intro s hs
    rw [hostKey_on]
    cases hfound : handle.bind s.table.get with
    | none => exact hs.sealed hc
    | some entry =>
      obtain ⟨id, -, hget⟩ := Option.bind_eq_some_iff.mp hfound
      exact ⟨hs.objects, hs.secrets, hs.table.get hget⟩

lemma put_quiet (coins : Coins) (k : SubtleKey) :
    Triple (At c) (putKey coins.draws k)
      (fun id s => (At c s ∧ id ∈ s.table.keys) ∧ id ∈ coins.handles) Sealed := by
  intro s hs
  rw [putKey_on]
  cases hput : s.table.put coins.draws k with
  | none => exact hs.sealed hc
  | some entry =>
    obtain ⟨ht, hmem, -, hdrawn⟩ := put_spec hs.table hput
    exact ⟨⟨⟨hs.objects, hs.secrets, ht⟩, hmem⟩, hdrawn⟩

lemma put_apart (coins : Coins) (k : SubtleKey) (first : ℕ) :
    Triple (fun s => At c s ∧ first ∈ s.table.keys) (putKey coins.draws k)
      (fun id s => At c s ∧ id ∈ coins.handles ∧ first ≠ id) Sealed := by
  rintro s ⟨hs, hfirst⟩
  rw [putKey_on]
  cases hput : s.table.put coins.draws k with
  | none => exact hs.sealed hc
  | some entry =>
    obtain ⟨ht, -, hnew, hdrawn⟩ := put_spec hs.table hput
    exact ⟨⟨hs.objects, hs.secrets, ht⟩, hdrawn, fun heq => hnew (heq ▸ hfirst)⟩

omit hc in
lemma At.fresh {s : State} (h : At c s) {id : ℕ} (hid : FreshHandle c id) : FreshHandle s id := by
  unfold FreshHandle
  rw [h.objects, h.secrets]
  exact hid

omit hc in
lemma pure_sealed (a : α) : Triple Sealed (pure a : Call α) (fun _ => Sealed) Sealed :=
  .pure fun _ hs => hs

lemma new_sealed {o : Object} (ho : ∀ h ∈ o.props.handle, FreshHandle c h) :
    Triple (At c) (newKey o) (fun _ => Sealed) Sealed := by
  intro s hs
  exact (hs.sealed hc).newKey fun h hh => hs.fresh (ho h hh)

variable (host : Host) {coins : Coins} (hfresh : ∀ id ∈ coins.handles, FreshHandle c id)
include hfresh

lemma newPair_sealed {family : Family} {algo : Algorithm} {extractable : Bool}
    {privUsages pubUsages : List Usage} :
    Triple (At c) (newPair host family algo extractable privUsages pubUsages coins)
      (fun _ => Sealed) Sealed := by
  refine ((plain_orThrow _ _).quiet hc).bind fun halves => ?_
  refine (put_quiet hc coins _).knowing fun priv hpriv => ?_
  refine (put_apart hc coins _ priv).knowing fun pub ⟨hpub, hne⟩ => ?_
  intro s hs
  have hs₁ : Sealed _ := (hs.sealed hc).newKey
    (o := ⟨⟨.privateKey, extractable, algo, privUsages, some priv⟩, none, none⟩)
    fun h hh => hs.fresh (Option.some.inj hh ▸ hfresh priv hpriv)
  have hpub₁ : FreshHandle _ pub := (hs.fresh (hfresh pub hpub)).newKey
    (o := ⟨⟨.privateKey, extractable, algo, privUsages, some priv⟩, none, none⟩)
    fun h => hne (Option.some.inj h)
  exact hs₁.newKey (o := ⟨⟨.publicKey, true, algo, pubUsages, some pub⟩, none, none⟩)
    fun h hh => Option.some.inj hh ▸ hpub₁

lemma Makes.sealed {checked : Prop} {kind : Kind} {held : List ℕ} {x : Keep → Call α}
    (h : Makes host checked kind coins held x) (hheld : ∀ id ∈ held, id ∈ coins.handles)
    (keep : Keep) : Triple (At c) (x keep) (fun _ => Sealed) Sealed := by
  induction h with
  | plain hx => exact (hx.quiet hc).post fun _ _ hs => hs.sealed hc
  | after hx _ hf => exact (hx.quiet hc).after fun a ha => hf a ha hheld
  | map g _ hx => exact (hx hheld).bind fun a => pure_sealed _
  | put _ _ hf =>
    refine (put_quiet hc coins _).knowing fun id hid => ?_
    exact (hf id (by simpa using hid)).pre fun s hs => hs.1
  | new _ _ _ ho =>
    exact new_sealed hc fun h hh => hfresh h (hheld h (ho ▸ Option.mem_toList.mpr hh))
  | kept raw _ _ hp =>
    exact Triple.bind (.reads fun s hs => hs) fun kept => new_sealed hc (by simp [hp])
  | pair => exact newPair_sealed hc host hfresh

end Calls

/-! ### Guest programs -/

/-- The guest makes no object extractable that refers to a secret, and the host draws handles that
are new. -/
def Careful (s : State) (op : Op) : Prop :=
  (∀ id ∈ op.handles, FreshHandle s id) ∧ match op with
    | .construct p => Harmless s s.objects.length p
    | .assign key a => ∀ o ∈ s.objects[key]?, Harmless s key (a.apply o.props)
    | _ => True

instance (s : State) (op : Op) : Decidable (Careful s op) := by
  cases op <;> dsimp only [Careful] <;> infer_instance

lemma Sealed.assign (hs : Sealed s) {key : ℕ} {a : Assignment}
    (ha : ∀ o ∈ s.objects[key]?, Harmless s key (a.apply o.props)) :
    Sealed { s with
      objects := s.objects.modify key fun o => { o with props := a.apply o.props } } where
  objects := by
    intro k o hk
    rw [getElem?_modify] at hk
    obtain ⟨o', ho', rfl⟩ := Option.map_eq_some_iff.mp hk
    by_cases hkey : key = k
    · subst hkey
      simpa [Harmless] using ha o' ho'
    · simpa [hkey, Harmless] using hs.objects k o' ho'
  known := by simpa using hs.known
  table := hs.table

lemma Sealed.step (hs : Sealed s) (host : Host) {op : Op} (hop : Careful s op) :
    Sealed (step host s op).2 := by
  obtain ⟨hfresh, hguest⟩ := hop
  rcases makes_step host (fun h : False => h.elim) s op with
    ⟨kind, coins, x, i, hhandles, hx, hstep⟩ | ⟨p, rfl⟩ | ⟨key, a, rfl⟩ |
      ⟨buffer, offset, bytes, rfl⟩
  · rw [Subtle.step, hstep aliasing s rfl]
    exact (hx.sealed hs host (hhandles ▸ hfresh) (by simp) aliasing).final ⟨rfl, rfl, hs.table⟩
  · exact hs.addOpen hguest
  · exact hs.assign hguest
  · exact ⟨hs.objects, hs.known, hs.table⟩

/-! ### Exports -/

def Op.exported : Op → Option ℕ
  | .exportKey _ key | .wrapKey _ key _ _ => key
  | _ => none

def exportReads (k : ℕ) (p : CryptoKey) : Option Material :=
  match p.algorithm.name with
  | .aesGcm | .aesCbc | .aesCtr | .aesKw => some (.raw k)
  | .hmac | .ecdsa | .rsassa | .rsaPss | .rsaOaep | .ed25519 => p.handle.map .host
  | .ecdh | .hkdf | .pbkdf2 | .other => none

lemma exportReads_carries {p : CryptoKey} {m : Material} (h : m ∈ exportReads k p) :
    m ∈ carries k p := by
  unfold exportReads at h
  split at h <;> simp_all [carries]

/-- The operation exports a key and reads material of a key that was created not extractable. -/
def Leaks (host : Host) (s : State) (op : Op) : Prop :=
  (step host s op).1.isOk = true
    ∧ ∃ k ∈ op.exported, ∃ o ∈ s.objects[k]?, ∃ m ∈ exportReads k o.props, m ∈ s.secrets

instance (host : Host) (s : State) (op : Op) : Decidable (Leaks host s op) :=
  inferInstanceAs (Decidable (_ ∧ ∃ k ∈ op.exported, ∃ o ∈ s.objects[k]?,
    ∃ m ∈ exportReads k o.props, m ∈ s.secrets))

/-- The property `extractable` of the key is set. -/
def Extractable (s : State) (key : Option ℕ) : Prop :=
  ∀ k ∈ key, ∀ o ∈ s.objects[k]?, o.props.extractable = true

/-- `asKey` returns the key it is given. -/
lemma asKey_spec {R : State → Prop} (key : Option ℕ) :
    Triple R (asKey key) (fun k s => R s ∧ key = some k) fun _ => True := by
  refine Triple.bind (Q := fun _ => R) (.reads fun s hs => hs) fun n => ?_
  cases key with
  | none => exact .throw fun _ _ => trivial
  | some k => exact .ite (fun _ => .pure fun s hs => ⟨hs, rfl⟩) fun _ => .throw fun _ _ => trivial

/-- While the objects are those of `c`, so are the properties that are read. -/
lemma propsOf_spec {c : State} {R : State → Prop} (hR : ∀ s, R s → s.objects = c.objects) (k : ℕ) :
    Triple R (propsOf k) (fun props s => R s ∧ c.objects[k]?.map Object.props = some props)
      fun _ => True := by
  refine Triple.bind (Q := fun o s => R s ∧ o = c.objects[k]?.map Object.props)
    (.reads fun s hs => ⟨hs, by rw [hR s hs]⟩) fun o => .assuming fun ho => ?_
  subst ho
  exact .orThrow fun _ _ => trivial

/-- An export returns only for an object whose `extractable` is set. -/
lemma exportKey_extractable (c : State) (host : Host) (format : Format) (key : Option ℕ) :
    Triple (At c) (exportKey host format key) (fun _ _ => Extractable c key) fun _ => True := by
  refine (asKey_spec (R := At c) key).knowing fun k hk => ?_
  refine (propsOf_spec (fun _ => At.objects) k).knowing fun props hobj => ?_
  refine .ite (fun hopen => ?_) fun _ => .throw fun _ _ => trivial
  refine .const _ fun s _ k' hk' o ho => ?_
  obtain rfl : k = k' := Option.some.inj (hk.symm.trans hk')
  rw [ho] at hobj
  rw [Option.some.inj hobj]
  exact hopen

lemma Sealed.not_leaks (hs : Sealed s) (host : Host) (op : Op) : ¬ Leaks host s op := by
  rintro ⟨hok, k, hk, o, ho, m, hm, hsecret⟩
  suffices hopen : Extractable s op.exported from
    hs.objects k o ho (hopen k hk o ho) m (exportReads_carries hm) hsecret
  cases op with
  | exportKey format key =>
    exact ((exportKey_extractable s host format key).bind fun _ => .const _ fun _ h => h).returned
      (At.refl hs) hok
  | wrapKey format key wrappingKey wrapAlg =>
    have hneed : Triple (At s) (need wrappingKey .wrapKey) (fun _ => At s) fun _ => True :=
      ((plain_need _ _).quiet hs).fails fun _ _ => trivial
    have hwrap : Triple (At s) (wrapKey host format key wrappingKey wrapAlg)
        (fun _ _ => Extractable s key) fun _ => True :=
      hneed.bind fun w => (exportKey_extractable s host format key).bind fun _ =>
        .const _ fun _ h => h
    exact (hwrap.bind fun _ => .const _ fun _ h => h).returned (At.refl hs) hok
  | _ => simp [Op.exported] at hk

/-- A guest that makes no object extractable that refers to the material of a key created not
extractable cannot export that material. -/
theorem non_extractable_not_exported (host : Host) (memory : Memory) (ops : List Op)
    (hops : Always (step host) Careful (boot memory) ops) :
    Always (step host) (fun s op => ¬ Leaks host s op) (boot memory) ops :=
  Always.of_invariant (fun _ op hs hop => ⟨hs.step host hop, hs.not_leaks host op⟩)
    (sealed_boot memory) hops

/-- A secret AES key, a secret HMAC key and an extractable one, whose usages the guest changes. -/
def careful : List Op :=
  [.generateKey { name := .aesGcm, length := some 128 } false [.encrypt] {},
    .generateKey { name := .hmac, hash := some .sha256 } false [.sign] { draws := [11] },
    .generateKey { name := .hmac, hash := some .sha1 } true [.sign] { draws := [12] },
    .assign 0 (.usages [.encrypt, .wrapKey]), .assign 2 (.handle none),
    .exportKey .raw (some 0), .exportKey .raw (some 1),
    .wrapKey .raw (some 1) (some 0) { name := .aesGcm }]

theorem careful_not_exported :
    Always (step plainHost) (fun s op => ¬ Leaks plainHost s op) (boot []) careful
      ∧ (outputs (step plainHost) (boot []) careful).getLast? = some (.error .invalidAccess) :=
  ⟨non_extractable_not_exported plainHost [] careful (by decide +kernel), by decide +kernel⟩

/-- The guest sets `extractable` of a key that was generated not extractable. -/
def setsExtractable : List Op :=
  [.generateKey { name := .aesGcm, length := some 128 } false [.encrypt]
      { bytes := List.replicate 16 9 },
    .assign 0 (.extractable true), .exportKey .raw (some 0)]

/-- The export succeeds and returns the random bytes of the key. -/
theorem setsExtractable_leaks :
    outputs (step plainHost) (boot []) setsExtractable
        = [.ok (.generated (.key 0)), .ok .done, .ok (.exported (.buffer (List.replicate 16 9)))]
      ∧ ¬ Always (step plainHost) (fun s op => ¬ Leaks plainHost s op) (boot [])
        setsExtractable := by
  decide +kernel

end GoSpidermonkey.Web.Subtle
