import GoSpidermonkey.Web.Extractable

/-!
# Keys and the algorithms they are used under

The calls of `crypto.subtle` that use a key check that it has the usage, and then choose the
operation by the name in their own algorithm argument; the name in the key is not looked at. What
stands between a key and another algorithm is the kind of its material: AES, HKDF and PBKDF2 keys
have raw bytes, and the host's functions look for their own kind of entry. So a key can be used
under every algorithm of the same kind (an AES-GCM key under AES-CTR, an ECDSA key under ECDH),
every key under HKDF and PBKDF2, whose functions do not mind that there are no raw bytes, and a key
under no other algorithm as long as the guest does not give an object the handle of another key.
-/

namespace GoSpidermonkey.Web.Subtle

open Failing Transducer List Option

/-! ### Kinds of material -/

/-- HKDF and PBKDF2 take a key without raw bytes for an empty one. -/
def AlgName.takesAny : AlgName → Bool
  | .hkdf | .pbkdf2 => true
  | _ => false

/-- The host's functions with their checks of the entry. -/
def Host.checked (host : Host) : Host :=
  { host with
    sign := fun name hash salt entry data random =>
      if entry.kind = name.kind ∧ entry.type ≠ .publicKey then
        host.sign name hash salt entry data random
      else none
    verify := fun name hash salt entry signature data =>
      if entry.kind = name.kind then host.verify name hash salt entry signature data else none
    rsaOAEP := fun encrypt entry hash data label random =>
      if entry.kind = .rsa ∧ (encrypt = true ∨ entry.type = .privateKey) then
        host.rsaOAEP encrypt entry hash data label random
      else none
    importJWK := fun family json =>
      (host.importJWK family json).filter fun r => r.1.kind = family.kind
    importDER := fun family format der =>
      (host.importDER family format der).filter fun r => r.1.kind = family.kind
    exportJWK := fun family entry =>
      if entry.kind = family.kind then host.exportJWK family entry else none }

/-- The material of an object is of the kind of its algorithm. -/
structure Fitting (table : KeyTable) (o : Object) : Prop where
  raw : o.keyRaw.isSome = true → o.props.algorithm.name.kind = .raw
  jwk : o.keyJwk.isSome = true → o.props.algorithm.name.kind = .ec
  host : ∀ h ∈ o.props.handle, ∀ entry ∈ table.keys.lookup h,
    entry.kind = o.props.algorithm.name.kind

/-- The material of every key is of the kind of its algorithm. -/
def Typed (s : State) : Prop := ∀ o ∈ s.objects, Fitting s.table o

lemma typed_boot (memory : Memory) : Typed (boot memory) := by
  intro o ho
  cases ho

/-! ### New keys -/

/-- An object with material of one kind, over entries at the given ids. -/
structure Made (kind : Kind) (ids : List ℕ) (o : Object) : Prop where
  name : o.props.algorithm.name.kind = kind
  raw : o.keyRaw.isSome = true → kind = .raw
  jwk : o.keyJwk.isSome = true → kind = .ec
  handle : ∀ h ∈ o.props.handle, h ∈ ids

/-- After the state `c`, keys of one kind have been added, over entries at the given ids. -/
structure Grown (c : State) (kind : Kind) (ids : List ℕ) (s : State) : Prop where
  objects : ∃ added, s.objects = c.objects ++ added ∧ ∀ o ∈ added, Made kind ids o
  table : ∀ id entry, s.table.keys.lookup id = some entry →
    if id ∈ ids then entry.kind = kind else c.table.keys.lookup id = some entry

lemma Grown.refl (c : State) (kind : Kind) : Grown c kind [] c where
  objects := ⟨[], by simp, by simp⟩
  table := by simp

/-- No object has the handle. -/
def Unnamed (s : State) (id : ℕ) : Prop := ∀ o ∈ s.objects, o.props.handle ≠ some id

instance (s : State) (id : ℕ) : Decidable (Unnamed s id) :=
  inferInstanceAs (Decidable (∀ o ∈ s.objects, _))

variable {s : State}

lemma Grown.typed {c : State} {kind : Kind} {ids : List ℕ} (h : Grown c kind ids s)
    (hc : Typed c) (hids : ∀ id ∈ ids, Unnamed c id) : Typed s := by
  obtain ⟨added, hobjects, hadded⟩ := h.objects
  intro o ho
  rw [hobjects, mem_append] at ho
  rcases ho with ho | ho
  · refine ⟨(hc o ho).raw, (hc o ho).jwk, fun id hid entry hentry => ?_⟩
    have htable := h.table id entry hentry
    rw [if_neg fun hmem => hids id hmem o ho hid] at htable
    exact (hc o ho).host id hid entry htable
  · obtain ⟨hkind, hraw, hjwk, hhandle⟩ := hadded o ho
    refine ⟨fun hr => hkind.trans (hraw hr), fun hj => hkind.trans (hjwk hj), ?_⟩
    intro id hid entry hentry
    have htable := h.table id entry hentry
    rw [if_pos (hhandle id hid)] at htable
    exact htable.trans hkind.symm

lemma lookup_store {t : KeyTable} {id i : ℕ} {k entry : SubtleKey}
    (h : (t.store id k).keys.lookup i = some entry) :
    if i = id then entry = k else t.keys.lookup i = some entry := by
  have hinsert : (t.keys.insert id k).lookup i = some entry := by
    unfold KeyTable.store at h
    dsimp only at h
    split at h
    · split at h
      · rename_i old _
        by_cases hold : i = old
        · subst hold
          rw [Finmap.lookup_erase] at h
          cases h
        · rwa [Finmap.lookup_erase_ne hold] at h
      · exact h
    · exact h
  split
  · rename_i hi
    subst hi
    rw [Finmap.lookup_insert] at hinsert
    exact (Option.some.inj hinsert).symm
  · rename_i hi
    rwa [Finmap.lookup_insert_of_ne _ hi] at hinsert

section Calls

variable {c : State} {kind : Kind} {ids : List ℕ}

lemma Grown.congr {s s' : State} (h : Grown c kind ids s) (ho : s'.objects = s.objects)
    (ht : s'.table.keys = s.table.keys) : Grown c kind ids s' where
  objects := ho ▸ h.objects
  table := ht ▸ h.table

variable {α : Type} {o : Object}

lemma Plain.grown {x : Call α} (h : Plain x) :
    Triple (Grown c kind ids) x (fun _ => Grown c kind ids) (Grown c kind ids) :=
  h.keeps fun _ _ ho ht hs => hs.congr ho ht

lemma putKey_grown (coins : Coins) {k : SubtleKey} (hk : k.kind = kind) :
    Triple (Grown c kind ids) (putKey coins.draws k)
      (fun id s => Grown c kind (id :: ids) s ∧ id ∈ coins.handles) (Grown c kind ids) := by
  intro s hs
  rw [putKey_on]
  cases hput : s.table.put coins.draws k with
  | none => exact hs
  | some entry =>
    obtain ⟨found, hfind, rfl⟩ := map_eq_some_iff.mp hput
    refine ⟨⟨?_, ?_⟩, mem_of_find?_eq_some hfind⟩
    · obtain ⟨added, hobjects, hadded⟩ := hs.objects
      refine ⟨added, hobjects, fun o ho => ?_⟩
      exact { hadded o ho with handle := fun h hh => mem_cons_of_mem _ ((hadded o ho).handle h hh) }
    · intro id entry hentry
      have hstore := lookup_store hentry
      by_cases hid : id = found
      · rw [if_pos hid] at hstore
        rw [if_pos (by simp [hid]), hstore, hk]
      · rw [if_neg hid] at hstore
        simpa [hid] using hs.table id entry hstore

lemma newKey_grown (ho : Made kind ids o) :
    Triple (Grown c kind ids) (newKey o) (fun _ => Grown c kind ids) (Grown c kind ids) := by
  intro s hs
  rw [newKey_on]
  obtain ⟨added, hobjects, hadded⟩ := hs.objects
  refine ⟨⟨added ++ [o], by simp [hobjects], fun o' ho' => ?_⟩, hs.table⟩
  rcases mem_append.mp ho' with ho' | ho'
  · exact hadded o' ho'
  · exact mem_singleton.mp ho' ▸ ho

/-- Keys have been added over ids that the coins drew. -/
def Grew (c : State) (kind : Kind) (coins : Coins) (s : State) : Prop :=
  ∃ ids, (∀ id ∈ ids, id ∈ coins.handles) ∧ Grown c kind ids s

variable {coins : Coins}

lemma Grown.grew {s : State} (h : Grown c kind ids s) (hids : ∀ id ∈ ids, id ∈ coins.handles) :
    Grew c kind coins s := ⟨ids, hids, h⟩

variable (hids : ∀ id ∈ ids, id ∈ coins.handles)
include hids

lemma Plain.growing {x : Call α} (h : Plain x) :
    Triple (Grown c kind ids) x (fun _ => Grown c kind ids) (Grew c kind coins) :=
  h.grown.fails fun _ hs => hs.grew hids

lemma put_then_grew {k : SubtleKey} {f : ℕ → Call α} (hk : k.kind = kind)
    (hf : ∀ id, (∀ i ∈ id :: ids, i ∈ coins.handles) →
      Triple (Grown c kind (id :: ids)) (f id) (fun _ => Grew c kind coins) (Grew c kind coins)) :
    Triple (Grown c kind ids) (putKey coins.draws k >>= f) (fun _ => Grew c kind coins)
      (Grew c kind coins) := by
  refine ((putKey_grown coins hk).fails fun _ hs => hs.grew hids).bind fun id => ?_
  refine .assuming fun hid => hf id ?_
  intro i hi
  rcases mem_cons.mp hi with rfl | hi
  · exact hid
  · exact hids i hi

lemma new_then_grew {f : ℕ → Call α} (ho : Made kind ids o)
    (hf : ∀ k, Triple (Grown c kind ids) (f k) (fun _ => Grew c kind coins) (Grew c kind coins)) :
    Triple (Grown c kind ids) (newKey o >>= f) (fun _ => Grew c kind coins) (Grew c kind coins) :=
  ((newKey_grown ho).fails fun _ hs => hs.grew hids).bind hf

omit hids in
lemma newPair_grew (host : Host) {family : Family} {algo : Algorithm} {extractable : Bool}
    {privUsages pubUsages : List Usage} (hfamily : family.kind = kind)
    (halgo : algo.name.kind = kind) :
    Triple (Grown c kind []) (newPair host family algo extractable privUsages pubUsages coins)
      (fun _ => Grew c kind coins) (Grew c kind coins) := by
  have hids : ∀ id ∈ ([] : List ℕ), id ∈ coins.handles := by simp
  refine ((plain_orThrow _ _).growing hids).bind fun halves => ?_
  refine put_then_grew hids hfamily fun priv hpriv => ?_
  refine put_then_grew hpriv hfamily fun pub hpub => ?_
  refine new_then_grew hpub ⟨halgo, by simp, by simp, by simp⟩ fun privateKey => ?_
  refine new_then_grew hpub ⟨halgo, by simp, by simp, by simp⟩ fun publicKey => ?_
  exact .pure fun _ hs => hs.grew hpub

lemma Makes.grew {host : Host} {x : Keep → Call α} (h : Makes host True kind coins ids x)
    (keep : Keep) :
    Triple (Grown c kind ids) (x keep) (fun _ => Grew c kind coins) (Grew c kind coins) := by
  have hnew {ids : List ℕ} {o : Object} (hids : ∀ id ∈ ids, id ∈ coins.handles)
      (ho : Made kind ids o) :
      Triple (Grown c kind ids) (newKey o) (fun _ => Grew c kind coins) (Grew c kind coins) :=
    (newKey_grown ho).weaken (fun _ hs => hs) (fun _ _ hs => hs.grew hids)
      fun _ hs => hs.grew hids
  induction h with
  | plain hx =>
    exact (hx.growing hids).post fun _ _ hs => hs.grew hids
  | after hx _ hf => exact (hx.growing hids).after fun a ha => hf a ha hids
  | map g _ hx => exact (hx hids).bind fun a => .pure fun _ hs => hs
  | put hk _ hf => exact put_then_grew hids (hk trivial) hf
  | new hname hraw hjwk ho =>
    refine hnew hids ⟨hname, fun h => (hraw _ (get_mem h)).1, hjwk, fun h hh => ?_⟩
    exact ho ▸ mem_toList.mpr hh
  | kept raw hname hkind hp =>
    exact Triple.bind (.reads fun s hs => hs) fun kept =>
      hnew hids ⟨hname, fun _ => hkind, by simp, by simp [hp]⟩
  | pair hfamily hname => exact newPair_grew _ hfamily hname

end Calls

lemma importHalf_kind (host : Host) {family : Family} {format : Format} {keyData : KeyData}
    {r : SubtleKey × Bytes × ℕ}
    (hr : ∃ s, ((importHalf host.checked family format keyData).on s).1 = .ok r) :
    r.1.kind = family.kind := by
  have hfound {found : Option (SubtleKey × Bytes × ℕ)} :
      Triple (fun _ => True) (orThrow (found.filter fun r => r.1.kind = family.kind) .host : Call _)
        (fun r _ => r.1.kind = family.kind) fun _ => True :=
    (Triple.orThrow fun _ _ => trivial).post fun r s hs => by
      simpa using (filter_eq_some_iff.mp hs.2).2
  have hder : Triple (fun _ => True) (readSource keyData.source >>= fun der =>
        orThrow (host.checked.importDER family format der) .host)
      (fun r _ => r.1.kind = family.kind) fun _ => True :=
    ((plain_readSource _).keeps fun _ _ _ _ _ => trivial).bind fun der => hfound
  have himport : Triple (fun _ => True) (importHalf host.checked family format keyData)
      (fun r _ => r.1.kind = family.kind) fun _ => True := by
    cases format with
    | jwk => exact hfound
    | pkcs8 | spki => exact hder
    | raw => exact .ite (fun _ => hder) fun _ => .throw fun _ hs => hs
    | other => exact .throw fun _ hs => hs
  obtain ⟨s, hs⟩ := hr
  exact himport.of_ok trivial hs

/-! ### Uses of a key -/

/-- The keys and the entries are still those of `c`. -/
structure Still (c s : State) : Prop where
  objects : s.objects = c.objects
  table : s.table.keys = c.table.keys

section Uses

variable {c : State}

lemma Plain.still {α : Type} {x : Call α} (h : Plain x) :
    Triple (Still c) x (fun _ => Still c) fun _ => True :=
  (h.keeps fun _ _ ho ht hs => ⟨ho.trans hs.objects, ht.trans hs.table⟩).fails fun _ _ => trivial

/-- The key of a call, with a usage. -/
def Permits (c : State) (key : Option ℕ) (usage : Usage) (k : ℕ) : Prop :=
  key = some k ∧ ∃ o, c.objects[k]? = some o ∧ usage ∈ o.props.usages

lemma need_still (key : Option ℕ) (usage : Usage) :
    Triple (Still c) (need key usage) (fun k s => Still c s ∧ Permits c key usage k)
      fun _ => True := by
  refine (asKey_spec (R := Still c) key).knowing fun k hk => ?_
  refine (propsOf_spec (fun _ => Still.objects) k).knowing fun props hprops => ?_
  refine .ite (fun hu => .pure fun s hs => ⟨hs, hk, ?_⟩) fun _ => .throw fun _ _ => trivial
  obtain ⟨o, ho, rfl⟩ := map_eq_some_iff.mp hprops
  exact ⟨o, ho, hu⟩

lemma hostKey_still (handle : Option ℕ) (e : Err) :
    Triple (Still c) (hostKey handle e)
      (fun entry s => Still c s ∧ ∃ h ∈ handle, c.table.keys.lookup h = some entry)
      fun _ => True := by
  intro s hs
  rw [hostKey_on]
  cases hfound : handle.bind s.table.get with
  | none => trivial
  | some entry =>
    obtain ⟨id, hid, hget⟩ := bind_eq_some_iff.mp hfound
    obtain ⟨k, hk, rfl⟩ := map_eq_some_iff.mp hget
    refine ⟨⟨hs.objects, ?_⟩, id, hid, hs.table ▸ hk⟩
    split <;> exact hs.table

/-- A key of a kind. -/
def HasKind (c : State) (k : ℕ) (kind : Kind) : Prop :=
  ∃ o, c.objects[k]? = some o ∧ o.props.algorithm.name.kind = kind

variable (hc : Typed c)
include hc

lemma rawOf_still (k : ℕ) :
    Triple (Still c) (rawOf k)
      (fun raw s => Still c s ∧ (raw.isSome = true → HasKind c k .raw)) fun _ => True := by
  refine .reads fun s hs => ⟨hs, fun hsome => ?_⟩
  rw [hs.objects, isSome_map, isSome_bind] at hsome
  obtain ⟨o, ho, hraw⟩ := (any_eq_true _ _).mp hsome
  exact ⟨o, ho, (hc o (mem_of_getElem? ho)).raw hraw⟩

lemma entry_kind {k h : ℕ} {props : CryptoKey} {entry : SubtleKey}
    (hprops : c.objects[k]?.map Object.props = some props) (hh : h ∈ props.handle)
    (hentry : c.table.keys.lookup h = some entry) : HasKind c k entry.kind := by
  obtain ⟨o, ho, rfl⟩ := map_eq_some_iff.mp hprops
  exact ⟨o, ho, ((hc o (mem_of_getElem? ho)).host h hh entry hentry).symm⟩

/-- An algorithm under which a key can be used: one of its kind, or one that takes any key. -/
def Suits (c : State) (k : ℕ) (name : AlgName) : Prop :=
  ∃ o, c.objects[k]? = some o ∧ (o.props.algorithm.name.kind = name.kind ∨ name.takesAny = true)

omit hc in
lemma HasKind.suits {k : ℕ} {name : AlgName} (h : HasKind c k name.kind) : Suits c k name := by
  obtain ⟨o, ho, hkind⟩ := h
  exact ⟨o, ho, .inl hkind⟩

/-- A function of the host that looks for an entry of its own kind. -/
lemma hostUse_still {α : Type} {k : ℕ} {props : CryptoKey} {kind : Kind} {f : SubtleKey → Option α}
    (hprops : c.objects[k]?.map Object.props = some props)
    (hf : ∀ entry out, f entry = some out → entry.kind = kind) (e e' : Err) :
    Triple (Still c) (hostKey props.handle e >>= fun entry => orThrow (f entry) e')
      (fun _ s => Still c s ∧ HasKind c k kind) fun _ => True := by
  refine (hostKey_still _ _).knowing fun entry ⟨h, hh, hentry⟩ => ?_
  refine (Triple.orThrow fun _ _ => trivial).post fun out s hs => ⟨hs.1, ?_⟩
  exact hf entry out hs.2 ▸ entry_kind hc hprops hh hentry

/-- A function of the host on the raw bytes of a key and the data of the call. -/
lemma rawUse_still {α : Type} (k : ℕ) (data : Source) (f : Bytes → Bytes → Call α) (e : Err) :
    Triple (Still c) (do
      let raw ← rawOf k
      let data ← readSource data
      let key ← orThrow raw e
      f key data) (fun _ _ => HasKind c k .raw) fun _ => True := by
  refine (rawOf_still hc k).knowing fun raw hraw => ?_
  refine (plain_readSource _).still.bind fun data => ?_
  refine (Triple.orThrow fun _ _ => trivial).bind fun key => .assuming fun hkey => ?_
  exact .const _ fun _ _ => hraw (by rw [hkey]; rfl)

variable (host : Host)

/-- What `encrypt`, `decrypt` and `rawCrypt` do under AES and RSA-OAEP. -/
lemma cipher_still (encrypt : Bool) (alg : AlgArg) (k : ℕ) (data : Source) (coins : Coins) :
    Triple (Still c) (if alg.name ∈ aesNames then aesCrypt host.checked encrypt alg k data
        else if alg.name = .rsaOaep then oaepCrypt host.checked encrypt alg k data coins
        else throw .notSupported) (fun _ _ => HasKind c k alg.name.kind) fun _ => True := by
  refine .ite (fun hname => ?_) fun _ => .ite (fun hname => ?_) fun _ => .throw fun _ _ => trivial
  · have hkind : ∀ name ∈ aesNames, name.kind = .raw := by decide
    rw [hkind _ hname]
    refine (plain_readSource _).still.bind fun iv => (plain_readOptional _).still.bind fun aad => ?_
    exact rawUse_still hc k data _ _
  · rw [hname]
    refine (plain_readOptional _).still.bind fun label => ?_
    refine (propsOf_spec (fun _ => Still.objects) k).knowing fun props hprops => ?_
    refine (plain_readSource _).still.bind fun data => ?_
    refine (hostUse_still hc hprops (fun entry out h => ?_) _ _).post fun _ _ h => h.2
    exact (ite_none_right_eq_some.mp h).1.1

lemma crypt_still (encrypt : Bool) (alg : AlgArg) (key : Option ℕ) (data : Source) (coins : Coins) :
    Triple (Still c) (crypt host.checked encrypt alg key data coins)
      (fun _ _ => ∃ k, Permits c key (if encrypt then .encrypt else .decrypt) k ∧
        Suits c k alg.name) fun _ => True := by
  refine (need_still _ _).knowing fun k hk => ?_
  exact (cipher_still hc host _ _ _ _ _).post fun _ _ h => ⟨k, hk, h.suits⟩

lemma rawCrypt_still (encrypt : Bool) (alg : AlgArg) (k : ℕ) (data : Source) (coins : Coins) :
    Triple (Still c) (rawCrypt host.checked encrypt alg k data coins)
      (fun _ _ => HasKind c k alg.name.kind) fun _ => True := by
  refine .ite (fun hname => ?_) fun _ => cipher_still hc host _ _ _ _ _
  rw [hname]
  exact rawUse_still hc k data _ _

lemma sign_still (alg : AlgArg) (key : Option ℕ) (data : Source) (coins : Coins) :
    Triple (Still c) (sign host.checked alg key data coins)
      (fun _ _ => ∃ k, Permits c key .sign k ∧ Suits c k alg.name) fun _ => True := by
  refine (need_still _ _).knowing fun k hk => ?_
  refine .ite (fun _ => ?_) fun _ => .throw fun _ _ => trivial
  refine (propsOf_spec (fun _ => Still.objects) k).knowing fun props hprops => ?_
  refine (plain_signHash _ _).still.bind fun hash => (plain_readSource _).still.bind fun data => ?_
  refine (hostUse_still hc hprops (fun entry out h => ?_) _ _).post fun _ _ h =>
    ⟨k, hk, h.2.suits⟩
  exact (ite_none_right_eq_some.mp h).1.1

lemma verify_still (alg : AlgArg) (key : Option ℕ) (signature data : Source) :
    Triple (Still c) (verify host.checked alg key signature data)
      (fun _ _ => ∃ k, Permits c key .verify k ∧ Suits c k alg.name) fun _ => True := by
  refine (need_still _ _).knowing fun k hk => ?_
  refine .ite (fun _ => ?_) fun _ => .throw fun _ _ => trivial
  refine (propsOf_spec (fun _ => Still.objects) k).knowing fun props hprops => ?_
  refine (plain_signHash _ _).still.bind fun hash => (plain_readSource _).still.bind fun sig => ?_
  refine (plain_readSource _).still.bind fun data => ?_
  refine (hostUse_still hc hprops (fun entry out h => ?_) _ _).post fun _ _ h =>
    ⟨k, hk, h.2.suits⟩
  exact (ite_none_right_eq_some.mp h).1

lemma jwkOf_still (k : ℕ) :
    Triple (Still c) (jwkOf host.checked k) (fun _ s => Still c s ∧ HasKind c k .ec)
      fun _ => True := by
  refine Triple.bind (Q := fun jwk s => Still c s ∧ jwk = c.objects[k]?.bind Object.keyJwk)
    (.reads fun s hs => ⟨hs, by rw [hs.objects]⟩) fun jwk => .assuming fun hjwk => ?_
  cases jwk with
  | some text =>
    obtain ⟨o, ho, htext⟩ := bind_eq_some_iff.mp hjwk.symm
    refine .pure fun s hs => ⟨hs, o, ho, (hc o (mem_of_getElem? ho)).jwk ?_⟩
    rw [htext]
    rfl
  | none =>
    refine (propsOf_spec (fun _ => Still.objects) k).knowing fun props hprops => ?_
    refine .ite (fun _ => ?_) fun _ => .throw fun _ _ => trivial
    exact hostUse_still hc hprops (fun entry out h => (ite_none_right_eq_some.mp h).1) _ _

lemma deriveBitsRaw_still {k : ℕ} {key : Option ℕ} {usage : Usage} (hk : Permits c key usage k)
    (alg : AlgArg) (length : ℕ) :
    Triple (Still c) (deriveBitsRaw host.checked alg k length)
      (fun _ _ => ∃ k, Permits c key usage k ∧ Suits c k alg.name) fun _ => True := by
  have hany (hname : alg.name.takesAny = true) : Suits c k alg.name := by
    obtain ⟨-, o, ho, -⟩ := hk
    exact ⟨o, ho, .inr hname⟩
  unfold deriveBitsRaw
  split <;> rename_i hname
  · refine (jwkOf_still hc host k).knowing fun privJWK hkind => ?_
    refine .const _ fun _ _ => ⟨k, hk, HasKind.suits ?_⟩
    rw [hname]
    exact hkind
  · exact .const _ fun _ _ => ⟨k, hk, hany (by rw [hname]; rfl)⟩
  · exact .const _ fun _ _ => ⟨k, hk, hany (by rw [hname]; rfl)⟩
  · exact .throw fun _ _ => trivial

end Uses

/-! ### Guest programs -/

def Op.gate : Op → Option (Option ℕ × Usage)
  | .sign _ key _ _ => some (key, .sign)
  | .verify _ key _ _ => some (key, .verify)
  | .crypt encrypt _ key _ _ => some (key, if encrypt then .encrypt else .decrypt)
  | .wrapKey _ _ wrappingKey _ => some (wrappingKey, .wrapKey)
  | .unwrapKey _ _ unwrappingKey _ _ _ _ _ => some (unwrappingKey, .unwrapKey)
  | .deriveBits _ baseKey _ => some (baseKey, .deriveBits)
  | .deriveKey _ baseKey _ _ _ => some (baseKey, .deriveKey)
  | _ => none

/-- The key whose material an operation uses, and the algorithm. -/
def State.use (s : State) : Op → Option (ℕ × AlgName)
  | .sign alg key _ _ | .verify alg key _ _ | .crypt _ alg key _ _ | .unwrapKey _ _ key alg _ _ _ _
  | .deriveBits alg key _ | .deriveKey alg key _ _ _ => key.map fun k => (k, alg.name)
  | .resume i _ =>
    match s.pending[i]? with
    | some (.wrap _ k alg) => some (k, alg.name)
    | _ => none
  | _ => none

/-- An operation that succeeds was permitted to use its key, and used it under the name that the key
has. -/
def Binds (host : Host) (s : State) (op : Op) : Prop :=
  (step host s op).1.isOk = true →
    (∀ g ∈ op.gate, ∃ k, Permits s g.1 g.2 k) ∧
      ∀ u ∈ s.use op, ∃ o, s.objects[u.1]? = some o ∧ u.2 = o.props.algorithm.name

/-- The keys keep their algorithms. -/
def KeepsNames (s s' : State) : Prop :=
  ∀ (k : ℕ) (o : Object), s.objects[k]? = some o → ∃ o', s'.objects[k]? = some o' ∧
    o'.props.algorithm = o.props.algorithm

/-- The guest gives no object a handle or another algorithm, and the host draws handles that no
object has. -/
def Untampered (s : State) (op : Op) : Prop :=
  (∀ id ∈ op.handles, Unnamed s id) ∧ match op with
    | .construct p => p.handle = none
    | .assign _ (.algorithm _) | .assign _ (.handle _) => False
    | _ => True

/-- The operation does not use a key under another algorithm of the same kind, nor under one that
takes any key. -/
def OneName (s : State) (op : Op) : Prop :=
  ∀ u ∈ s.use op, ∀ o ∈ s.objects[u.1]?,
    o.props.algorithm.name.kind = u.2.kind ∨ u.2.takesAny = true → u.2 = o.props.algorithm.name

instance (s : State) (op : Op) : Decidable (Untampered s op) := by
  apply @Op.casesOn (Decidable <| Untampered s ·)
  case construct => exact fun p => inferInstanceAs (Decidable (_ ∧ p.handle = none))
  case assign =>
    intro k a
    apply @Assignment.casesOn (Decidable <| Untampered s <| .assign k ·) <;>
      exact fun _ => instDecidableAnd
  all_goals intros; exact inferInstanceAs (Decidable (_ ∧ True))

instance (s : State) (op : Op) : Decidable (OneName s op) :=
  inferInstanceAs (Decidable (∀ u ∈ s.use op, ∀ o ∈ s.objects[u.1]?, _ → _))

lemma Grown.keepsNames {c : State} {kind : Kind} {ids : List ℕ} (h : Grown c kind ids s) :
    KeepsNames c s := by
  obtain ⟨added, hobjects, -⟩ := h.objects
  intro k o hk
  refine ⟨o, ?_, rfl⟩
  rw [hobjects, getElem?_append_left (List.getElem?_eq_some_iff.mp hk).1]
  exact hk

lemma Typed.assign (hs : Typed s) {a : Assignment}
    (ha : ∀ p : CryptoKey, (a.apply p).algorithm = p.algorithm ∧ (a.apply p).handle = p.handle)
    (key : ℕ) (host : Host) :
    Typed (step host s (.assign key a)).2 ∧ KeepsNames s (step host s (.assign key a)).2 := by
  let change (k : ℕ) (o : Object) : Object :=
    if key = k then { o with props := a.apply o.props } else o
  have hobjects (k : ℕ) :
      (step host s (.assign key a)).2.objects[k]? = (s.objects[k]?).map (change k) :=
    getElem?_modify _ _ _ _
  have halgorithm (k : ℕ) (o : Object) : (change k o).props.algorithm = o.props.algorithm := by
    dsimp only [change]
    split
    · exact (ha o.props).1
    · rfl
  constructor
  · intro o ho
    obtain ⟨k, hk⟩ := mem_iff_getElem?.mp ho
    rw [hobjects] at hk
    obtain ⟨o', ho', rfl⟩ := map_eq_some_iff.mp hk
    have hfit := hs o' (mem_of_getElem? ho')
    refine ⟨?_, ?_, ?_⟩ <;> rw [halgorithm]
    · intro hraw
      refine hfit.raw ?_
      dsimp only [change] at hraw
      split at hraw <;> exact hraw
    · intro hjwk
      refine hfit.jwk ?_
      dsimp only [change] at hjwk
      split at hjwk <;> exact hjwk
    · intro h hh
      refine hfit.host h ?_
      dsimp only [change] at hh
      split at hh
      · rwa [(ha o'.props).2] at hh
      · exact hh
  · intro k o hk
    refine ⟨change k o, ?_, halgorithm k o⟩
    rw [hobjects, hk]
    rfl

lemma Typed.construct (hs : Typed s) {p : CryptoKey} (hp : p.handle = none)
    (host : Host) :
    Typed (step host s (.construct p)).2 ∧ KeepsNames s (step host s (.construct p)).2 := by
  constructor
  · intro o ho
    rcases mem_append.mp ho with ho | ho
    · exact hs o ho
    · rw [mem_singleton.mp ho]
      exact ⟨by simp, by simp, by simp [hp]⟩
  · intro k o hk
    exact ⟨o, (getElem?_append_left (List.getElem?_eq_some_iff.mp hk).1).trans hk, rfl⟩

lemma Typed.step (hs : Typed s) (host : Host) {op : Op} (hop : Untampered s op) :
    Typed (step host.checked s op).2 ∧ KeepsNames s (step host.checked s op).2 := by
  rcases makes_step host.checked (fun (_ : True) _ _ _ _ => importHalf_kind host) s op with
    ⟨kind, coins, x, i, hhandles, hx, hstep⟩ | ⟨p, rfl⟩ | ⟨key, a, rfl⟩ |
      ⟨buffer, offset, bytes, rfl⟩
  · rw [Subtle.step, hstep aliasing s rfl]
    have hresumed : Grown s kind [] (s.resumed i) := (Grown.refl s kind).congr rfl rfl
    obtain ⟨ids, hids, hgrown⟩ := (hx.grew (by simp) aliasing).final hresumed
    exact ⟨hgrown.typed hs fun id hid => hop.1 id (hhandles ▸ hids id hid), hgrown.keepsNames⟩
  · exact hs.construct hop.2 host.checked
  · refine hs.assign (fun p => ?_) key host.checked
    cases a with
    | algorithm | handle => exact hop.2.elim
    | type | extractable | usages => exact ⟨rfl, rfl⟩
  · exact ⟨hs, fun k o hk => ⟨o, hk, rfl⟩⟩

/-! ### Algorithm binding -/

/-- An operation that succeeds has used its key under an algorithm that suits it. -/
lemma Typed.use_suits (hs : Typed s) (host : Host) {op : Op}
    (hok : (Subtle.step host.checked s op).1.isOk = true) :
    (∀ g ∈ op.gate, ∃ k, Permits s g.1 g.2 k) ∧ ∀ u ∈ s.use op, Suits s u.1 u.2 := by
  have hreturned {α : Type} {x : Call α} {g : α → Out} {p : Prop}
      (h : Triple (Still s) x (fun _ _ => p) fun _ => True)
      (hok : ((x >>= fun a => pure (g a)).on s).1.isOk = true) : p :=
    (h.bind fun _ => .const _ fun _ h => h).returned ⟨rfl, rfl⟩ hok
  -- the key that the check of the usage has found is the one that is used
  have hboth {key : Option ℕ} {usage : Usage} {name : AlgName}
      (h : ∃ k, Permits s key usage k ∧ Suits s k name) :
      (∀ g ∈ some (key, usage), ∃ k, Permits s g.1 g.2 k) ∧
        ∀ u ∈ key.map fun k => (k, name), Suits s u.1 u.2 := by
    obtain ⟨k, hpermits, hsuits⟩ := h
    refine ⟨fun g hg => ⟨k, ?_⟩, fun u hu => ?_⟩
    · cases hg
      exact hpermits
    · rw [hpermits.1] at hu
      cases hu
      exact hsuits
  cases op with
  | sign alg key data coins => exact hboth (hreturned (sign_still hs host _ _ _ _) hok)
  | verify alg key signature data => exact hboth (hreturned (verify_still hs host _ _ _ _) hok)
  | crypt encrypt alg key data coins =>
    exact hboth (hreturned (crypt_still hs host _ _ _ _ _) hok)
  | wrapKey format key wrappingKey wrapAlg =>
    refine ⟨fun g hg => ?_, by simp [State.use]⟩
    cases hg
    have hwrap : Triple (Still s) (wrapKey host.checked format key wrappingKey wrapAlg)
        (fun _ _ => ∃ k, Permits s wrappingKey .wrapKey k) fun _ => True :=
      (need_still _ _).knowing fun w hw => .const _ fun _ _ => ⟨w, hw⟩
    exact hreturned hwrap hok
  | unwrapKey format wrappedKey unwrappingKey unwrapAlg keyAlg extractable usages coins =>
    have hunwrap : Triple (Still s) (unwrapKey host.checked aliasing format wrappedKey unwrappingKey
        unwrapAlg keyAlg extractable usages coins)
        (fun _ _ => ∃ k, Permits s unwrappingKey .unwrapKey k ∧ Suits s k unwrapAlg.name)
        fun _ => True :=
      (need_still _ _).knowing fun u hu =>
        (rawCrypt_still hs host _ _ _ _ _).bind fun _ => .const _ fun _ h => ⟨u, hu, h.suits⟩
    exact hboth (hreturned hunwrap hok)
  | deriveBits alg baseKey length =>
    have hderive : Triple (Still s) (deriveBits host.checked alg baseKey length)
        (fun _ _ => ∃ k, Permits s baseKey .deriveBits k ∧ Suits s k alg.name) fun _ => True :=
      (need_still _ _).knowing fun u hu => deriveBitsRaw_still hs host hu _ _
    exact hboth (hreturned hderive hok)
  | deriveKey alg baseKey derivedKeyAlg extractable usages =>
    have hderive : Triple (Still s) (deriveKey host.checked alg baseKey derivedKeyAlg extractable
        usages) (fun _ _ => ∃ k, Permits s baseKey .deriveKey k ∧ Suits s k alg.name)
        fun _ => True :=
      (need_still _ _).knowing fun u hu => (plain_derivedLength _).still.bind fun _ =>
        (deriveBitsRaw_still hs host hu _ _).bind fun _ => .const _ fun _ h => h
    exact hboth (hreturned hderive hok)
  | resume i coins =>
    refine ⟨by simp [Op.gate], fun u hu => ?_⟩
    rw [Subtle.step, stepWith_resume] at hok
    simp only [State.use] at hu
    split at hu
    · rename_i bytes k alg hp
      cases hu
      rw [hp] at hok
      have hfinish : Triple (Still s) (finish host.checked aliasing coins (.wrap bytes k alg))
          (fun _ _ => HasKind s k alg.name.kind) fun _ => True :=
        (rawCrypt_still hs host _ _ _ _ _).bind fun _ => .const _ fun _ h => h
      exact (hfinish.returned (s := s.resumed i) ⟨rfl, rfl⟩ hok).suits
    · cases hu
  | digest | generateKey | importKey | exportKey | construct | assign | write =>
    exact ⟨by simp [Op.gate], by simp [State.use]⟩

/-- Every operation that succeeds was permitted to use its key, and used it under the algorithm that
the key was created for. -/
theorem algorithm_bound (host : Host) (memory : Memory) (ops : List Op)
    (hops : Always (step host.checked) (fun s op => Untampered s op ∧ OneName s op) (boot memory)
      ops) :
    Always (step host.checked)
      (fun s op => Binds host.checked s op ∧ KeepsNames s (step host.checked s op).2)
      (boot memory) ops := by
  refine Always.of_invariant (I := Typed) (fun s op hs hop => ?_) (typed_boot memory) hops
  obtain ⟨htyped, hkeeps⟩ := hs.step host hop.1
  refine ⟨htyped, fun hok => ?_, hkeeps⟩
  obtain ⟨hgate, hsuits⟩ := hs.use_suits host hok
  refine ⟨hgate, fun u hu => ?_⟩
  obtain ⟨o, ho, hsuits⟩ := hsuits u hu
  exact ⟨o, ho, hop.2 u hu o ho hsuits⟩

def properUses : List Op :=
  [.generateKey { name := .aesGcm, length := some 128 } true [.encrypt, .sign] {},
    .generateKey { name := .hmac, hash := some .sha256 } true [.sign, .encrypt] { draws := [11] },
    .crypt true { name := .aesGcm, iv := .buffer (.own [1]) } (some 0) (.buffer (.own [2])) {},
    .sign { name := .hmac } (some 1) (.buffer (.own [3])) {},
    .importKey .raw { source := .buffer (.own [4]) } { name := .pbkdf2 } false [.deriveBits] {},
    .deriveBits { name := .pbkdf2, hash := some .sha1, salt := .buffer (.own [5]) } (some 2) 8,
    .sign { name := .hmac } (some 0) (.buffer (.own [3])) {},
    .crypt true { name := .aesGcm, iv := .buffer (.own [1]) } (some 1) (.buffer (.own [2])) {}]

theorem properUses_bound :
    Always (step plainHost.checked)
      (fun s op => Binds plainHost.checked s op ∧ KeepsNames s (step plainHost.checked s op).2)
      (boot []) properUses
    ∧ (outputs (step plainHost.checked) (boot []) properUses).map Except.isOk
      = [true, true, true, true, true, true, false, false] :=
  ⟨algorithm_bound plainHost [] properUses (by decide +kernel), by decide +kernel⟩

def gcmKey : List Op :=
  [.generateKey { name := .aesGcm, length := some 128 } false [.encrypt]
    { bytes := List.replicate 16 9 }]

def underCtr : Op :=
  .crypt true { name := .aesCtr, counter := .buffer (.own (List.replicate 16 0)) } (some 0)
    (.buffer (.own [1])) {}

/-- The AES-GCM key encrypts in counter mode. -/
theorem gcmKey_encrypts_underCtr :
    (step plainHost.checked (final (step plainHost.checked) (boot []) gcmKey) underCtr).1
        = .ok (.bytes (List.replicate 16 9 ++ List.replicate 16 0 ++ [1]))
    ∧ ¬ Binds plainHost.checked (final (step plainHost.checked) (boot []) gcmKey) underCtr := by
  refine ⟨by decide +kernel, fun h => ?_⟩
  obtain ⟨o, ho, hname⟩ := (h (by decide +kernel)).2 (0, .aesCtr) rfl
  have hgcm : (final (step plainHost.checked) (boot []) gcmKey).objects[0]?.map
      (fun o => o.props.algorithm.name) = some .aesGcm := by decide +kernel
  rw [ho, map_some, ← hname] at hgcm
  cases hgcm

end GoSpidermonkey.Web.Subtle
