import GoSpidermonkey.Web.Subtle

/-!
# What the calls create

Most of `crypto.subtle` only reads: it looks at buffers, at the properties of keys and at the bytes
of keys, moves an entry of the host's table to the front and leaves a waiting call behind. `Plain`
is the class of these calls. What holds of each of the few effects holds of all of them, so a
property of the interface has to be shown for the calls that create keys and once, by induction on
`Plain`, for the others. Reading does not depend on whether the bytes of keys have been copied
(`State.frozen`). The calls that create keys are `Makes`: what each of them puts in the table and
which objects it adds.
-/

namespace GoSpidermonkey.Web.Subtle

open Failing

/-- An object with bytes of its own. -/
def Object.frozen (m : Memory) (o : Object) : Object :=
  { o with keyRaw := o.keyRaw.map fun raw => .own (raw.bytes m) }

/-- The state after the bytes of all keys have been copied. -/
def State.frozen (s : State) : State :=
  { s with objects := s.objects.map (Object.frozen s.memory) }

lemma frozen_props (s : State) (k : ℕ) :
    s.frozen.objects[k]?.map Object.props = s.objects[k]?.map Object.props := by
  simp only [State.frozen, List.getElem?_map, Option.map_map]
  rfl

lemma frozen_keyJwk (s : State) (k : ℕ) :
    s.frozen.objects[k]?.bind Object.keyJwk = s.objects[k]?.bind Object.keyJwk := by
  simp only [State.frozen, List.getElem?_map, Option.bind_map]
  rfl

/-- The copied bytes read as those they were copied from. -/
lemma frozen_keyRaw (s : State) (k : ℕ) :
    (s.frozen.objects[k]?.bind Object.keyRaw).map (Raw.bytes s.frozen.memory)
      = (s.objects[k]?.bind Object.keyRaw).map (Raw.bytes s.memory) := by
  simp only [State.frozen, List.getElem?_map, Option.bind_map]
  cases s.objects[k]? with
  | none => rfl
  | some o => cases hraw : o.keyRaw <;> simp [Object.frozen, hraw, Raw.bytes]

/-- Calls built from reads, uses of the host's table, and suspensions. -/
inductive Plain : {α : Type} → Call α → Prop
  | pure {α : Type} (a : α) : Plain (pure a)
  | throw {α : Type} (e : Err) : Plain (throw e : Call α)
  | reads {α : Type} {f : State → α} (h : ∀ s : State, f s.frozen = f s) : Plain (reads f)
  | hostKey (handle : Option ℕ) (e : Err) : Plain (hostKey handle e)
  | suspend (p : Pending) : Plain (suspend p)
  | bind {α β : Type} {x : Call α} {f : α → Call β} (hx : Plain x) (hf : ∀ a, Plain (f a)) :
      Plain (x >>= f)

/-- A plain call keeps what depends on the objects and on the entries of the table alone. -/
lemma Plain.keeps {α : Type} {x : Call α} (h : Plain x) {R : State → Prop}
    (hR : ∀ s s' : State, s'.objects = s.objects → s'.table.keys = s.table.keys → R s → R s') :
    Triple R x (fun _ => R) R := by
  induction h with
  | pure a => exact .pure fun s hs => hs
  | throw e => exact .throw fun s hs => hs
  | reads => exact .reads fun s hs => hs
  | suspend p => exact .writes fun s hs => hR s _ rfl rfl hs
  | bind _ _ hx hf => exact hx.bind hf
  | hostKey handle e =>
    intro s hs
    rw [hostKey_on]
    cases hfound : handle.bind s.table.get with
    | none => exact hs
    | some entry =>
      obtain ⟨id, -, hget⟩ := Option.bind_eq_some_iff.mp hfound
      obtain ⟨k, -, rfl⟩ := Option.map_eq_some_iff.mp hget
      refine hR s _ rfl ?_ hs
      split <;> rfl

lemma plain_orThrow {α : Type} (o : Option α) (e : Err) : Plain (orThrow o e) := by
  cases o with
  | none => exact .throw e
  | some a => exact .pure a

lemma plain_ite {α : Type} {p : Prop} [Decidable p] {x y : Call α} (hx : Plain x) (hy : Plain y) :
    Plain (if p then x else y) := by
  split
  · exact hx
  · exact hy

lemma plain_toU8 (src : Source) : Plain (toU8 src) := by
  cases src with
  | buffer raw => exact .pure raw
  | missing | other => exact .throw _

lemma plain_bytesOf (raw : Raw) : Plain (bytesOf raw) := Plain.reads fun _ => rfl

lemma plain_readSource (src : Source) : Plain (readSource src) :=
  (plain_toU8 src).bind plain_bytesOf

lemma plain_readOptional (src : Source) : Plain (readOptional src) := by
  cases src with
  | missing => exact .pure []
  | buffer raw | other => exact plain_readSource _

lemma plain_asKey (key : Option ℕ) : Plain (asKey key) := by
  refine (Plain.reads fun s => by simp [State.frozen]).bind fun n => ?_
  cases key with
  | none => exact .throw _
  | some k => exact plain_ite (.pure k) (.throw _)

lemma plain_propsOf (k : ℕ) : Plain (propsOf k) :=
  (Plain.reads fun s => frozen_props s k).bind fun o => plain_orThrow o _

lemma plain_need (key : Option ℕ) (usage : Usage) : Plain (need key usage) :=
  (plain_asKey key).bind fun k => (plain_propsOf k).bind fun _ => plain_ite (.pure k) (.throw _)

lemma plain_rawOf (k : ℕ) : Plain (rawOf k) := Plain.reads fun s => frozen_keyRaw s k

lemma plain_rawArg (k : ℕ) : Plain (rawArg k) := (plain_rawOf k).bind fun _ => .pure _

lemma plain_randomValues (random : Bytes) (n : ℕ) : Plain (randomValues random n) :=
  plain_ite (.throw _) (.pure _)

lemma plain_hashName (hash : Option Hash) : Plain (hashName hash) := plain_orThrow _ _

section Interface

variable (host : Host) (encrypt : Bool) (family : Family) (format : Format) (alg : AlgArg) (k : ℕ)
  (key handle : Option ℕ) (keyData : KeyData) (data : Source) (coins : Coins)

/-- Keys come in as JWK or as DER; raw ones are Ed25519 keys. -/
lemma plain_importHalf : Plain (importHalf host family format keyData) := by
  have hder : Plain (readSource keyData.source >>= fun der =>
      orThrow (host.importDER family format der) .host) :=
    (plain_readSource _).bind fun der => plain_orThrow _ _
  cases format with
  | jwk => exact plain_orThrow _ _
  | pkcs8 | spki => exact hder
  | raw => exact plain_ite hder (.throw _)
  | other => exact .throw _

lemma plain_hmacKeyData : Plain (hmacKeyData host format keyData) := by
  cases format with
  | raw => exact plain_readSource _
  | jwk => exact plain_ite (plain_orThrow _ _) (.throw _)
  | pkcs8 | spki | other => exact .throw _

lemma plain_aesKeyData : Plain (aesKeyData host format keyData) := by
  cases format with
  | raw => exact plain_toU8 _
  | jwk => exact (plain_orThrow _ _).bind fun bytes => .pure _
  | pkcs8 | spki | other => exact .throw _

lemma plain_exportHalf : Plain (exportHalf host family format handle) := by
  have hder : Plain (do
      let key ← hostKey handle .host
      let der ← orThrow (host.exportDER family format key) .host
      pure (Exported.buffer der)) :=
    (Plain.hostKey _ _).bind fun key => (plain_orThrow _ _).bind fun der => .pure _
  cases format with
  | jwk => exact (Plain.hostKey _ _).bind fun key => (plain_orThrow _ _).bind fun _ => .pure _
  | pkcs8 | spki => exact hder
  | raw => exact plain_ite hder (.throw _)
  | other => exact .throw _

/-- `exportKey` reads the material of the key: the entry of the host, or the raw bytes. -/
lemma plain_exportKey : Plain (exportKey host format key) := by
  refine (plain_asKey key).bind fun k => (plain_propsOf k).bind fun props =>
    plain_ite ?_ (.throw _)
  split
  case h_1 =>
    refine (Plain.hostKey _ _).bind fun entry => (plain_orThrow _ _).bind fun raw => ?_
    cases format with
    | raw | jwk => exact .pure _
    | pkcs8 | spki | other => exact .throw _
  case h_7 | h_8 | h_9 | h_10 =>
    cases format with
    | raw | jwk =>
      exact (plain_rawOf k).bind fun raw => (plain_orThrow _ _).bind fun bytes => .pure _
    | pkcs8 | spki | other => exact .throw _
  case h_2 | h_3 | h_4 | h_5 | h_6 => exact plain_exportHalf host _ format _
  all_goals exact .throw _

lemma plain_aesCrypt : Plain (aesCrypt host encrypt alg k data) := by
  refine (plain_readSource _).bind fun iv => (plain_readOptional _).bind fun aad => ?_
  exact (plain_rawOf k).bind fun raw => (plain_readSource _).bind fun data =>
    (plain_orThrow raw _).bind fun key => plain_orThrow _ _

lemma plain_oaepCrypt : Plain (oaepCrypt host encrypt alg k data coins) := by
  refine (plain_readOptional _).bind fun label => (plain_propsOf k).bind fun props => ?_
  exact (plain_readSource _).bind fun data => (Plain.hostKey _ _).bind fun entry =>
    plain_orThrow _ _

/-- `encrypt` and `decrypt`. -/
lemma plain_crypt : Plain (crypt host encrypt alg key data coins) :=
  (plain_need _ _).bind fun _ => plain_ite (plain_aesCrypt host _ _ _ _)
    (plain_ite (plain_oaepCrypt host _ _ _ _ _) (.throw _))

/-- What `wrapKey` and `unwrapKey` do with the bytes of a key. -/
lemma plain_rawCrypt : Plain (rawCrypt host encrypt alg k data coins) := by
  refine plain_ite ?_ (plain_ite (plain_aesCrypt host _ _ _ _)
    (plain_ite (plain_oaepCrypt host _ _ _ _ _) (.throw _)))
  exact (plain_rawOf k).bind fun key => (plain_readSource _).bind fun data =>
    (plain_orThrow key _).bind fun key => plain_orThrow _ _

lemma plain_signHash (props : CryptoKey) : Plain (signHash alg props) :=
  plain_ite ((plain_hashName _).bind fun _ => .pure _) (.pure _)

lemma plain_sign : Plain (sign host alg key data coins) := by
  refine (plain_need _ _).bind fun k => plain_ite ?_ (.throw _)
  refine (plain_propsOf k).bind fun props => (plain_signHash _ _).bind fun hash => ?_
  exact (plain_readSource _).bind fun data => (Plain.hostKey _ _).bind fun entry =>
    plain_orThrow _ _

lemma plain_verify (signature : Source) : Plain (verify host alg key signature data) := by
  refine (plain_need _ _).bind fun k => plain_ite ?_ (.throw _)
  refine (plain_propsOf k).bind fun props => (plain_signHash _ _).bind fun hash => ?_
  exact (plain_readSource _).bind fun signature => (plain_readSource _).bind fun data =>
    (Plain.hostKey _ _).bind fun entry => plain_orThrow _ _

lemma plain_jwkOfHandle : Plain (jwkOfHandle host handle) :=
  plain_ite ((Plain.hostKey _ _).bind fun _ => plain_orThrow _ _) (.throw _)

/-- The JWK of an ECDH key is at the key itself, or made by the host. -/
lemma plain_jwkOf : Plain (jwkOf host k) := by
  refine (Plain.reads fun s => frozen_keyJwk s k).bind fun jwk => ?_
  cases jwk with
  | some text => exact .pure text
  | none => exact (plain_propsOf k).bind fun props => plain_jwkOfHandle host _

lemma plain_jwkOfPeer (peer : Peer) : Plain (jwkOfPeer host peer) := by
  cases peer with
  | missing => exact .throw _
  | key k => exact plain_jwkOf host k
  | object handle => exact plain_jwkOfHandle host handle

lemma plain_deriveBitsRaw (length : ℕ) : Plain (deriveBitsRaw host alg k length) := by
  unfold deriveBitsRaw
  split
  · exact (plain_jwkOf host _).bind fun privJWK => (plain_jwkOfPeer host _).bind fun pubJWK =>
      plain_orThrow _ _
  · refine (plain_hashName _).bind fun hash => (plain_readSource _).bind fun salt => ?_
    exact (plain_readSource _).bind fun info => (plain_rawArg _).bind fun ikm => plain_orThrow _ _
  · refine (plain_hashName _).bind fun hash => (plain_readSource _).bind fun salt => ?_
    exact (plain_rawArg _).bind fun password => plain_orThrow _ _
  · exact .throw _

/-- `wrapKey` exports the key, and waits. -/
lemma plain_wrapKey (wrappingKey : Option ℕ) : Plain (wrapKey host format key wrappingKey alg) :=
  (plain_need _ _).bind fun _ => (plain_exportKey host _ _).bind fun _ =>
    Plain.suspend _

lemma plain_derivedLength (derivedKeyAlg : AlgArg) : Plain (derivedLength derivedKeyAlg) :=
  plain_ite (plain_ite ((plain_hashName _).bind fun _ => .pure _) (.pure _)) (.pure _)

/-- `deriveKey` derives the bytes, and waits. -/
lemma plain_deriveKey (derivedKeyAlg : AlgArg) (extractable : Bool) (usages : List Usage) :
    Plain (deriveKey host alg key derivedKeyAlg extractable usages) :=
  (plain_need _ _).bind fun _ => (plain_derivedLength _).bind fun _ =>
    (plain_deriveBitsRaw host _ _ _).bind fun _ => Plain.suspend _

end Interface

/-! ### The calls that create keys -/

/-- The kinds of material. -/
inductive Kind
  | raw | hmac | ec | rsa | ed | unknown
deriving DecidableEq

/-- The kind of material that the keys of an algorithm have. -/
def AlgName.kind : AlgName → Kind
  | .aesGcm | .aesCbc | .aesCtr | .aesKw | .hkdf | .pbkdf2 => .raw
  | .hmac => .hmac
  | .ecdsa | .ecdh => .ec
  | .rsassa | .rsaPss | .rsaOaep => .rsa
  | .ed25519 => .ed
  | .other => .unknown

def Family.kind : Family → Kind
  | .ec => .ec
  | .rsa => .rsa
  | .ed => .ed

def SubtleKey.kind : SubtleKey → Kind
  | .hmac _ => .hmac
  | .privateKey family _ | .publicKey family _ => family.kind

/-- The ids that the host draws. -/
def Coins.handles (coins : Coins) : List ℕ := coins.draws.map (· % 2 ^ 52)

/-- Calls that create keys of a kind, after `held` has been drawn. The entries they put have the
kind as well if the host is `checked`. -/
inductive Makes (host : Host) (checked : Prop) (kind : Kind) (coins : Coins) :
    List ℕ → {α : Type} → (Keep → Call α) → Prop
  | plain {held : List ℕ} {α : Type} {x : Call α} (hx : Plain x) :
      Makes host checked kind coins held fun _ => x
  | after {held : List ℕ} {α β : Type} {x : Call α} {f : α → Keep → Call β} (hx : Plain x)
      (hf : ∀ a, (∃ s, (x.on s).1 = .ok a) → Makes host checked kind coins held (f a)) :
      Makes host checked kind coins held fun keep => x >>= fun a => f a keep
  | map {held : List ℕ} {α β : Type} {x : Keep → Call α} (g : α → β)
      (hx : Makes host checked kind coins held x) :
      Makes host checked kind coins held fun keep => x keep >>= fun a => pure (g a)
  | put {α : Type} {k : SubtleKey} {f : ℕ → Keep → Call α} (hk : checked → k.kind = kind)
      (hf : ∀ id, Makes host checked kind coins [id] (f id)) :
      Makes host checked kind coins [] fun keep => putKey coins.draws k >>= fun id => f id keep
  | new {held : List ℕ} {o : Object} (hname : o.props.algorithm.name.kind = kind)
      (hraw : ∀ raw ∈ o.keyRaw, kind = .raw ∧ ∃ bytes, raw = .own bytes)
      (hjwk : o.keyJwk.isSome = true → kind = .ec) (hheld : o.props.handle.toList = held) :
      Makes host checked kind coins held fun _ => newKey o
  | kept {p : CryptoKey} (raw : Raw) (hname : p.algorithm.name.kind = kind) (hkind : kind = .raw)
      (hp : p.handle = none) : Makes host checked kind coins [] fun keep =>
        reads (fun s => keep s.memory raw) >>= fun kept => newKey ⟨p, some kept, none⟩
  | pair {family : Family} {algo : Algorithm} {extractable : Bool}
      {privUsages pubUsages : List Usage}
      (hfamily : family.kind = kind) (hname : algo.name.kind = kind) :
      Makes host checked kind coins [] fun _ =>
        newPair host family algo extractable privUsages pubUsages coins

section Keys

variable (host : Host) {checked : Prop} {coins : Coins}

/-- `generateKey` creates keys of the kind of its algorithm. -/
lemma makes_generateKey (alg : AlgArg) (extractable : Bool) (usages : List Usage) :
    Makes host checked alg.name.kind coins [] fun _ =>
      generateKey host alg extractable usages coins := by
  cases hname : alg.name <;> simp only [generateKey, hname]
  case hmac =>
    refine .after (plain_hashName _) fun hash _ => .after (plain_randomValues _ _) fun raw _ => ?_
    exact .put (fun _ => rfl) fun h => .map _ (.new rfl (by simp) (by simp) rfl)
  case ecdsa | ecdh | ed25519 => exact .map _ (.pair rfl rfl)
  case rsassa | rsaPss | rsaOaep =>
    exact .after (plain_hashName _) fun hash _ => .map _ (.pair rfl rfl)
  case aesGcm | aesCbc | aesCtr | aesKw =>
    exact .after (plain_randomValues _ _) fun raw _ =>
      .map _ (.new rfl (by simp [AlgName.kind]) (by simp) rfl)
  all_goals exact .plain (.throw _)

variable (hhost : checked → ∀ family format keyData r,
  (∃ s, ((importHalf host family format keyData).on s).1 = .ok r) → r.1.kind = family.kind)
include hhost

/-- So does `importKey`, if the host imports entries of the family it is asked for. -/
lemma makes_importKey (format : Format) (keyData : KeyData) (alg : AlgArg) (extractable : Bool)
    (usages : List Usage) : Makes host checked alg.name.kind coins [] fun keep =>
      importKey host keep format keyData alg extractable usages coins := by
  cases hname : alg.name <;> simp only [importKey, hname]
  case hmac =>
    refine .after (plain_hmacKeyData host _ _) fun raw _ => .after (plain_hashName _)
      fun hash _ => ?_
    exact .put (fun _ => rfl) fun h => .new rfl (by simp) (by simp) rfl
  case ecdsa | ed25519 =>
    refine .after (plain_importHalf host _ _ _) fun r hr => ?_
    exact .put (fun h => hhost h _ _ _ r hr) fun id => .new rfl (by simp) (by simp) rfl
  case rsassa | rsaPss | rsaOaep =>
    refine .after (plain_importHalf host _ _ _) fun r hr => ?_
    refine .put (fun h => hhost h _ _ _ r hr) fun id => ?_
    exact .after (plain_hashName _) fun hash _ => .new rfl (by simp) (by simp) rfl
  case aesGcm | aesCbc | aesCtr | aesKw =>
    exact .after (plain_aesKeyData host _ _) fun raw _ => .after (plain_bytesOf raw) fun bytes _ =>
      .kept raw rfl rfl rfl
  case ecdh =>
    split
    · exact .new rfl (by simp) (by simp [AlgName.kind]) rfl
    · exact .plain (.throw _)
  case hkdf | pbkdf2 =>
    split
    · exact .after (plain_toU8 _) fun raw _ => .kept raw rfl rfl rfl
    · exact .plain (.throw _)
  case other => exact .plain (.throw _)

/-- The algorithm of the key that a waiting call will create. -/
def Pending.created : Pending → AlgName
  | .wrap .. => .other
  | .derive _ alg _ _ => alg.name

/-- A wrapping that goes on creates no key, a derivation imports one. -/
lemma makes_finish (p : Pending) :
    Makes host checked p.created.kind coins [] fun keep => finish host keep coins p := by
  cases p with
  | wrap bytes wrappingKey wrapAlg =>
    exact .plain ((plain_rawCrypt host _ _ _ _ _).bind fun wrapped => .pure _)
  | derive bits derivedKeyAlg extractable usages =>
    simp only [finish, Pending.created]
    split
    · exact .map _ (makes_importKey host hhost _ _ { name := derivedKeyAlg.name } _ _)
    split
    case isTrue hname =>
      rw [hname]
      exact .map _
        (makes_importKey host hhost _ _ { name := .hmac, hash := derivedKeyAlg.hash } _ _)
    case isFalse => exact .plain (.throw _)

/-- The ids drawn in an operation. -/
def Op.handles : Op → List ℕ
  | .generateKey _ _ _ coins | .importKey _ _ _ _ _ coins | .unwrapKey _ _ _ _ _ _ _ coins
  | .resume _ coins => coins.handles
  | _ => []

/-- The state when the `await` of a waiting call is over. -/
def State.resumed (s : State) (i : ℕ) : State := { s with pending := s.pending.eraseIdx i }

omit hhost in
lemma stepWith_resume (host : Host) (keep : Keep) (s : State) (i : ℕ) (coins : Coins) :
    stepWith host keep s (.resume i coins) = match s.pending[i]? with
      | some p => (finish host keep coins p).on (s.resumed i)
      | none => (.ok .done, s.resumed i) := by
  simp only [stepWith, perform, on_bind, on_reads, on_writes]
  cases s.pending[i]? <;> rfl

/-- Every operation is such a call, or the guest's own. -/
lemma makes_step (s : State) (op : Op) :
    (∃ kind coins x i, coins.handles = op.handles ∧ Makes host checked kind coins [] x ∧
        ∀ keep t, t.pending = s.pending → stepWith host keep t op = (x keep).on (t.resumed i))
      ∨ (∃ p, op = .construct p) ∨ (∃ k a, op = .assign k a)
      ∨ ∃ buffer offset bytes, op = .write buffer offset bytes := by
  have hmakes {op : Op} (kind : Kind) (coins : Coins) (hop : coins.handles = op.handles)
      (hx : Makes host checked kind coins [] fun keep => perform host keep op) :
      ∃ kind coins x i, coins.handles = op.handles ∧ Makes host checked kind coins [] x ∧
        ∀ keep t, t.pending = s.pending → stepWith host keep t op = (x keep).on (t.resumed i) := by
    refine ⟨kind, coins, _, s.pending.length, hop, hx, fun keep t ht => ?_⟩
    rw [State.resumed, ← ht, List.eraseIdx_of_length_le le_rfl]
    rfl
  have hread {op : Op} {α : Type} {x : Call α} {g : α → Out} (hx : Plain x)
      (hop : op.handles = [] ∧ ∀ keep, perform host keep op = x >>= fun a => pure (g a)) :=
    hmakes .unknown {} (hop.1.symm : _ = op.handles) (by
      simp only [hop.2]
      exact .map g (.plain hx))
  cases op with
  | generateKey => exact .inl (hmakes _ _ rfl (.map _ (makes_generateKey host _ _ _)))
  | importKey => exact .inl (hmakes _ _ rfl (.map _ (makes_importKey host hhost _ _ _ _ _)))
  | unwrapKey format wrappedKey unwrappingKey unwrapAlg keyAlg =>
    refine .inl (hmakes keyAlg.name.kind _ rfl (.map _ (.after (plain_need _ _) fun u _ => ?_)))
    refine .after (plain_rawCrypt host _ _ _ _ _) fun decrypted _ => ?_
    exact .after (plain_ite (plain_orThrow _ _) (.pure _)) fun material _ =>
      makes_importKey host hhost _ _ _ _ _
  | resume i coins =>
    cases hp : s.pending[i]? with
    | some p =>
      refine .inl ⟨_, coins, _, i, rfl, makes_finish host hhost p, fun keep t ht => ?_⟩
      rw [stepWith_resume, ht, hp]
    | none =>
      refine .inl ⟨.unknown, coins, _, i, rfl, .plain (.pure .done), fun keep t ht => ?_⟩
      rw [stepWith_resume, ht, hp]
      rfl
  | construct p => exact .inr (.inl ⟨p, rfl⟩)
  | assign k a => exact .inr (.inr (.inl ⟨k, a, rfl⟩))
  | write buffer offset bytes => exact .inr (.inr (.inr ⟨buffer, offset, bytes, rfl⟩))
  | digest =>
    exact .inl (hmakes .unknown {} rfl (.plain ((plain_hashName _).bind fun hash =>
      (plain_readSource _).bind fun data => .pure _)))
  | exportKey => exact .inl (hread (plain_exportKey host _ _) ⟨rfl, fun _ => rfl⟩)
  | sign => exact .inl (hread (plain_sign host _ _ _ _) ⟨rfl, fun _ => rfl⟩)
  | verify => exact .inl (hread (plain_verify host _ _ _ _) ⟨rfl, fun _ => rfl⟩)
  | crypt => exact .inl (hread (plain_crypt host _ _ _ _ _) ⟨rfl, fun _ => rfl⟩)
  | wrapKey => exact .inl (hread (plain_wrapKey host _ _ _ _) ⟨rfl, fun _ => rfl⟩)
  | deriveBits =>
    exact .inl (hread ((plain_need _ _).bind fun k => plain_deriveBitsRaw host _ _ _)
      ⟨rfl, fun _ => rfl⟩)
  | deriveKey => exact .inl (hread (plain_deriveKey host _ _ _ _ _) ⟨rfl, fun _ => rfl⟩)

end Keys

end GoSpidermonkey.Web.Subtle
