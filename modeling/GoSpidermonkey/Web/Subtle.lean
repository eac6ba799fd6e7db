import GoSpidermonkey.Go.Bytes
import GoSpidermonkey.Lib.Failing
import GoSpidermonkey.Lib.Transducer

/-!
# crypto.subtle

`js/subtle.js` implements the Web Crypto interface over host functions (`subtle.go`, `subtle2.go`).
A `CryptoKey` is an ordinary object with five writable properties. The raw bytes of AES, HKDF and
PBKDF2 keys and the JWK of imported ECDH keys stand in two `WeakMap`s keyed by the object; the
other keys carry the number of an entry of the host's key table in their property `_h`.

A guest program is a list of operations: calls of the interface, assignments to the properties of
keys, uses of the public constructor `CryptoKey`, and writes to its own buffers. The two functions
with an `await` in their middle (`wrapKey` and `deriveKey`) stop there and are resumed by a later
operation. The arithmetic of the cryptography is a parameter (`Host`).

Algorithm names are taken after `algName(a).toUpperCase()`, which is how every use reads them.
-/

namespace GoSpidermonkey.Web.Subtle

open Failing

/-! ### Names -/

inductive AlgName
  | hmac | ecdsa | rsassa | rsaPss | rsaOaep | aesGcm | aesCbc | aesCtr | aesKw | ed25519 | ecdh
  | hkdf | pbkdf2 | other
deriving DecidableEq

/-- `AES_NAMES`. -/
def aesNames : List AlgName := [.aesGcm, .aesCbc, .aesCtr]

/-- `RSA_NAMES`. -/
def rsaNames : List AlgName := [.rsassa, .rsaPss]

inductive Hash
  | sha1 | sha256 | sha384 | sha512

def Hash.blockBits : Hash → ℕ
  | .sha384 | .sha512 => 1024
  | .sha1 | .sha256 => 512

inductive Format
  | raw | jwk | pkcs8 | spki | other
deriving DecidableEq

inductive Usage
  | encrypt | decrypt | sign | verify | deriveKey | deriveBits | wrapKey | unwrapKey | other
deriving DecidableEq

inductive KeyType
  | secret | privateKey | publicKey | other
deriving DecidableEq

inductive Err
  | typeError | invalidAccess | notSupported | data | operation | quotaExceeded
  | invalidCharacter | badJson
  | host
  /-- The loop of `put` has not ended within the numbers drawn so far. -/
  | drawing
deriving DecidableEq

/-! ### Buffers -/

/-- A part of one of the guest's buffers. -/
structure View where
  buffer : ℕ
  offset : ℕ
  length : ℕ

abbrev Memory := List Bytes

def Memory.read (m : Memory) (v : View) : Bytes :=
  ((m.getD v.buffer []).drop v.offset).take v.length

def Memory.write (m : Memory) (buffer offset : ℕ) (bytes : Bytes) : Memory :=
  m.modify buffer fun b => b.take offset ++ (bytes.take (b.length - offset)
    ++ b.drop (offset + bytes.length))

/-- A byte array: over a buffer of the guest, or over one that nobody else refers to. -/
inductive Raw
  | view (v : View)
  | own (bytes : Bytes)

def Raw.bytes (m : Memory) : Raw → Bytes
  | .view v => m.read v
  | .own bytes => bytes

/-- An argument where a `BufferSource` is expected. -/
inductive Source
  | missing
  | buffer (raw : Raw)
  | other

/-! ### Keys -/

/-- The `algorithm` of a key. -/
structure Algorithm where
  name : AlgName
  hash : Option Hash := none
  namedCurve : Bytes := []
  length : ℕ := 0
  modulusLength : ℕ := 0

/-- The properties of a `CryptoKey`. The host reads `_h` as a number, of which the integer part
counts. -/
structure CryptoKey where
  type : KeyType
  extractable : Bool
  algorithm : Algorithm
  usages : List Usage
  handle : Option ℕ

/-- A `CryptoKey` object with what `keyRaw` and `keyJwk` hold for it. -/
structure Object where
  props : CryptoKey
  keyRaw : Option Raw
  keyJwk : Option Bytes

inductive Family
  | ec | rsa | ed
deriving DecidableEq

inductive SubtleKey
  | hmac (raw : Bytes)
  | privateKey (family : Family) (key : Bytes)
  | publicKey (family : Family) (key : Bytes)

def SubtleKey.type : SubtleKey → KeyType
  | .hmac _ => .secret
  | .privateKey .. => .privateKey
  | .publicKey .. => .publicKey

/-- The object a JWK is given in, or a `BufferSource`: what the code reads of it. -/
structure KeyData where
  source : Source := .other
  kty : Bytes := []
  /-- `String(keyData.k)`. -/
  k : Bytes := []
  /-- `typeof keyData.k === "string"`. -/
  kIsString : Bool := false
  /-- `keyData.d` is truthy. -/
  d : Bool := false
  crv : Bytes := []
  /-- `JSON.stringify(keyData)`. -/
  json : Bytes := []

/-- `alg.public`: a key, or another object, which may have a property `_h`. -/
inductive Peer
  | missing
  | key (k : ℕ)
  | object (handle : Option ℕ)

/-- The algorithm argument of a call. -/
structure AlgArg where
  name : AlgName
  /-- `none` where `hashName` throws. -/
  hash : Option Hash := none
  namedCurve : Bytes := []
  modulusLength : ℕ := 0
  length : Option ℕ := none
  iv : Source := .missing
  counter : Source := .missing
  additionalData : Source := .missing
  label : Source := .missing
  salt : Source := .missing
  info : Source := .missing
  tagLength : Option ℕ := none
  iterations : ℕ := 0
  saltLength : Option ℤ := none
  peer : Peer := .missing

/-- What `exportKey` returns. -/
inductive Exported
  | buffer (bytes : Bytes)
  /-- An `oct` JWK with the encoded bytes, the `alg` of an AES key and the usages. -/
  | oct (k : Bytes) (alg : Option (ℕ × AlgName)) (keyOps : List Usage)
  | parsed (json : Bytes)
deriving DecidableEq

/-- The host's functions on bytes, and the text functions of the engine. `none` is an error. -/
structure Host where
  digest : Hash → Bytes → Bytes
  aes : (encrypt : Bool) → (mode : AlgName) → (key iv data aad : Bytes) →
    (tagBits counterBits : ℕ) → Option Bytes
  aesKW : (encrypt : Bool) → (key data : Bytes) → Option Bytes
  ecdh : (privJWK pubJWK : Bytes) → (bits : ℕ) → Option Bytes
  hkdf : Hash → (ikm salt info : Bytes) → (bits : ℕ) → Option Bytes
  pbkdf2 : Hash → (password salt : Bytes) → (iterations bits : ℕ) → Option Bytes
  rsaOAEP : (encrypt : Bool) → SubtleKey → Option Hash → (data label random : Bytes) → Option Bytes
  sign : AlgName → Option Hash → (saltLength : ℤ) → SubtleKey → (data random : Bytes) → Option Bytes
  verify : AlgName → Option Hash → (saltLength : ℤ) → SubtleKey → (signature data : Bytes) →
    Option Bool
  /-- The private and the public half of a new pair, for a curve or a modulus length. -/
  generate : Family → (crv : Bytes) → (bits : ℕ) → (random : Bytes) → Option (Bytes × Bytes)
  importJWK : Family → (json : Bytes) → Option (SubtleKey × Bytes × ℕ)
  importDER : Family → Format → (der : Bytes) → Option (SubtleKey × Bytes × ℕ)
  exportJWK : Family → SubtleKey → Option Bytes
  exportDER : Family → Format → SubtleKey → Option Bytes
  atob : Bytes → Option Bytes
  b64uEncode : Bytes → Bytes
  stringify : Exported → Bytes
  /-- `JSON.parse` of the decoded text. -/
  parse : Bytes → Option KeyData

/-! ### The key table -/

/-- `subtleAPI`: the keys, the ids that have a node in the list, and the list from the most recently
used. -/
structure KeyTable where
  keys : Finmap fun _ : ℕ => SubtleKey
  elems : Finset ℕ
  lru : List ℕ

def maxSubtleKeys : ℕ := 1024

namespace KeyTable

variable (t : KeyTable)

/-- The body of `put` once an id is found. -/
def store (id : ℕ) (k : SubtleKey) : KeyTable :=
  let keys := t.keys.insert id k
  let elems := insert id t.elems
  let lru := id :: t.lru
  if maxSubtleKeys < keys.keys.card then
    match lru.getLast? with
    | some old => ⟨keys.erase old, elems.erase old, lru.dropLast⟩
    | none => ⟨keys, elems, lru⟩
  else ⟨keys, elems, lru⟩

/-- An id that `put` accepts. -/
def Free (id : ℕ) : Prop := id ≠ 0 ∧ id ∉ t.keys

instance (id : ℕ) : Decidable (t.Free id) := inferInstanceAs (Decidable (_ ∧ _))

/-- `put`, with the numbers its loop draws. -/
def put (draws : List ℕ) (k : SubtleKey) : Option (ℕ × KeyTable) :=
  ((draws.map (· % 2 ^ 52)).find? fun id => t.Free id).map fun id => (id, t.store id k)

def get (id : ℕ) : Option (SubtleKey × KeyTable) :=
  (t.keys.lookup id).map fun k =>
    (k, if id ∈ t.elems then { t with lru := id :: t.lru.erase id } else t)

def reset : KeyTable := ⟨∅, ∅, []⟩

end KeyTable

/-! ### The state of a guest -/

inductive Material
  /-- The entry of `keyRaw` for the object. -/
  | raw (key : ℕ)
  /-- The entry of `keyJwk` for the object. -/
  | jwk (key : ℕ)
  | host (handle : ℕ)
deriving DecidableEq

/-- A call that waits in its `await`. -/
inductive Pending
  /-- `wrapKey` has the exported bytes. -/
  | wrap (bytes : Bytes) (wrappingKey : ℕ) (wrapAlg : AlgArg)
  /-- `deriveKey` has the derived bits. -/
  | derive (bits : Bytes) (derivedKeyAlg : AlgArg) (extractable : Bool) (usages : List Usage)

structure State where
  memory : Memory
  objects : List Object
  table : KeyTable
  pending : List Pending
  /-- The material of the keys that were created with `extractable = false`. -/
  secrets : List Material

/-- A fresh instance with the buffers of the guest. -/
def boot (memory : Memory) : State := ⟨memory, [], ⟨∅, ∅, []⟩, [], []⟩

abbrev Call := Failing.Call Err State

/-- Random input of a call: bytes, and the numbers drawn for handles. -/
structure Coins where
  bytes : Bytes := []
  draws : List ℕ := []

/-! ### The helpers of `subtle.js` -/

def toU8 : Source → Call Raw
  | .buffer raw => pure raw
  | .missing | .other => throw .typeError

def bytesOf (raw : Raw) : Call Bytes := reads fun s => raw.bytes s.memory

def readSource (src : Source) : Call Bytes := do
  let raw ← toU8 src
  bytesOf raw

/-- `x ? toU8(x) : new Uint8Array(0)`. -/
def readOptional : Source → Call Bytes
  | .missing => pure []
  | src => readSource src

def hashName (hash : Option Hash) : Call Hash := orThrow hash .notSupported

/-- `key instanceof CryptoKey`. -/
def asKey (key : Option ℕ) : Call ℕ := do
  let n ← reads fun s => s.objects.length
  match key with
  | some k => if k < n then pure k else throw .typeError
  | none => throw .typeError

def propsOf (k : ℕ) : Call CryptoKey := do
  let o ← reads fun s => s.objects[k]?.map Object.props
  orThrow o .typeError

def need (key : Option ℕ) (usage : Usage) : Call ℕ := do
  let k ← asKey key
  let props ← propsOf k
  if usage ∈ props.usages then pure k else throw .invalidAccess

/-- `rawOf`, as the bytes it denotes at this moment. -/
def rawOf (k : ℕ) : Call (Option Bytes) :=
  reads fun s => (s.objects[k]?.bind Object.keyRaw).map (Raw.bytes s.memory)

/-- `argBytes` of the raw bytes without a look at its error: a key that has none counts as empty. -/
def rawArg (k : ℕ) : Call Bytes := do
  let raw ← rawOf k
  pure (raw.getD [])

/-- The table's entry for `_h`; every use of an entry makes it the most recent one. -/
def hostKey (handle : Option ℕ) (e : Err) : Call SubtleKey := do
  let found ← reads fun s => handle.bind s.table.get
  let entry ← orThrow found e
  writes fun s => { s with table := entry.2 }
  pure entry.1

lemma hostKey_on (handle : Option ℕ) (e : Err) (s : State) :
    (hostKey handle e).on s = match handle.bind s.table.get with
      | none => (.error e, s)
      | some entry => (.ok entry.1, { s with table := entry.2 }) := by
  simp only [hostKey, on_bind, on_reads]
  cases handle.bind s.table.get <;> rfl

/-- `put`. -/
def putKey (draws : List ℕ) (k : SubtleKey) : Call ℕ := do
  let found ← reads fun s => s.table.put draws k
  let entry ← orThrow found .drawing
  writes fun s => { s with table := entry.2 }
  pure entry.1

lemma putKey_on (draws : List ℕ) (k : SubtleKey) (s : State) :
    (putKey draws k).on s = match s.table.put draws k with
      | none => (.error .drawing, s)
      | some entry => (.ok entry.1, { s with table := entry.2 }) := by
  simp only [putKey, on_bind, on_reads]
  cases s.table.put draws k <;> rfl

def materials (k : ℕ) (o : Object) : List Material :=
  (if o.keyRaw.isSome then [.raw k] else []) ++ (if o.keyJwk.isSome then [.jwk k] else [])
    ++ o.props.handle.toList.map .host

def newKey (o : Object) : Call ℕ := do
  let k ← reads fun s => s.objects.length
  writes fun s => { s with
    objects := s.objects ++ [o]
    secrets := if o.props.extractable then s.secrets else materials k o ++ s.secrets }
  pure k

lemma newKey_on (o : Object) (s : State) :
    (newKey o).on s = (.ok s.objects.length, { s with
      objects := s.objects ++ [o]
      secrets := if o.props.extractable then s.secrets
        else materials s.objects.length o ++ s.secrets }) := rfl

/-- `crypto.getRandomValues(new Uint8Array(n))`. -/
def randomValues (random : Bytes) (n : ℕ) : Call Bytes :=
  if 65536 < n then throw .quotaExceeded
  else pure ((List.range n).map fun i => random.getD i 0)

/-! ### Keys in and out -/

/-- How `importKey` keeps an array it is given. -/
abbrev Keep := Memory → Raw → Raw

def aliasing : Keep := fun _ raw => raw

section Interface

variable (host : Host) (keep : Keep)

def b64uDecode (text : Bytes) : Call Bytes := orThrow (host.atob text) .invalidCharacter

def newPair (family : Family) (algo : Algorithm) (extractable : Bool) (privUsages : List Usage)
    (pubUsages : List Usage) (coins : Coins) : Call (ℕ × ℕ) := do
  let halves ← orThrow (host.generate family algo.namedCurve algo.modulusLength coins.bytes) .host
  let priv ← putKey coins.draws (.privateKey family halves.1)
  let pub ← putKey coins.draws (.publicKey family halves.2)
  let privateKey ← newKey
    ⟨⟨.privateKey, extractable, algo, privUsages, some priv⟩, none, none⟩
  let publicKey ← newKey ⟨⟨.publicKey, true, algo, pubUsages, some pub⟩, none, none⟩
  pure (privateKey, publicKey)

/-- What `generateKey` returns: a key, or a pair. -/
inductive Generated
  | key (k : ℕ)
  | pair (privateKey publicKey : ℕ)
deriving DecidableEq

def generateKey (alg : AlgArg) (extractable : Bool) (usages : List Usage) (coins : Coins) :
    Call Generated :=
  match alg.name with
  | .hmac => do
    let hash ← hashName alg.hash
    let lenBits := if alg.length.getD 0 = 0 then hash.blockBits else alg.length.getD 0
    let raw ← randomValues coins.bytes ((lenBits + 7) / 8)
    let h ← putKey coins.draws (.hmac raw)
    let k ← newKey ⟨⟨.secret, extractable, ⟨.hmac, some hash, [], lenBits, 0⟩, usages, some h⟩,
      none, none⟩
    pure (.key k)
  | .ecdsa => do
    let ks ← newPair host .ec ⟨.ecdsa, none, alg.namedCurve, 0, 0⟩ extractable
      (usages.filter (· = .sign)) (usages.filter (· = .verify)) coins
    pure (.pair ks.1 ks.2)
  | .rsaOaep => do
    let hash ← hashName alg.hash
    let ks ← newPair host .rsa ⟨.rsaOaep, some hash, [], 0, alg.modulusLength⟩ extractable
      (usages.filter fun u => u = .decrypt ∨ u = .unwrapKey)
      (usages.filter fun u => u = .encrypt ∨ u = .wrapKey) coins
    pure (.pair ks.1 ks.2)
  | .rsassa | .rsaPss => do
    let hash ← hashName alg.hash
    let ks ← newPair host .rsa ⟨alg.name, some hash, [], 0, alg.modulusLength⟩ extractable
      (usages.filter (· = .sign)) (usages.filter (· = .verify)) coins
    pure (.pair ks.1 ks.2)
  | .aesGcm | .aesCbc | .aesCtr | .aesKw => do
    let length := if alg.length.getD 0 = 0 then 256 else alg.length.getD 0
    let raw ← randomValues coins.bytes (length / 8)
    let k ← newKey ⟨⟨.secret, extractable, ⟨alg.name, none, [], length, 0⟩, usages, none⟩,
      some (.own raw), none⟩
    pure (.key k)
  | .ed25519 => do
    let ks ← newPair host .ed ⟨.ed25519, none, [], 0, 0⟩ extractable
      (usages.filter (· = .sign)) (usages.filter (· = .verify)) coins
    pure (.pair ks.1 ks.2)
  | .ecdh => do
    let ks ← newPair host .ec ⟨.ecdh, none, alg.namedCurve, 0, 0⟩ extractable usages [] coins
    pure (.pair ks.1 ks.2)
  | .hkdf | .pbkdf2 | .other => throw .notSupported

def importHalf (family : Family) (format : Format) (keyData : KeyData) :
    Call (SubtleKey × Bytes × ℕ) :=
  match format with
  | .jwk => orThrow (host.importJWK family keyData.json) .host
  | .pkcs8 | .spki => do
    let der ← readSource keyData.source
    orThrow (host.importDER family format der) .host
  | .raw =>
    -- only Ed25519 takes a raw public key
    if family = .ed then do
      let der ← readSource keyData.source
      orThrow (host.importDER family format der) .host
    else throw .notSupported
  | .other => throw .notSupported

def hmacKeyData (format : Format) (keyData : KeyData) : Call Bytes :=
  match format with
  | .raw => readSource keyData.source
  | .jwk =>
    if keyData.kty = str "oct" ∧ keyData.kIsString = true then b64uDecode host keyData.k
    else throw .data
  | _ => throw .notSupported

def aesKeyData (format : Format) (keyData : KeyData) : Call Raw :=
  match format with
  | .raw => toU8 keyData.source
  | .jwk => do
    let bytes ← b64uDecode host keyData.k
    pure (.own bytes)
  | _ => throw .notSupported

def importKey (format : Format) (keyData : KeyData) (alg : AlgArg) (extractable : Bool)
    (usages : List Usage) (coins : Coins) : Call ℕ :=
  match alg.name with
  | .hmac => do
    let raw ← hmacKeyData host format keyData
    let hash ← hashName alg.hash
    let h ← putKey coins.draws (.hmac raw)
    newKey ⟨⟨.secret, extractable, ⟨.hmac, some hash, [], raw.length * 8, 0⟩, usages, some h⟩,
      none, none⟩
  | .ecdsa => do
    let r ← importHalf host .ec format keyData
    let id ← putKey coins.draws r.1
    newKey ⟨⟨r.1.type, extractable, ⟨.ecdsa, none, r.2.1, 0, 0⟩, usages, some id⟩, none, none⟩
  | .rsassa | .rsaPss | .rsaOaep => do
    let r ← importHalf host .rsa format keyData
    let id ← putKey coins.draws r.1
    let hash ← hashName alg.hash
    newKey ⟨⟨r.1.type, extractable, ⟨alg.name, some hash, [], 0, r.2.2⟩, usages, some id⟩,
      none, none⟩
  | .aesGcm | .aesCbc | .aesCtr | .aesKw => do
    let raw ← aesKeyData host format keyData
    let bytes ← bytesOf raw
    let kept ← reads fun s => keep s.memory raw
    newKey ⟨⟨.secret, extractable, ⟨alg.name, none, [], bytes.length * 8, 0⟩, usages, none⟩,
      some kept, none⟩
  | .ed25519 => do
    let r ← importHalf host .ed format keyData
    let id ← putKey coins.draws r.1
    newKey ⟨⟨r.1.type, extractable, ⟨.ed25519, none, [], 0, 0⟩, usages, some id⟩, none, none⟩
  | .ecdh =>
    if format = .jwk then
      newKey ⟨⟨if keyData.d then .privateKey else .publicKey, extractable,
        ⟨.ecdh, none, keyData.crv, 0, 0⟩, usages, none⟩, none, some keyData.json⟩
    else throw .notSupported
  | .hkdf | .pbkdf2 =>
    if format = .raw then do
      let raw ← toU8 keyData.source
      let kept ← reads fun s => keep s.memory raw
      newKey ⟨⟨.secret, false, ⟨alg.name, none, [], 0, 0⟩, usages, none⟩, some kept, none⟩
    else throw .notSupported
  | .other => throw .notSupported

/-- The half of a pair as `exportKey` returns it. -/
def exportHalf (family : Family) (format : Format) (handle : Option ℕ) : Call Exported :=
  match format with
  | .jwk => do
    let key ← hostKey handle .host
    let json ← orThrow (host.exportJWK family key) .host
    pure (.parsed json)
  | .pkcs8 | .spki => do
    let key ← hostKey handle .host
    let der ← orThrow (host.exportDER family format key) .host
    pure (.buffer der)
  | .raw =>
    if family = .ed then do
      let key ← hostKey handle .host
      let der ← orThrow (host.exportDER family format key) .host
      pure (.buffer der)
    else throw .notSupported
  | .other => throw .notSupported

/-- `opHMACExport`. -/
def hmacExport : SubtleKey → Option Bytes
  | .hmac raw => some raw
  | _ => none

def exportKey (format : Format) (key : Option ℕ) : Call Exported := do
  let k ← asKey key
  let props ← propsOf k
  if props.extractable then
    match props.algorithm.name with
    | .hmac => do
      let entry ← hostKey props.handle .host
      let raw ← orThrow (hmacExport entry) .host
      match format with
      | .raw => pure (.buffer raw)
      | .jwk => pure (.oct (host.b64uEncode raw) none props.usages)
      | _ => throw .notSupported
    | .ecdsa => exportHalf host .ec format props.handle
    | .rsassa | .rsaPss | .rsaOaep => exportHalf host .rsa format props.handle
    | .ed25519 => exportHalf host .ed format props.handle
    | .aesGcm | .aesCbc | .aesCtr | .aesKw =>
      match format with
      | .raw => do
        let raw ← rawOf k
        let bytes ← orThrow raw .typeError
        pure (.buffer bytes)
      | .jwk => do
        let raw ← rawOf k
        let bytes ← orThrow raw .typeError
        pure (.oct (host.b64uEncode bytes) (some (bytes.length * 8, props.algorithm.name))
          props.usages)
      | _ => throw .notSupported
    | .ecdh | .hkdf | .pbkdf2 | .other => throw .notSupported
  else throw .invalidAccess

/-! ### Operations with keys -/

def aesCrypt (encrypt : Bool) (alg : AlgArg) (k : ℕ) (data : Source) : Call Bytes := do
  let iv ← readSource (if alg.name = .aesCtr then alg.counter else alg.iv)
  let aad ← readOptional alg.additionalData
  let raw ← rawOf k
  let data ← readSource data
  let key ← orThrow raw .host
  orThrow (host.aes encrypt alg.name key iv data aad (alg.tagLength.getD 128)
    (if alg.name = .aesCtr then alg.length.getD 128 else 128)) .operation

def oaepCrypt (encrypt : Bool) (alg : AlgArg) (k : ℕ) (data : Source) (coins : Coins) :
    Call Bytes := do
  let label ← readOptional alg.label
  let props ← propsOf k
  let data ← readSource data
  let entry ← hostKey props.handle .operation
  orThrow (host.rsaOAEP encrypt entry props.algorithm.hash data label coins.bytes) .operation

/-- `encrypt` and `decrypt`. -/
def crypt (encrypt : Bool) (alg : AlgArg) (key : Option ℕ) (data : Source) (coins : Coins) :
    Call Bytes := do
  let k ← need key (if encrypt then .encrypt else .decrypt)
  if alg.name ∈ aesNames then aesCrypt host encrypt alg k data
  else if alg.name = .rsaOaep then oaepCrypt host encrypt alg k data coins
  else throw .notSupported

def rawCrypt (encrypt : Bool) (alg : AlgArg) (k : ℕ) (data : Source) (coins : Coins) :
    Call Bytes :=
  if alg.name = .aesKw then do
    let key ← rawOf k
    let data ← readSource data
    let key ← orThrow key .host
    orThrow (host.aesKW encrypt key data) .operation
  else if alg.name ∈ aesNames then aesCrypt host encrypt alg k data
  else if alg.name = .rsaOaep then oaepCrypt host encrypt alg k data coins
  else throw .notSupported

/-- The names under which `sign` and `verify` work. -/
def signNames : List AlgName := [.hmac, .ecdsa, .ed25519] ++ rsaNames

def signHash (alg : AlgArg) (props : CryptoKey) : Call (Option Hash) :=
  if alg.name = .ecdsa then do
    let hash ← hashName alg.hash
    pure (some hash)
  else pure props.algorithm.hash

def sign (alg : AlgArg) (key : Option ℕ) (data : Source) (coins : Coins) : Call Bytes := do
  let k ← need key .sign
  if alg.name ∈ signNames then
    let props ← propsOf k
    let hash ← signHash alg props
    let data ← readSource data
    let entry ← hostKey props.handle .host
    orThrow (host.sign alg.name hash (alg.saltLength.getD (-1)) entry data coins.bytes) .host
  else throw .notSupported

def verify (alg : AlgArg) (key : Option ℕ) (signature data : Source) : Call Bool := do
  let k ← need key .verify
  if alg.name ∈ signNames then
    let props ← propsOf k
    let hash ← signHash alg props
    let signature ← readSource signature
    let data ← readSource data
    let entry ← hostKey props.handle .host
    orThrow (host.verify alg.name hash (alg.saltLength.getD (-1)) entry signature data) .host
  else throw .notSupported

/-- `jwkOf` for an object that is not in `keyJwk`. -/
def jwkOfHandle (handle : Option ℕ) : Call Bytes :=
  if handle.isSome then do
    let entry ← hostKey handle .host
    orThrow (host.exportJWK .ec entry) .host
  else throw .invalidAccess

def jwkOf (k : ℕ) : Call Bytes := do
  let jwk ← reads fun s => s.objects[k]?.bind Object.keyJwk
  match jwk with
  | some text => pure text
  | none => do
    let props ← propsOf k
    jwkOfHandle host props.handle

/-- `jwkOf(alg.public)`. -/
def jwkOfPeer : Peer → Call Bytes
  | .missing => throw .typeError
  | .key k => jwkOf host k
  | .object handle => jwkOfHandle host handle

def deriveBitsRaw (alg : AlgArg) (baseKey : ℕ) (length : ℕ) : Call Bytes :=
  match alg.name with
  | .ecdh => do
    let privJWK ← jwkOf host baseKey
    let pubJWK ← jwkOfPeer host alg.peer
    orThrow (host.ecdh privJWK pubJWK length) .operation
  | .hkdf => do
    let hash ← hashName alg.hash
    let salt ← readSource alg.salt
    let info ← readSource alg.info
    let ikm ← rawArg baseKey
    orThrow (host.hkdf hash ikm salt info length) .operation
  | .pbkdf2 => do
    let hash ← hashName alg.hash
    let salt ← readSource alg.salt
    let password ← rawArg baseKey
    orThrow (host.pbkdf2 hash password salt alg.iterations length) .operation
  | _ => throw .notSupported

def deriveBits (alg : AlgArg) (baseKey : Option ℕ) (length : ℕ) : Call Bytes := do
  let k ← need baseKey .deriveBits
  deriveBitsRaw host alg k length

/-- A call stops in its `await`. -/
def suspend (p : Pending) : Call Unit := writes fun s => { s with pending := s.pending ++ [p] }

/-- The bytes `wrapKey` encrypts. -/
def exportedBytes (format : Format) : Exported → Bytes
  | .buffer bytes => if format = .jwk then host.stringify (.buffer bytes) else bytes
  | e => host.stringify e

/-- `wrapKey` up to its `await`. -/
def wrapKey (format : Format) (key wrappingKey : Option ℕ) (wrapAlg : AlgArg) : Call Unit := do
  let w ← need wrappingKey .wrapKey
  let exported ← exportKey host format key
  suspend (.wrap (exportedBytes host format exported) w wrapAlg)

def unwrapped (format : Format) (decrypted : Bytes) : Call KeyData :=
  if format = .jwk then orThrow (host.parse decrypted) .badJson
  else pure { source := .buffer (.own decrypted) }

def unwrapKey (format : Format) (wrappedKey : Source) (unwrappingKey : Option ℕ)
    (unwrapAlg keyAlg : AlgArg) (extractable : Bool) (usages : List Usage) (coins : Coins) :
    Call ℕ := do
  let u ← need unwrappingKey .unwrapKey
  let decrypted ← rawCrypt host false unwrapAlg u wrappedKey coins
  let material ← unwrapped host format decrypted
  importKey host keep format material keyAlg extractable usages coins

/-- The length `deriveKey` asks for. -/
def derivedLength (derivedKeyAlg : AlgArg) : Call ℕ :=
  if derivedKeyAlg.length.getD 0 = 0 then
    if derivedKeyAlg.name = .hmac then do
      let hash ← hashName derivedKeyAlg.hash
      pure hash.blockBits
    else pure 256
  else pure (derivedKeyAlg.length.getD 0)

/-- `deriveKey` up to its `await`. -/
def deriveKey (alg : AlgArg) (baseKey : Option ℕ) (derivedKeyAlg : AlgArg) (extractable : Bool)
    (usages : List Usage) : Call Unit := do
  let k ← need baseKey .deriveKey
  let length ← derivedLength derivedKeyAlg
  let bits ← deriveBitsRaw host alg k length
  suspend (.derive bits derivedKeyAlg extractable usages)

/-! ### The guest -/

inductive Out
  | bytes (b : Bytes)
  | exported (e : Exported)
  | generated (g : Generated)
  | key (k : ℕ)
  | bool (b : Bool)
  | pending
  | done
deriving DecidableEq

def finish (coins : Coins) : Pending → Call Out
  | .wrap bytes wrappingKey wrapAlg => do
    let wrapped ← rawCrypt host true wrapAlg wrappingKey (.buffer (.own bytes)) coins
    pure (.bytes wrapped)
  | .derive bits derivedKeyAlg extractable usages =>
    if derivedKeyAlg.name ∈ aesNames then do
      let k ← importKey host keep .raw { source := .buffer (.own bits) }
        { name := derivedKeyAlg.name } extractable usages coins
      pure (.key k)
    else if derivedKeyAlg.name = .hmac then do
      let k ← importKey host keep .raw { source := .buffer (.own bits) }
        { name := .hmac, hash := derivedKeyAlg.hash } extractable usages coins
      pure (.key k)
    else throw .notSupported

inductive Assignment
  | type (type : KeyType)
  | extractable (value : Bool)
  | algorithm (algorithm : Algorithm)
  | usages (usages : List Usage)
  | handle (handle : Option ℕ)

def Assignment.apply (p : CryptoKey) : Assignment → CryptoKey
  | .type t => { p with type := t }
  | .extractable value => { p with extractable := value }
  | .algorithm a => { p with algorithm := a }
  | .usages us => { p with usages := us }
  | .handle h => { p with handle := h }

inductive Op
  | digest (hash : Option Hash) (data : Source)
  | generateKey (alg : AlgArg) (extractable : Bool) (usages : List Usage) (coins : Coins)
  | importKey (format : Format) (keyData : KeyData) (alg : AlgArg) (extractable : Bool)
      (usages : List Usage) (coins : Coins)
  | exportKey (format : Format) (key : Option ℕ)
  | sign (alg : AlgArg) (key : Option ℕ) (data : Source) (coins : Coins)
  | verify (alg : AlgArg) (key : Option ℕ) (signature data : Source)
  | crypt (encrypt : Bool) (alg : AlgArg) (key : Option ℕ) (data : Source) (coins : Coins)
  | wrapKey (format : Format) (key wrappingKey : Option ℕ) (wrapAlg : AlgArg)
  | unwrapKey (format : Format) (wrappedKey : Source) (unwrappingKey : Option ℕ)
      (unwrapAlg keyAlg : AlgArg) (extractable : Bool) (usages : List Usage) (coins : Coins)
  | deriveBits (alg : AlgArg) (baseKey : Option ℕ) (length : ℕ)
  | deriveKey (alg : AlgArg) (baseKey : Option ℕ) (derivedKeyAlg : AlgArg) (extractable : Bool)
      (usages : List Usage)
  /-- The `await` of a waiting call is over. -/
  | resume (i : ℕ) (coins : Coins)
  /-- `new CryptoKey(...)` in the guest's code. -/
  | construct (props : CryptoKey)
  /-- An assignment to a property. One to a field of an algorithm object that two keys share is an
  assignment for each of the two. -/
  | assign (key : ℕ) (assignment : Assignment)
  | write (buffer offset : ℕ) (bytes : Bytes)

def perform : Op → Call Out
  | .digest hash data => do
    let hash ← hashName hash
    let data ← readSource data
    pure (.bytes (host.digest hash data))
  | .generateKey alg extractable usages coins => do
    let g ← generateKey host alg extractable usages coins
    pure (.generated g)
  | .importKey format keyData alg extractable usages coins => do
    let k ← importKey host keep format keyData alg extractable usages coins
    pure (.key k)
  | .exportKey format key => do
    let e ← exportKey host format key
    pure (.exported e)
  | .sign alg key data coins => do
    let b ← sign host alg key data coins
    pure (.bytes b)
  | .verify alg key signature data => do
    let b ← verify host alg key signature data
    pure (.bool b)
  | .crypt encrypt alg key data coins => do
    let b ← crypt host encrypt alg key data coins
    pure (.bytes b)
  | .wrapKey format key wrappingKey wrapAlg => do
    wrapKey host format key wrappingKey wrapAlg
    pure .pending
  | .unwrapKey format wrappedKey unwrappingKey unwrapAlg keyAlg extractable usages coins => do
    let k ← unwrapKey host keep format wrappedKey unwrappingKey unwrapAlg keyAlg extractable
      usages coins
    pure (.key k)
  | .deriveBits alg baseKey length => do
    let b ← deriveBits host alg baseKey length
    pure (.bytes b)
  | .deriveKey alg baseKey derivedKeyAlg extractable usages => do
    deriveKey host alg baseKey derivedKeyAlg extractable usages
    pure .pending
  | .resume i coins => do
    let p ← reads fun s => s.pending[i]?
    writes fun s => { s with pending := s.pending.eraseIdx i }
    match p with
    | some p => finish host keep coins p
    | none => pure .done
  | .construct props => do
    let k ← reads fun s => s.objects.length
    writes fun s => { s with objects := s.objects ++ [⟨props, none, none⟩] }
    pure (.key k)
  | .assign key assignment => do
    writes fun s => { s with
      objects := s.objects.modify key fun o => { o with props := assignment.apply o.props } }
    pure .done
  | .write buffer offset bytes => do
    writes fun s => { s with memory := s.memory.write buffer offset bytes }
    pure .done

/-- One operation, with the arrays kept by `keep`. -/
def stepWith (s : State) (op : Op) : Except Err Out × State := (perform host keep op).on s

def step (s : State) (op : Op) : Except Err Out × State := stepWith host aliasing s op

end Interface

def plainHost : Host where
  digest := fun _ data => data
  aes := fun _ _ key iv data aad _ _ => some (key ++ iv ++ data ++ aad)
  aesKW := fun _ key data => some (key ++ data)
  ecdh := fun privJWK pubJWK _ => some (privJWK ++ pubJWK)
  hkdf := fun _ ikm salt info _ => some (ikm ++ salt ++ info)
  pbkdf2 := fun _ password salt _ _ => some (password ++ salt)
  rsaOAEP := fun _ _ _ data label _ => some (data ++ label)
  sign := fun _ _ _ _ data _ => some data
  verify := fun _ _ _ _ signature data => some (signature = data)
  generate := fun _ _ _ random => some (random, random)
  importJWK := fun family json => some (.privateKey family json, [], 0)
  importDER := fun family _ der => some (.privateKey family der, [], 0)
  exportJWK := fun _ _ => some []
  exportDER := fun _ _ _ => some []
  atob := some
  b64uEncode := id
  stringify := fun _ => []
  parse := fun _ => none

end GoSpidermonkey.Web.Subtle
