import GoSpidermonkey.Web.SubtleReads

/-!
# Imported key material as a snapshot

A raw import of an AES, HKDF or PBKDF2 key should keep the bytes that its buffer had at that moment.
`importKey` keeps the array it is given, so later writes to the buffer change the key. The
interface in which the bytes are copied (`snapshot`) and the code answer a guest program alike as
long as no write changes bytes that some key's array covers.
-/

namespace GoSpidermonkey.Web.Subtle

open Failing Transducer

def snapshot : Keep := fun m raw => .own (raw.bytes m)

/-- The states of the code and of the interface that copies. -/
def Frozen (s t : State) : Prop := t = s.frozen

/-- A call that both interfaces answer alike, the one as `x` and the other as `y`. -/
abbrev Same {α : Type} (x y : Call α) : Prop := Mirrors Frozen x y

abbrev Steady {α : Type} (x : Call α) : Prop := Same x x

lemma steady_reads {α : Type} {f : State → α} (h : ∀ s : State, f s.frozen = f s) :
    Steady (reads f) :=
  .reads fun s _ ht => by rw [ht]; exact (h s).symm

lemma steady_writes {f : State → State} (h : ∀ s : State, (f s).frozen = f s.frozen) :
    Steady (writes f) :=
  .writes fun s _ ht => by rw [ht]; exact (h s).symm

lemma steady_hostKey (handle : Option ℕ) (e : Err) : Steady (hostKey handle e) := by
  refine (steady_reads fun _ => rfl).bind fun found => (Mirrors.orThrow found e).bind
    fun entry => ?_
  exact Mirrors.bind (steady_writes fun s => by simp [State.frozen]) fun _ => .pure entry.1

lemma steady_putKey (draws : List ℕ) (k : SubtleKey) : Steady (putKey draws k) := by
  refine (steady_reads fun _ => rfl).bind fun found => (Mirrors.orThrow found _).bind
    fun entry => ?_
  exact Mirrors.bind (steady_writes fun s => by simp [State.frozen]) fun _ => .pure entry.1

lemma Plain.steady {α : Type} {x : Call α} (h : Plain x) : Steady x := by
  induction h with
  | pure a => exact .pure a
  | throw e => exact .throw e
  | reads hf => exact steady_reads hf
  | hostKey handle e => exact steady_hostKey handle e
  | suspend p => exact steady_writes fun s => by simp [State.frozen]
  | bind _ _ hx hf => exact hx.bind hf

lemma steady_newKey {o : Object} (ho : ∀ m, o.frozen m = o) : Steady (newKey o) := by
  refine (steady_reads fun s => by simp [State.frozen]).bind fun k => ?_
  refine (steady_writes fun s => ?_).bind fun _ => .pure k
  simp [State.frozen, ho]

/-- A new key over an array of the guest, kept in the one interface and copied in the other. -/
lemma same_newRawKey (props : CryptoKey) (raw : Raw) :
    Same (reads (fun s => aliasing s.memory raw) >>= fun kept => newKey ⟨props, some kept, none⟩)
      (reads (fun s => snapshot s.memory raw) >>= fun kept => newKey ⟨props, some kept, none⟩) := by
  rintro s t rfl
  simp only [on_bind, on_reads, newKey_on]
  refine ⟨by simp [State.frozen], ?_⟩
  simp [Frozen, State.frozen, Object.frozen, snapshot, aliasing, materials, Raw.bytes]

/-! ### Keys in and out -/

section Interface

variable (host : Host)

lemma steady_newPair {family : Family} {algo : Algorithm} {extractable : Bool}
    {privUsages pubUsages : List Usage} {coins : Coins} :
    Steady (newPair host family algo extractable privUsages pubUsages coins) :=
  (Mirrors.orThrow _ _).bind fun _ => (steady_putKey _ _).bind fun _ =>
    (steady_putKey _ _).bind fun _ => (steady_newKey fun _ => rfl).bind fun privateKey =>
      (steady_newKey fun _ => rfl).bind fun publicKey => .pure (privateKey, publicKey)

lemma Makes.same {checked : Prop} {kind : Kind} {coins : Coins} {held : List ℕ} {α : Type}
    {x : Keep → Call α} (h : Makes host checked kind coins held x) :
    Same (x aliasing) (x snapshot) := by
  induction h with
  | plain hx => exact hx.steady
  | after hx _ hf => exact hx.steady.after hf
  | map g _ hx => exact hx.bind fun a => .pure (g a)
  | put _ _ hf => exact (steady_putKey _ _).bind hf
  | @new held o _ hraw _ _ =>
    refine steady_newKey fun m => ?_
    rcases o with ⟨props, _ | raw, jwk⟩
    · rfl
    · obtain ⟨-, bytes, rfl⟩ := hraw raw rfl
      rfl
  | kept raw _ _ _ => exact same_newRawKey _ raw
  | pair => exact steady_newPair host

/-! ### Guest programs -/

/-- A write leaves the bytes that the arrays of keys cover as they are. -/
def Untouched (s : State) : Op → Prop
  | .write buffer offset bytes => ∀ o ∈ s.objects, ∀ raw ∈ o.keyRaw,
      raw.bytes (s.memory.write buffer offset bytes) = raw.bytes s.memory
  | _ => True

instance (s : State) (op : Op) : Decidable (Untouched s op) := by
  apply @Op.casesOn (Decidable <| Untouched s ·)
  case write => exact fun _ _ _ => inferInstanceAs
    (Decidable (∀ o ∈ s.objects, ∀ raw ∈ o.keyRaw, _ = _))
  all_goals intros; exact isTrue trivial

lemma frozen_write {s : State} {buffer offset : ℕ} {bytes : Bytes}
    (h : Untouched s (.write buffer offset bytes)) :
    State.frozen { s with memory := s.memory.write buffer offset bytes }
      = { s.frozen with memory := s.memory.write buffer offset bytes } := by
  simp only [State.frozen, State.mk.injEq, and_true, true_and]
  refine List.map_congr_left fun o ho => ?_
  have hraw := h o ho
  cases hkey : o.keyRaw with
  | none => simp [Object.frozen, hkey]
  | some raw => simp [Object.frozen, hkey, hraw raw hkey]

lemma frozen_assign (s : State) (key : ℕ) (a : Assignment) :
    State.frozen { s with
        objects := s.objects.modify key fun o => { o with props := a.apply o.props } }
      = { s.frozen with
        objects := s.frozen.objects.modify key fun o => { o with props := a.apply o.props } } := by
  simp only [State.frozen, State.mk.injEq, and_true, true_and]
  refine List.ext_getElem? fun i => ?_
  simp only [List.getElem?_map, List.getElem?_modify]
  cases s.objects[i]? with
  | none => rfl
  | some o => by_cases hi : key = i <;> simp [hi, Object.frozen]

lemma simulates : Simulates (step host) (stepWith host snapshot) Untouched Frozen := by
  rintro s t op rfl hop
  rcases makes_step host (fun h : False => h.elim) s op with
    ⟨kind, coins, x, i, -, hx, hstep⟩ | ⟨p, rfl⟩ | ⟨key, a, rfl⟩ | ⟨buffer, offset, bytes, rfl⟩
  · rw [step, hstep aliasing s rfl, hstep snapshot s.frozen rfl]
    exact hx.same host _ _ rfl
  · refine Mirrors.bind (steady_reads fun s => by simp [State.frozen]) (fun k => Mirrors.bind
      (steady_writes fun s => ?_) fun _ => .pure _) s _ rfl
    simp [State.frozen, Object.frozen]
  · exact ⟨rfl, (frozen_assign s key a).symm⟩
  · exact ⟨rfl, (frozen_write hop).symm⟩

/-- As long as no write changes bytes that the array of a key covers, imported keys are copies of
their buffers. -/
theorem imported_keys_are_snapshots (memory : Memory) (ops : List Op)
    (hops : Always (step host) Untouched (boot memory) ops) :
    outputs (step host) (boot memory) ops = outputs (stepWith host snapshot) (boot memory) ops :=
  (simulates host).outputs_eq rfl hops

end Interface

def importFirst : Op :=
  .importKey .raw { source := .buffer (.view ⟨0, 0, 16⟩) } { name := .aesGcm } true
    [.encrypt, .decrypt] {}

def writesBehind : List Op :=
  [importFirst, .write 0 16 [1, 2, 3], .exportKey .raw (some 0)]

theorem writesBehind_snapshot :
    outputs (step plainHost) (boot [List.replicate 32 7]) writesBehind
        = outputs (stepWith plainHost snapshot) (boot [List.replicate 32 7]) writesBehind
      ∧ (outputs (step plainHost) (boot [List.replicate 32 7]) writesBehind).getLast?
        = some (.ok (.exported (.buffer (List.replicate 16 7)))) :=
  ⟨imported_keys_are_snapshots plainHost _ writesBehind (by decide +kernel), by decide +kernel⟩

def wipes : List Op := [importFirst, .write 0 0 (List.replicate 16 0), .exportKey .raw (some 0)]

/-- The key has become zero with the buffer; a copied key would have kept its bytes. -/
theorem wipes_changes_key :
    outputs (step plainHost) (boot [List.replicate 16 7]) wipes
        = [.ok (.key 0), .ok .done, .ok (.exported (.buffer (List.replicate 16 0)))]
      ∧ outputs (stepWith plainHost snapshot) (boot [List.replicate 16 7]) wipes
        = [.ok (.key 0), .ok .done, .ok (.exported (.buffer (List.replicate 16 7)))] := by
  decide +kernel

end GoSpidermonkey.Web.Subtle
