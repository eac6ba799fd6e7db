import GoSpidermonkey.Bridge.Value

/-!
# Host calls and the roots of their arguments

Every argument of a host call that is an object, a symbol or a bigint comes with a root, minted by
the guest for the call. `dispatch` decodes the arguments, runs the `Func`, releases the roots that
the `Func` did not ask for, and encodes the reply.

A call is *linear* if each root is released exactly once, unless the `Func` took it or the value
crosses back, and if the reply names no root that the dispatcher has released.

The slice of the arguments is taken to be left alone by the `Func`.
-/

namespace GoSpidermonkey.Bridge

open List

/-! ### Calls -/

/-- What a `Func` does with objects. -/
inductive FuncOp where
  /-- `Object` or `Export`. -/
  | take (r : ℕ)
  | free (r : ℕ)
  /-- The value is passed to the guest by `Set`, `Call` or `New`, which encode it. -/
  | forward (r : ℕ)
  | receive (h : ℕ) (callable : Bool)
  deriving DecidableEq

/-- The error a `Func` returns. -/
inductive FuncErr where
  | message (text : Bytes)
  /-- `Throw`. -/
  | thrown (v : Option Value)

inductive Ending where
  | returned (ret : Option Value) (err : Option FuncErr)
  | panicked

def Ending.values : Ending → List Value
  | .returned ret (some (.thrown v)) => ret.toList ++ v.toList
  | .returned ret _ => ret.toList
  | .panicked => []

def Ending.crossing : Ending → Option Value
  | .returned ret none => ret
  | .returned _ (some (.thrown v)) => v
  | .returned _ (some (.message _)) => none
  | .panicked => none

def objectRoot : Option ValueEncoding → Option ℕ
  | some e => if e.k = .object ∨ e.k = .function then some e.h else none
  | none => none

def opaqueRoot : Option ValueEncoding → Option ℕ
  | some e => if e.k = .symbol ∨ e.k = .bigint then some e.h else none
  | none => none

/-- The encodings of values. -/
def Decodes : Option ValueEncoding → Prop
  | none => False
  | some e =>
    match e.k with
    | .error | .json | .other _ => False
    | .number =>
      ∀ s, e.v = some (.str s) → s = str "NaN" ∨ s = str "Infinity" ∨ s = str "-Infinity"
    | _ => True

/-- A call of a registered `Func`: the encodings of its arguments, and what the `Func` does. -/
structure Call where
  encs : List (Option ValueEncoding)
  garbled : Bool := false
  ops : List FuncOp
  ending : Ending
  nodup : (encs.filterMap objectRoot ++ encs.filterMap opaqueRoot).Nodup
  nonzero : 0 ∉ encs.filterMap objectRoot ++ encs.filterMap opaqueRoot
  /-- What the `Func` receives from the guest has roots of its own. -/
  received : ∀ h c, .receive h c ∈ ops →
    h ∉ encs.filterMap objectRoot ++ encs.filterMap opaqueRoot
  /-- A symbol or bigint with the root of an argument is that argument. -/
  opaques : ∀ h kind, .opaqueValue h kind ∈ ending.values →
    h ∈ encs.filterMap objectRoot ++ encs.filterMap opaqueRoot →
      ∃ v, some ⟨kind.kind, v, h⟩ ∈ encs

/-! ### The dispatcher -/

namespace Host

def runOp (s : Host) : FuncOp → Host
  | .take r | .forward r => s.take r
  | .free r => s.free .func r
  | .receive h callable => s.alloc h callable

/-- One turn of the loop of `releaseArgRoots`. -/
def releaseArg (ret : Option Value) (s : Host) : Value → Host
  | .object r =>
    match s.objects[r]? with
    | none => s
    | some o => if ¬ o.taken ∧ some (.object r) ≠ ret then s.free .dispatcher r else s
  | .opaqueValue h kind =>
    if some (.opaqueValue h kind) ≠ ret then s.freeOpaque .dispatcher h else s
  | _ => s

def releaseArgRoots (s : Host) (args : List Value) (ret : Option Value) : Host :=
  args.foldl (releaseArg ret) s

end Host

inductive ReplyErr where
  | argumentsUndecodable
  | argumentUndecodable (e : DecodeErr)
  | message (text : Bytes)
  | throwUnencodable
  | resultUnencodable
  /-- The `Func` has panicked. -/
  | hostCallFailed

inductive Reply where
  | result (e : ValueEncoding)
  | thrown (e : ValueEncoding)
  | error (e : ReplyErr)

def Reply.handle : Reply → ℕ
  | .result e | .thrown e => e.h
  | .error _ => 0

/-- The end of `dispatch`, after the `Func` and the release. -/
def replyTo (s : Host) (ret : Option Value) : Option FuncErr → Reply × Host
  | some (.thrown v) =>
    match encodeValue s v with
    | (none, s') => (.error .throwUnencodable, s')
    | (some e, s') => (.thrown e, s')
  | some (.message text) => (.error (.message text), s)
  | none =>
    match encodeValue s ret with
    | (none, s') => (.error .resultUnencodable, s')
    | (some e, s') => (.result e, s')

/-- `safeDispatch` of a registered key. -/
def dispatch (c : Call) : Reply × Host :=
  if c.garbled then (.error .argumentsUndecodable, {})
  else
    match decodeArgs {} c.encs with
    | .error err => (.error (.argumentUndecodable err), {})
    | .ok (args, s) =>
      let s₁ := c.ops.foldl Host.runOp s
      match c.ending with
      | .panicked => (.error .hostCallFailed, s₁)
      | .returned ret err => replyTo (s₁.releaseArgRoots args ret) ret err

/-! ### Linear calls -/

namespace Call

variable (c : Call)

def roots : List ℕ := c.encs.filterMap objectRoot ++ c.encs.filterMap opaqueRoot

/-- The arguments decode, so that the `Func` runs. -/
def Ran : Prop := c.garbled = false ∧ ∀ e ∈ c.encs, Decodes e

/-- The `r`-th object among the arguments has the root `h`. -/
def ObjectAt (r h : ℕ) : Prop := (c.encs.filterMap objectRoot)[r]? = some h

/-- The value is the argument with the root `h`. -/
def HasRoot (h : ℕ) : Option Value → Prop
  | some (.object r) => c.ObjectAt r h
  | some (.opaqueValue h' _) => h' = h
  | _ => False

/-- The `Func` has taken the argument with the root `h`. -/
def Taken (h : ℕ) : Prop := c.Ran ∧ ∃ r, c.ObjectAt r h ∧ .take r ∈ c.ops

/-- The argument with the root `h` is the value returned or thrown. -/
def CrossesBack (h : ℕ) : Prop := c.Ran ∧ c.HasRoot h c.ending.crossing

def releases (h : ℕ) : ℕ := ((dispatch c).2.freed.map Prod.snd).count h

structure Linear : Prop where
  once : ∀ h ∈ c.roots, c.Taken h ∨ c.CrossesBack h ∨ c.releases h = 1
  reply : (.dispatcher, (dispatch c).1.handle) ∉ (dispatch c).2.freed

/-- The `Func` neither took nor freed the argument with the root `h`. -/
def Loose (h : ℕ) : Prop := ∀ r, c.ObjectAt r h → .take r ∉ c.ops ∧ .free r ∉ c.ops

/-- The `Func` passed the argument with the root `h` on to the guest. -/
def Forwarded (h : ℕ) : Prop := ∃ r, c.ObjectAt r h ∧ .forward r ∈ c.ops

def Orderly : Prop :=
  (¬ c.Ran → c.roots = []) ∧
    (c.Ran → match c.ending with
      | .panicked => ∀ h ∈ c.roots, ¬ c.Loose h
      | .returned ret err =>
        (∀ h ∈ c.roots, c.Loose h → c.HasRoot h ret ∨ c.Forwarded h → c.CrossesBack h) ∧
          ∀ h kind, err = some (.thrown (some (.opaqueValue h kind))) → h ∈ c.roots →
            ret = some (.opaqueValue h kind))

end Call

/-! ### What decoding makes of the arguments -/

def Value.opaqueHandle : Value → Option ℕ
  | .opaqueValue h _ => some h
  | _ => none

variable {s : Host}

lemma decodeValue_cases {s₁ : Host} {e : Option ValueEncoding} {v : Value}
    (h : decodeValue s e = .ok (v, s₁)) :
    (∃ x c, objectRoot e = some x ∧ opaqueRoot e = none ∧ v = .object s.objects.length ∧
        s₁ = s.alloc x c) ∨
      (∃ x k d, objectRoot e = none ∧ opaqueRoot e = some x ∧ v = .opaqueValue x k ∧
        e = some ⟨k.kind, d, x⟩ ∧ s₁ = s) ∨
      (objectRoot e = none ∧ opaqueRoot e = none ∧ v.opaqueHandle = none ∧
        (∀ r, v ≠ .object r) ∧ s₁ = s) := by
  cases e with
  | none => cases h
  | some e =>
    obtain ⟨k, d, x⟩ := e
    cases k with
    | object =>
      cases h
      exact .inl ⟨x, false, rfl, rfl, rfl, rfl⟩
    | function =>
      cases h
      exact .inl ⟨x, true, rfl, rfl, rfl, rfl⟩
    | symbol =>
      cases h
      exact .inr (.inl ⟨x, .symbol, d, rfl, rfl, rfl, rfl, rfl⟩)
    | bigint =>
      cases h
      exact .inr (.inl ⟨x, .bigint, d, rfl, rfl, rfl, rfl, rfl⟩)
    | number =>
      cases hn : decodeNumber d with
      | error err => simp [decodeValue, hn, Except.map] at h
      | ok n =>
        simp only [decodeValue, hn, Except.map, Except.ok.injEq, Prod.mk.injEq] at h
        obtain ⟨rfl, rfl⟩ := h
        exact .inr (.inr ⟨rfl, rfl, rfl, by simp, rfl⟩)
    | undefined | null | bool | string =>
      cases h
      exact .inr (.inr ⟨rfl, rfl, rfl, by simp, rfl⟩)
    | error | json | other k => cases h

lemma decodeNumber_isOk {v : Option Data} : (decodeNumber v).isOk ↔
    ∀ s, v = some (.str s) → s = str "NaN" ∨ s = str "Infinity" ∨ s = str "-Infinity" := by
  rcases v with _ | ⟨b | n | s | t⟩
  · simp [decodeNumber, Except.isOk, Except.toBool]
  · simp [decodeNumber, Except.isOk, Except.toBool]
  · simp [decodeNumber, Except.isOk, Except.toBool]
  · simp only [decodeNumber, Option.some.injEq, Data.str.injEq, forall_eq']
    split_ifs <;> simp_all [Except.isOk, Except.toBool]
  · simp [decodeNumber, Except.isOk, Except.toBool]

lemma decodeValue_isOk {e : Option ValueEncoding} :
    (decodeValue s e).isOk ↔ Decodes e := by
  rcases e with _ | ⟨k, v, h⟩
  · simp [decodeValue, Decodes, Except.isOk, Except.toBool]
  · cases k with
    | number =>
      rw [Decodes, ← decodeNumber_isOk, decodeValue]
      cases decodeNumber v <;> rfl
    | _ => simp [decodeValue, Decodes, Except.isOk, Except.toBool]

lemma decodeArgs_isOk {encs : List (Option ValueEncoding)} :
    (decodeArgs s encs).isOk ↔ ∀ e ∈ encs, Decodes e := by
  induction encs generalizing s with
  | nil => simp [decodeArgs, Except.isOk, Except.toBool]
  | cons e encs ih =>
    rw [forall_mem_cons, ← decodeValue_isOk (s := s), decodeArgs]
    cases decodeValue s e with
    | error err => simp [Except.isOk, Except.toBool]
    | ok p =>
      rw [← ih (s := p.2)]
      cases hrest : decodeArgs p.2 encs <;> simp [hrest, Except.isOk, Except.toBool]

/-- What the arguments are once all of them are decoded. -/
structure Decoded (s : Host) (encs : List (Option ValueEncoding)) (args : List Value)
    (s' : Host) : Prop where
  freed : s'.freed = s.freed
  objects : ∃ objs, s'.objects = s.objects ++ objs ∧
    objs.map Object.handle = encs.filterMap objectRoot ∧ ∀ o ∈ objs, o.taken = false
  refs : ∀ r, .object r ∈ args ↔ s.objects.length ≤ r ∧ r < s'.objects.length
  handles : args.filterMap Value.opaqueHandle = encs.filterMap opaqueRoot
  kinds : ∀ h k, .opaqueValue h k ∈ args → ∃ d, some ⟨k.kind, d, h⟩ ∈ encs

lemma decodeArgs_decoded {s' : Host} {encs : List (Option ValueEncoding)} {args : List Value}
    (h : decodeArgs s encs = .ok (args, s')) : Decoded s encs args s' := by
  induction encs generalizing s args with
  | nil =>
    cases h
    refine ⟨rfl, ⟨[], by simp, rfl, by simp⟩, fun r => ?_, rfl, by simp⟩
    simp only [not_mem_nil, false_iff, not_and, not_lt]
    exact id
  | cons e encs ih =>
    simp only [decodeArgs] at h
    cases hv : decodeValue s e with
    | error err => simp [hv] at h
    | ok p =>
      obtain ⟨v, s₁⟩ := p
      cases hrest : decodeArgs s₁ encs with
      | error err => simp [hv, hrest] at h
      | ok q =>
        obtain ⟨vs, s₂⟩ := q
        simp only [hv, hrest, Except.ok.injEq, Prod.mk.injEq] at h
        obtain ⟨rfl, rfl⟩ := h
        obtain ⟨hfreed, ⟨objs, hobjs, hhandles, htaken⟩, hrefs, hopaque, hkinds⟩ := ih hrest
        have hkinds' : ∀ h k, .opaqueValue h k ∈ vs → ∃ d, some ⟨k.kind, d, h⟩ ∈ e :: encs :=
          fun h k hm => (hkinds h k hm).imp fun d hd => mem_cons_of_mem _ hd
        rcases decodeValue_cases hv with ⟨x, c, ho, hop, rfl, rfl⟩ |
          ⟨x, k, d, ho, hop, rfl, rfl, rfl⟩ | ⟨ho, hop, hnone, hnoref, rfl⟩
        · refine ⟨hfreed, ⟨⟨x, c, false⟩ :: objs, ?_, ?_, ?_⟩, fun r => ?_, ?_, ?_⟩
          · rw [hobjs]
            simp [Host.alloc]
          · simp [ho, hhandles]
          · simpa using htaken
          · have hlen : s₂.objects.length = s.objects.length + 1 + objs.length := by
              rw [hobjs]
              simp only [Host.alloc, length_append, length_cons, length_nil]
            have hr := hrefs r
            simp only [Host.alloc, length_append, length_cons, length_nil] at hr
            simp only [mem_cons, Value.object.injEq, hr]
            omega
          · rw [filterMap_cons_none rfl, filterMap_cons_none hop, hopaque]
          · simpa using hkinds'
        · refine ⟨hfreed, ⟨objs, hobjs, by simp [ho, hhandles], htaken⟩, fun r => ?_, ?_, ?_⟩
          · simpa using hrefs r
          · simp [Value.opaqueHandle, hop, hopaque]
          · intro h' k' hm
            rcases mem_cons.mp hm with hm | hm
            · cases hm
              exact ⟨d, mem_cons_self⟩
            · exact hkinds' h' k' hm
        · refine ⟨hfreed, ⟨objs, hobjs, by simp [ho, hhandles], htaken⟩, fun r => ?_, ?_, ?_⟩
          · simpa [(hnoref r).symm] using hrefs r
          · simp [hnone, hop, hopaque]
          · intro h' k' hm
            rcases mem_cons.mp hm with rfl | hm
            · simp [Value.opaqueHandle] at hnone
            · exact hkinds' h' k' hm

/-! ### Following one root -/

namespace Host

variable {s : Host} {r h : ℕ}

def count (s : Host) (h : ℕ) : ℕ := (s.freed.map Prod.snd).count h

lemma count_freeObject (p : Party) (h' : ℕ) :
    (s.freeObject p h').count h = s.count h + if h' = h then 1 else 0 := by
  simp [count, freeObject, count_singleton]

variable {o : Object} {x : ℕ} {p : Party} {ret : Option Value}

lemma of_getElem?_modify {l : List Object} {g : Object → Object} {i j : ℕ}
    (ho : (l.modify i g)[j]? = some o) :
    ∃ o', l[j]? = some o' ∧ o = if i = j then g o' else o' := by
  rw [getElem?_modify] at ho
  obtain ⟨o', hl, rfl⟩ := Option.map_eq_some_iff.mp ho
  exact ⟨o', hl, by split_ifs <;> rfl⟩

lemma releaseArg_object (ret : Option Value) (r' : ℕ) :
    s.releaseArg ret (.object r') = s ∨ s.releaseArg ret (.object r') = s.free .dispatcher r' := by
  simp only [releaseArg]
  split
  · exact .inl rfl
  · split_ifs
    · exact .inr rfl
    · exact .inl rfl

/-- The root `h` belongs to none but the objects in `own`. -/
def Owned (s : Host) (h : ℕ) (own : ℕ → Prop) : Prop :=
  ∀ r o, s.objects[r]? = some o → o.handle = h → own r

namespace Owned

variable {own : ℕ → Prop}

lemma take (hs : Owned s h own) (r' : ℕ) : Owned (s.take r') h own := by
  intro r o ho hh
  obtain ⟨o', ho', rfl⟩ := of_getElem?_modify ho
  refine hs r o' ho' ?_
  split_ifs at hh <;> exact hh

lemma alloc (hs : Owned s h own) {h' : ℕ} (hne : h' ≠ h) (c : Bool) :
    Owned (s.alloc h' c) h own := by
  intro r o ho hh
  by_cases hr : r < s.objects.length
  · exact hs r o (by rwa [Host.alloc, getElem?_append_left hr] at ho) hh
  · simp only [Host.alloc] at ho
    rw [getElem?_append_right (not_lt.mp hr), getElem?_singleton] at ho
    split_ifs at ho
    cases ho
    exact absurd hh hne

lemma clear (hs : Owned s h own) (h0 : h ≠ 0) {r' r : ℕ} {o : Object}
    (ho : (s.objects.modify r' fun o => { o with handle := 0 })[r]? = some o) (hh : o.handle = h) :
    own r := by
  obtain ⟨x, hx, rfl⟩ := of_getElem?_modify ho
  split_ifs at hh
  · exact absurd hh.symm h0
  · exact hs r x hx hh

end Owned

/-- The root `h` belongs to the `r`-th object only; it was released once if the object was freed,
and else never. -/
structure Tracks (s : Host) (r h : ℕ) (freed taken : Bool) : Prop where
  cell : ∃ c, s.objects[r]? = some ⟨if freed then 0 else h, c, taken⟩
  only : s.Owned h (· = r)
  count : s.count h = freed.toNat

namespace Tracks

variable {f t : Bool}

variable (hs : Tracks s r h f t)
include hs

lemma take (r' : ℕ) : Tracks (s.take r') r h f (t || r' == r) := by
  obtain ⟨c, hc⟩ := hs.cell
  refine ⟨⟨c, ?_⟩, hs.only.take r', hs.count⟩
  by_cases hr : r' = r
  · simp [Host.take, hr, hc]
  · simp [Host.take, hr, hc]

variable {h' : ℕ}

lemma alloc (hne : h' ≠ h) (c' : Bool) : Tracks (s.alloc h' c') r h f t := by
  obtain ⟨c, hc⟩ := hs.cell
  have hlt : r < s.objects.length := (List.getElem?_eq_some_iff.mp hc).1
  refine ⟨⟨c, ?_⟩, hs.only.alloc hne c', hs.count⟩
  rw [← hc]
  exact getElem?_append_left hlt

lemma freeObject (p : Party) (hne : h' ≠ h) : Tracks (s.freeObject p h') r h f t := by
  refine ⟨hs.cell, hs.only, ?_⟩
  rw [count_freeObject, if_neg hne, add_zero, hs.count]

lemma freeOpaque (p : Party) (hne : h' ≠ h) : Tracks (s.freeOpaque p h') r h f t := by
  unfold Host.freeOpaque
  split_ifs
  · exact hs
  · exact hs.freeObject p hne

lemma free (h0 : h ≠ 0) (p : Party) (r' : ℕ) : Tracks (s.free p r') r h (f || r' == r) t := by
  obtain ⟨c, hc⟩ := hs.cell
  unfold Host.free
  cases ho : s.objects[r']? with
  | none =>
    have hr : r' ≠ r := by
      rintro rfl
      simp [hc] at ho
    rwa [beq_false_of_ne hr, Bool.or_false]
  | some o =>
    by_cases hz : o.handle = 0
    · simp only [hz, if_true]
      by_cases hr : r' = r
      · -- the object was freed before
        subst hr
        have hf : f = true := by
          rw [hc, Option.some.injEq] at ho
          rw [← ho] at hz
          by_contra hf
          simp [Bool.not_eq_true _ ▸ hf, h0] at hz
        simpa [hf] using hs
      · rwa [beq_false_of_ne hr, Bool.or_false]
    · simp only [hz, if_false]
      by_cases hr : r' = r
      · subst hr
        have hf : f = false ∧ o.handle = h := by
          rw [hc, Option.some.injEq] at ho
          rw [← ho] at hz ⊢
          cases f
          · simp
          · simp at hz
        refine ⟨⟨c, by simp [Host.freeObject, hc]⟩, fun _ _ => hs.only.clear h0, ?_⟩
        rw [count_freeObject, if_pos hf.2]
        show s.count h + 1 = _
        rw [hs.count, hf.1]
        simp
      · have hne : o.handle ≠ h := fun hh => hr (hs.only r' o ho hh)
        refine ⟨⟨c, ?_⟩, fun _ _ => hs.only.clear h0, ?_⟩
        · simp [Host.freeObject, hr, hc]
        · rw [count_freeObject, if_neg hne]
          show s.count h + 0 = _
          rw [hs.count, beq_false_of_ne hr, Bool.or_false]
          rfl

/-- What the `Func` does. -/
lemma runOps (h0 : h ≠ 0) (ops : List FuncOp) (hops : ∀ h' c, .receive h' c ∈ ops → h' ≠ h) :
    Tracks (ops.foldl runOp s) r h (f || decide (.free r ∈ ops))
      (t || decide (.take r ∈ ops ∨ .forward r ∈ ops)) := by
  induction ops generalizing s f t with
  | nil => simpa using hs
  | cons op ops ih =>
    have hrest : ∀ h' c, .receive h' c ∈ ops → h' ≠ h :=
      fun h' c hm => hops h' c (mem_cons_of_mem _ hm)
    cases op with
    | take r' | forward r' =>
      have hnext := ih (hs.take r') hrest
      by_cases hr : r' = r
      · simpa [hr, runOp] using hnext
      · simpa [hr, Ne.symm hr, beq_false_of_ne hr, runOp] using hnext
    | free r' =>
      have hnext := ih (hs.free h0 .func r') hrest
      by_cases hr : r' = r
      · simpa [hr, runOp] using hnext
      · simpa [hr, Ne.symm hr, beq_false_of_ne hr, runOp] using hnext
    | receive h' c =>
      have hnext := ih (hs.alloc (hops h' c mem_cons_self) c) hrest
      simpa [runOp] using hnext

lemma releaseArg (h0 : h ≠ 0) (ret : Option Value) {a : Value} (ha : a.opaqueHandle ≠ some h) :
    Tracks (s.releaseArg ret a) r h
      (f || (!t && decide (a = .object r) && decide (some (.object r) ≠ ret))) t := by
  cases a with
  | object r' =>
    obtain ⟨c, hc⟩ := hs.cell
    by_cases hr : r' = r
    · subst hr
      simp only [Host.releaseArg, hc]
      split_ifs with hcond
      · simpa [hcond.1, hcond.2] using hs.free h0 .dispatcher r'
      · have hfalse : (!t && decide (some (Value.object r') ≠ ret)) = false := by
          by_contra hne
          simp only [Bool.not_eq_false, Bool.and_eq_true, Bool.not_eq_true', decide_eq_true_eq]
            at hne
          exact hcond ⟨by simp [hne.1], hne.2⟩
        simpa only [decide_true, Bool.and_true, hfalse, Bool.or_false] using hs
    · have hfree := hs.free h0 .dispatcher r'
      rw [beq_false_of_ne hr, Bool.or_false] at hfree
      have hgoal : Tracks (s.releaseArg ret (.object r')) r h f t := by
        rcases releaseArg_object ret r' with heq | heq <;> rw [heq]
        · exact hs
        · exact hfree
      simpa [hr] using hgoal
  | opaqueValue h' k =>
    have hne : h' ≠ h := fun he => ha (by rw [he]; rfl)
    have hgoal : Tracks (s.releaseArg ret (.opaqueValue h' k)) r h f t := by
      simp only [Host.releaseArg]
      split_ifs
      · exact hs.freeOpaque _ hne
      · exact hs
    simpa using hgoal
  | undefined | null | bool b | number n | string b | composite j =>
    simpa [Host.releaseArg] using hs

/-- What the dispatcher does after the `Func`. -/
lemma releaseArgRoots (h0 : h ≠ 0) (ret : Option Value) (args : List Value)
    (hargs : ∀ a ∈ args, a.opaqueHandle ≠ some h) :
    Tracks (s.releaseArgRoots args ret) r h
      (f || (!t && decide (.object r ∈ args) && decide (some (.object r) ≠ ret))) t := by
  induction args generalizing s f with
  | nil => simpa [Host.releaseArgRoots] using hs
  | cons a args ih =>
    have hnext := ih (hs.releaseArg h0 ret (hargs a mem_cons_self))
      fun b hb => hargs b (mem_cons_of_mem _ hb)
    have hflag : (f || (!t && decide (a = .object r) && decide (some (.object r) ≠ ret)) ||
        (!t && decide (.object r ∈ args) && decide (some (.object r) ≠ ret))) =
          (f || (!t && decide (.object r ∈ a :: args) && decide (some (.object r) ≠ ret))) := by
      by_cases ha : a = .object r
      · subst ha
        cases f <;> cases t <;> by_cases hr : some (Value.object r) = ret <;> simp [hr]
      · simp [ha, Ne.symm ha]
    rwa [hflag] at hnext

end Tracks

/-- The root `h` belongs to no object; it was released `n` times. -/
structure Unseen (s : Host) (h n : ℕ) : Prop where
  cells : s.Owned h fun _ => False
  count : s.count h = n

namespace Unseen

variable {n : ℕ}

lemma free (hs : Unseen s h n) (h0 : h ≠ 0) (p : Party) (r' : ℕ) : Unseen (s.free p r') h n := by
  unfold Host.free
  cases ho : s.objects[r']? with
  | none => exact hs
  | some o =>
    simp only
    split_ifs
    · exact hs
    · refine ⟨fun _ _ => hs.cells.clear h0, ?_⟩
      rw [count_freeObject, if_neg (hs.cells r' o ho)]
      exact hs.count

lemma freeOpaque (hs : Unseen s h n) (h0 : h ≠ 0) (p : Party) (h' : ℕ) :
    Unseen (s.freeOpaque p h') h (n + if h' = h then 1 else 0) := by
  unfold Host.freeOpaque
  split_ifs with hz he he
  · exact absurd (he ▸ hz) h0
  · exact hs
  · refine ⟨hs.cells, ?_⟩
    rw [count_freeObject, if_pos he, hs.count]
  · refine ⟨hs.cells, ?_⟩
    rw [count_freeObject, if_neg he, hs.count]

lemma runOps (hs : Unseen s h n) (h0 : h ≠ 0) (ops : List FuncOp)
    (hops : ∀ h' c, .receive h' c ∈ ops → h' ≠ h) : Unseen (ops.foldl runOp s) h n := by
  induction ops generalizing s with
  | nil => exact hs
  | cons op ops ih =>
    have hrest : ∀ h' c, .receive h' c ∈ ops → h' ≠ h :=
      fun h' c hm => hops h' c (mem_cons_of_mem _ hm)
    cases op with
    | take r' | forward r' => exact ih ⟨hs.cells.take r', hs.count⟩ hrest
    | free r' => exact ih (hs.free h0 .func r') hrest
    | receive h' c => exact ih ⟨hs.cells.alloc (hops h' c mem_cons_self) c, hs.count⟩ hrest

lemma releaseArgRoots (hs : Unseen s h n) (h0 : h ≠ 0) (ret : Option Value) (args : List Value) :
    Unseen (s.releaseArgRoots args ret) h
      (n + args.countP fun a => decide (a.opaqueHandle = some h ∧ some a ≠ ret)) := by
  induction args generalizing s n with
  | nil => exact hs
  | cons a args ih =>
    have hone : Unseen (s.releaseArg ret a) h
        (n + if a.opaqueHandle = some h ∧ some a ≠ ret then 1 else 0) := by
      cases a with
      | object r' =>
        have hgoal : Unseen (s.releaseArg ret (.object r')) h n := by
          rcases releaseArg_object ret r' with heq | heq <;> rw [heq]
          · exact hs
          · exact hs.free h0 _ _
        simpa [Value.opaqueHandle] using hgoal
      | opaqueValue h' k =>
        simp only [Host.releaseArg, Value.opaqueHandle, Option.some.injEq]
        by_cases hret : some (Value.opaqueValue h' k) = ret
        · simpa [hret] using hs
        · simpa [hret] using hs.freeOpaque h0 .dispatcher h'
      | undefined | null | bool b | number n | string b | composite j =>
        simpa [Value.opaqueHandle, Host.releaseArg] using hs
    have hnext := ih hone
    rw [countP_cons]
    simpa [Host.releaseArgRoots, add_assoc, add_comm, add_left_comm] using hnext

end Unseen

/-! ### The log of the dispatcher -/

lemma runOps_freed {ops : List FuncOp} (hx : (.dispatcher, x) ∈ (ops.foldl runOp s).freed) :
    (.dispatcher, x) ∈ s.freed := by
  induction ops generalizing s with
  | nil => exact hx
  | cons op ops ih =>
    have hone := ih hx
    cases op with
    | free r' =>
      simp only [runOp, free] at hone
      split at hone
      · exact hone
      · split_ifs at hone
        · exact hone
        · simpa [freeObject] using hone
    | _ => exact hone

lemma free_cell {r' : ℕ} (ho : (s.free p r').objects[r]? = some o)
    (hz : o.handle ≠ 0) : s.objects[r]? = some o := by
  unfold free at ho
  split at ho
  · exact ho
  · split_ifs at ho
    · exact ho
    · obtain ⟨x, hx, rfl⟩ := of_getElem?_modify ho
      split_ifs at hz ⊢
      · exact absurd rfl hz
      · exact hx

lemma releaseArg_cell {a : Value}
    (ho : (s.releaseArg ret a).objects[r]? = some o) (hz : o.handle ≠ 0) :
    s.objects[r]? = some o := by
  cases a with
  | object r' =>
    rcases releaseArg_object (s := s) ret r' with heq | heq <;> rw [heq] at ho
    · exact ho
    · exact free_cell ho hz
  | opaqueValue h' k =>
    simp only [releaseArg, freeOpaque] at ho
    split_ifs at ho <;> exact ho
  | _ => exact ho

/-- The value has the root `x` at hand. -/
def Holds (s : Host) (x : ℕ) : Value → Prop
  | .object r => ∃ o, s.objects[r]? = some o ∧ o.handle = x
  | .opaqueValue h _ => h = x
  | _ => False

lemma releaseArg_freed {a : Value}
    (hx : (p, x) ∈ (s.releaseArg ret a).freed) :
    (p, x) ∈ s.freed ∨ p = .dispatcher ∧ x ≠ 0 ∧ s.Holds x a := by
  cases a with
  | object r' =>
    rcases releaseArg_object (s := s) ret r' with heq | heq <;> rw [heq] at hx
    · exact .inl hx
    · unfold free at hx
      split at hx
      · exact .inl hx
      next o ho =>
        split_ifs at hx with hz
        · exact .inl hx
        · simp only [freeObject, mem_append, mem_singleton, Prod.mk.injEq] at hx
          rcases hx with hx | ⟨rfl, rfl⟩
          · exact .inl hx
          · exact .inr ⟨rfl, hz, o, ho, rfl⟩
  | opaqueValue h' k =>
    simp only [releaseArg, freeOpaque] at hx
    split_ifs at hx with hret hz
    · exact .inl hx
    · simp only [freeObject, mem_append, mem_singleton, Prod.mk.injEq] at hx
      rcases hx with hx | ⟨rfl, rfl⟩
      · exact .inl hx
      · exact .inr ⟨rfl, hz, rfl⟩
    · exact .inl hx
  | _ => exact .inl hx

lemma releaseArgRoots_freed {args : List Value}
    (hx : (p, x) ∈ (s.releaseArgRoots args ret).freed) :
    (p, x) ∈ s.freed ∨ p = .dispatcher ∧ x ≠ 0 ∧ ∃ a ∈ args, s.Holds x a := by
  induction args generalizing s with
  | nil => exact .inl hx
  | cons a args ih =>
    rcases ih hx with hx | ⟨hp, hz, b, hb, hholds⟩
    · rcases releaseArg_freed hx with hx | ⟨hp, hz, hholds⟩
      · exact .inl hx
      · exact .inr ⟨hp, hz, a, mem_cons_self, hholds⟩
    · refine .inr ⟨hp, hz, b, mem_cons_of_mem _ hb, ?_⟩
      cases b with
      | object r' =>
        obtain ⟨o, ho, rfl⟩ := hholds
        exact ⟨o, releaseArg_cell ho hz, rfl⟩
      | _ => exact hholds

lemma mem_freed_of_count (hc : s.count h ≠ 0) : ∃ p, (p, h) ∈ s.freed := by
  have hmem : h ∈ s.freed.map Prod.snd := by
    by_contra hn
    exact hc (count_eq_zero.mpr hn)
  obtain ⟨⟨p, h'⟩, hm, rfl⟩ := mem_map.mp hmem
  exact ⟨p, hm⟩

lemma count_ne_zero_of_mem (hm : (p, h) ∈ s.freed) : s.count h ≠ 0 := fun hc =>
  count_eq_zero.mp hc (mem_map.mpr ⟨_, hm, rfl⟩)

def handleOf (s : Host) : Option Value → ℕ
  | some (.object r) => (s.objects[r]?.map Object.handle).getD 0
  | some (.opaqueValue h _) => h
  | _ => 0

end Host

lemma replyTo_freed (s : Host) (ret : Option Value) (err : Option FuncErr) :
    (replyTo s ret err).2.freed = s.freed := by
  have hencode : ∀ v, (encodeValue s v).2.freed = s.freed := by
    rintro (_ | v)
    · rfl
    · cases v <;> rfl
  unfold replyTo
  split
  · split
    all_goals
      next heq => rw [← hencode, heq]
  · rfl
  · split
    all_goals
      next heq => rw [← hencode, heq]

lemma replyTo_handle (s : Host) (ret : Option Value) (err : Option FuncErr) :
    (replyTo s ret err).1.handle = s.handleOf (Ending.returned ret err).crossing := by
  have hencode : ∀ v e, (encodeValue s v).1 = some e → e.h = s.handleOf v := by
    rintro (_ | v) e he
    · cases he
      rfl
    · cases v with
      | composite json =>
        obtain ⟨text, -, rfl⟩ := Option.map_eq_some_iff.mp he
        rfl
      | _ =>
        cases he
        rfl
  have hnone : ∀ v, (encodeValue s v).1 = none → s.handleOf v = 0 := by
    rintro (_ | v) he
    · cases he
    · cases v with
      | composite json => rfl
      | _ => cases he
  unfold replyTo
  split
  · split
    next heq => exact (hnone _ (congrArg Prod.fst heq)).symm
    next heq => exact hencode _ _ (congrArg Prod.fst heq)
  · rfl
  · split
    next heq => exact (hnone _ (congrArg Prod.fst heq)).symm
    next heq => exact hencode _ _ (congrArg Prod.fst heq)

/-! ### The roots of a call -/

namespace Call

variable {c : Call} {h r : ℕ}

lemma mem_roots : h ∈ c.roots ↔ (∃ r, c.ObjectAt r h) ∨ h ∈ c.encs.filterMap opaqueRoot := by
  rw [roots, mem_append, mem_iff_getElem?]
  rfl

lemma ne_zero (hh : h ∈ c.roots) : h ≠ 0 := fun h0 => c.nonzero (h0 ▸ hh)

lemma objectAt_unique {r' : ℕ} (hr : c.ObjectAt r h) (hr' : c.ObjectAt r' h) : r = r' := by
  have hnodup := (nodup_append.mp c.nodup).1
  exact (getElem?_inj (List.getElem?_eq_some_iff.mp hr).1 hnodup).mp (hr.trans hr'.symm)

lemma objectAt_not_mem (hr : c.ObjectAt r h) : h ∉ c.encs.filterMap opaqueRoot := fun hm =>
  (nodup_append.mp c.nodup).2.2 h (mem_of_getElem? hr) h hm rfl

lemma opaqueRoot_kind (kind : OpaqueKind) (d : Option Data) :
    opaqueRoot (some ⟨kind.kind, d, h⟩) = some h := by
  cases kind <;> rfl

lemma opaque_of_values {kind : OpaqueKind} (hv : .opaqueValue h kind ∈ c.ending.values)
    (hh : h ∈ c.roots) :
    h ∈ c.encs.filterMap opaqueRoot ∧ ∃ d, some ⟨kind.kind, d, h⟩ ∈ c.encs := by
  obtain ⟨d, hd⟩ := c.opaques h kind hv hh
  exact ⟨mem_filterMap.mpr ⟨_, hd, opaqueRoot_kind kind d⟩, d, hd⟩

lemma kind_unique {k k' : OpaqueKind} {d d' : Option Data} (hk : some ⟨k.kind, d, h⟩ ∈ c.encs)
    (hk' : some ⟨k'.kind, d', h⟩ ∈ c.encs) : k = k' := by
  have hnodup := (nodup_append.mp c.nodup).2.1
  rw [List.Nodup, pairwise_filterMap] at hnodup
  by_contra hne
  have hkinds : k.kind ≠ k'.kind := by
    cases k <;> cases k' <;> simp_all [OpaqueKind.kind]
  have hdiff : (some ⟨k.kind, d, h⟩ : Option ValueEncoding) ≠ some ⟨k'.kind, d', h⟩ := by
    simp [hkinds]
  have hsymm : Std.Symm fun a a' : Option ValueEncoding =>
      ∀ b, opaqueRoot a = some b → ∀ b', opaqueRoot a' = some b' → b ≠ b' :=
    ⟨fun a a' haa b hb b' hb' => (haa b' hb' b hb).symm⟩
  exact hnodup.forall hk hk' hdiff h (opaqueRoot_kind k d) h (opaqueRoot_kind k' d') rfl

lemma eq_of_hasRoot {ret : Option Value} {k : OpaqueKind} {d : Option Data}
    (hd : some ⟨k.kind, d, h⟩ ∈ c.encs) (hret : ∀ v ∈ ret, v ∈ c.ending.values)
    (hhas : c.HasRoot h ret) : ret = some (.opaqueValue h k) := by
  have hop : h ∈ c.encs.filterMap opaqueRoot :=
    mem_filterMap.mpr ⟨_, hd, opaqueRoot_kind k d⟩
  match ret, hhas, hret with
  | some (.object r), hhas, _ => exact absurd hop (objectAt_not_mem hhas)
  | some (.opaqueValue x k'), hhas, hret =>
    obtain rfl : x = h := hhas
    obtain ⟨-, d', hd'⟩ := opaque_of_values (hret _ rfl) (mem_roots.mpr (.inr hop))
    rw [kind_unique hd hd']

lemma exists_objectAt_iff (hr : c.ObjectAt r h) {P : ℕ → Prop} :
    (∃ r, c.ObjectAt r h ∧ P r) ↔ P r := by
  constructor
  · rintro ⟨r', hr', hp⟩
    rwa [objectAt_unique hr hr']
  · exact fun hp => ⟨r, hr, hp⟩

lemma ret_mem_values {ret : Option Value} {err : Option FuncErr}
    (he : c.ending = .returned ret err) :
    ∀ v ∈ ret, v ∈ c.ending.values := by
  intro v hv
  rw [he]
  rcases err with _ | _ | _ <;> simp_all [Ending.values]

/-! ### A call whose `Func` runs -/

/-- The host after the `Func`. -/
abbrev after (c : Call) (s : Host) : Host := c.ops.foldl Host.runOp s

/-- The host after the release of the arguments. -/
abbrev released (c : Call) (s : Host) (args : List Value) (ret : Option Value) : Host :=
  (c.after s).releaseArgRoots args ret

/-- The arguments of a call and the host before the `Func` runs. -/
structure Runs (c : Call) (args : List Value) (s : Host) : Prop where
  text : c.garbled = false
  decode : decodeArgs {} c.encs = .ok (args, s)

section

variable {args : List Value} {s : Host} (hc : Runs c args s)
include hc

lemma Runs.ran : c.Ran := ⟨hc.text, decodeArgs_isOk.mp (by rw [hc.decode]; rfl)⟩

lemma Runs.decoded : Decoded {} c.encs args s := decodeArgs_decoded hc.decode

lemma Runs.objects : s.objects.map Object.handle = c.encs.filterMap objectRoot ∧
    ∀ o ∈ s.objects, o.taken = false := by
  obtain ⟨objs, hobjs, hhandles, htaken⟩ := hc.decoded.objects
  rw [hobjs]
  exact ⟨hhandles, htaken⟩

lemma Runs.count_zero : s.count h = 0 := by
  simp [Host.count, hc.decoded.freed]

lemma Runs.tracks (hr : c.ObjectAt r h) : s.Tracks r h false false := by
  obtain ⟨hhandles, htaken⟩ := hc.objects
  have hcell : ∀ {r' : ℕ} {o : Object}, s.objects[r']? = some o → c.ObjectAt r' o.handle := by
    intro r' o ho
    rw [ObjectAt, ← hhandles, getElem?_map, ho]
    rfl
  refine ⟨?_, fun r' o ho hh => objectAt_unique (hh ▸ hcell ho) hr, hc.count_zero⟩
  rw [ObjectAt, ← hhandles, getElem?_map] at hr
  obtain ⟨⟨h', callable, taken⟩, ho, rfl⟩ := Option.map_eq_some_iff.mp hr
  have := htaken _ (mem_of_getElem? ho)
  exact ⟨callable, by simpa using this ▸ ho⟩

lemma Runs.unseen (hh : h ∈ c.encs.filterMap opaqueRoot) : s.Unseen h 0 := by
  refine ⟨fun r' o ho heq => ?_, hc.count_zero⟩
  have hr : c.ObjectAt r' h := by
    rw [ObjectAt, ← hc.objects.1, getElem?_map, ho, ← heq]
    rfl
  exact objectAt_not_mem hr hh

lemma Runs.mem_args (hr : c.ObjectAt r h) : .object r ∈ args := by
  refine (hc.decoded.refs r).mpr ⟨Nat.zero_le _, ?_⟩
  obtain ⟨callable, ho⟩ := (hc.tracks hr).cell
  exact (List.getElem?_eq_some_iff.mp ho).1

lemma Runs.objectAt (hr : .object r ∈ args) : ∃ h, c.ObjectAt r h := by
  have hlt := ((hc.decoded.refs r).mp hr).2
  refine ⟨s.objects[r].handle, ?_⟩
  rw [ObjectAt, ← hc.objects.1, getElem?_map, getElem?_eq_getElem hlt]
  rfl

lemma Runs.opaque_args {a : Value} (ha : a ∈ args) (hh : a.opaqueHandle = some h) :
    h ∈ c.encs.filterMap opaqueRoot := by
  rw [← hc.decoded.handles]
  exact mem_filterMap.mpr ⟨a, ha, hh⟩

lemma Runs.tracks_func (hr : c.ObjectAt r h) :
    (c.after s).Tracks r h (decide (.free r ∈ c.ops))
      (decide (.take r ∈ c.ops ∨ .forward r ∈ c.ops)) := by
  have hh : h ∈ c.roots := mem_roots.mpr (.inl ⟨r, hr⟩)
  have htracks := (hc.tracks hr).runOps (ne_zero hh) c.ops
    fun h' b hm heq => c.received h' b hm (heq ▸ hh)
  simpa using htracks

lemma Runs.unseen_func (hh : h ∈ c.encs.filterMap opaqueRoot) :
    (c.after s).Unseen h 0 := by
  have hroot : h ∈ c.roots := mem_roots.mpr (.inr hh)
  exact (hc.unseen hh).runOps (ne_zero hroot) c.ops fun h' b hm heq =>
    c.received h' b hm (heq ▸ hroot)

lemma Runs.tracks_release (hr : c.ObjectAt r h) (ret : Option Value) :
    (c.released s args ret).Tracks r h
      (decide (.free r ∈ c.ops) || (!decide (.take r ∈ c.ops ∨ .forward r ∈ c.ops) &&
        decide (some (.object r) ≠ ret)))
      (decide (.take r ∈ c.ops ∨ .forward r ∈ c.ops)) := by
  have hh : h ∈ c.roots := mem_roots.mpr (.inl ⟨r, hr⟩)
  have htracks := (hc.tracks_func hr).releaseArgRoots (ne_zero hh) ret args
    fun a ha heq => objectAt_not_mem hr (hc.opaque_args ha heq)
  simpa [hc.mem_args hr] using htracks

variable {ret : Option Value}

lemma Runs.unseen_release (hh : h ∈ c.encs.filterMap opaqueRoot)
    (hret : ∀ v ∈ ret, v ∈ c.ending.values) [Decidable (c.HasRoot h ret)] :
    (c.released s args ret).Unseen h
      (if c.HasRoot h ret then 0 else 1) := by
  have hroot : h ∈ c.roots := mem_roots.mpr (.inr hh)
  have hunseen := (hc.unseen_func hh).releaseArgRoots (ne_zero hroot) ret args
  have hcount : args.countP (fun a => decide (a.opaqueHandle = some h ∧ some a ≠ ret)) =
      if c.HasRoot h ret then 0 else 1 := by
    split_ifs with hhas
    · -- the value returned is the one argument with the root
      refine countP_eq_zero.mpr fun a ha hdec => ?_
      obtain ⟨hah, hne⟩ := of_decide_eq_true hdec
      cases a with
      | opaqueValue h' k =>
        obtain rfl : h' = h := by simpa [Value.opaqueHandle] using hah
        obtain ⟨d, hd⟩ := hc.decoded.kinds h' k ha
        exact hne (eq_of_hasRoot hd hret hhas).symm
      | _ => simp [Value.opaqueHandle] at hah
    · have hall : args.countP (fun a => decide (a.opaqueHandle = some h ∧ some a ≠ ret)) =
          args.countP (fun a => a.opaqueHandle == some h) := by
        refine countP_congr fun a ha => ?_
        simp only [decide_eq_true_eq, beq_iff_eq, and_iff_left_iff_imp]
        rintro hah rfl
        cases a with
        | opaqueValue h' k => exact hhas (Option.some.inj hah)
        | _ => simp [Value.opaqueHandle] at hah
      rw [hall, ← count_filterMap, hc.decoded.handles]
      exact count_eq_one_of_mem (nodup_append.mp c.nodup).2.1 hh
  rwa [hcount, zero_add] at hunseen

lemma Runs.dispatcher_freed {x : ℕ}
    (hx : (.dispatcher, x) ∈ (c.released s args ret).freed) :
    x ∈ c.roots := by
  rcases Host.releaseArgRoots_freed hx with hx | ⟨-, hz, a, ha, hholds⟩
  · have hnone := Host.runOps_freed hx
    rw [hc.decoded.freed] at hnone
    cases hnone
  · cases a with
    | object r =>
      obtain ⟨h, hr⟩ := hc.objectAt ha
      obtain ⟨o, ho, rfl⟩ := hholds
      obtain ⟨callable, hcell⟩ := (hc.tracks_func hr).cell
      rw [hcell, Option.some.injEq] at ho
      rw [← ho] at hz ⊢
      split_ifs at hz ⊢
      · exact absurd rfl hz
      · exact mem_roots.mpr (.inl ⟨r, hr⟩)
    | opaqueValue x' k =>
      obtain rfl : x' = x := hholds
      exact mem_roots.mpr (.inr (hc.opaque_args ha rfl))
    | _ => exact hholds.elim

lemma Runs.dispatch_panicked (he : c.ending = .panicked) :
    dispatch c = (.error .hostCallFailed, c.after s) := by
  simp [dispatch, hc.text, hc.decode, he]

lemma Runs.dispatch_returned {err : Option FuncErr}
    (he : c.ending = .returned ret err) :
    dispatch c = replyTo (c.released s args ret) ret err := by
  simp [dispatch, hc.text, hc.decode, he]

end

lemma dispatch_of_not_ran (hran : ¬ c.Ran) : ∃ e, dispatch c = (.error e, {}) := by
  unfold dispatch
  split_ifs with hg
  · exact ⟨_, rfl⟩
  · split
    · exact ⟨_, rfl⟩
    next heq =>
      exact absurd ⟨by simpa using hg, decodeArgs_isOk.mp (by rw [heq]; rfl)⟩ hran

lemma Ran.runs (hran : c.Ran) : ∃ args s, Runs c args s := by
  cases hd : decodeArgs {} c.encs with
  | error e =>
    have hok := decodeArgs_isOk (s := {}).mpr hran.2
    rw [hd] at hok
    cases hok
  | ok p => exact ⟨p.1, p.2, hran.1, hd⟩

/-- The `Func` freed the argument with the root `h`. -/
def Freed (c : Call) (h : ℕ) : Prop := ∃ r, c.ObjectAt r h ∧ .free r ∈ c.ops

lemma not_loose_iff (hran : c.Ran) : ¬ c.Loose h ↔ c.Taken h ∨ c.Freed h := by
  constructor
  · intro hl
    simp only [Loose, not_forall] at hl
    obtain ⟨r, hr, hl⟩ := hl
    by_cases ht : .take r ∈ c.ops
    · exact .inl ⟨hran, r, hr, ht⟩
    · exact .inr ⟨r, hr, by simpa [ht] using hl⟩
  · rintro (⟨-, r, hr, ht⟩ | ⟨r, hr, hf⟩) hl
    · exact (hl r hr).1 ht
    · exact (hl r hr).2 hf

variable {args : List Value} {s : Host} {ret : Option Value}

/-- Without a return, only what the `Func` has freed is released. -/
lemma Runs.releases_panicked (hc : Runs c args s)
    (he : c.ending = .panicked) (hh : h ∈ c.roots) : c.releases h = 1 ↔ c.Freed h := by
  have hrel : c.releases h = (c.after s).count h := by
    rw [releases, hc.dispatch_panicked he]
    rfl
  rw [hrel]
  rcases mem_roots.mp hh with ⟨r, hr⟩ | hop
  · rw [(hc.tracks_func hr).count, Freed, exists_objectAt_iff hr]
    simp
  · rw [(hc.unseen_func hop).count]
    refine iff_of_false (by simp) ?_
    rintro ⟨r, hr, -⟩
    exact objectAt_not_mem hr hop

lemma Runs.releases_returned (hc : Runs c args s) {err : Option FuncErr}
    (he : c.ending = .returned ret err)
    (hh : h ∈ c.roots) :
    c.releases h = 1 ↔ c.Freed h ∨ ¬ c.Taken h ∧ ¬ c.Forwarded h ∧ ¬ c.HasRoot h ret := by
  classical
  have hret := ret_mem_values he
  have hrel : c.releases h =
      (c.released s args ret).count h := by
    rw [releases, hc.dispatch_returned he, replyTo_freed]
    rfl
  rw [hrel]
  rcases mem_roots.mp hh with ⟨r, hr⟩ | hop
  · have hhas : c.HasRoot h ret ↔ some (.object r) = ret := by
      constructor
      · intro hhas
        match ret, hhas, hret with
        | some (.object r'), hhas, _ => rw [objectAt_unique hr hhas]
        | some (.opaqueValue x k), hhas, hret =>
          obtain rfl : x = h := hhas
          exact absurd (opaque_of_values (hret _ rfl) hh).1 (objectAt_not_mem hr)
      · rintro rfl
        exact hr
    rw [(hc.tracks_release hr ret).count, Taken, Forwarded, Freed, and_iff_right hc.ran,
      exists_objectAt_iff hr, exists_objectAt_iff hr, exists_objectAt_iff hr, hhas]
    by_cases h₁ : FuncOp.free r ∈ c.ops <;> by_cases h₂ : FuncOp.take r ∈ c.ops <;>
      by_cases h₃ : FuncOp.forward r ∈ c.ops <;> by_cases h₄ : some (Value.object r) = ret <;>
      simp [h₁, h₂, h₃, h₄]
  · have hno : ∀ r, ¬ c.ObjectAt r h := fun r hr => objectAt_not_mem hr hop
    rw [(hc.unseen_release hop hret).count]
    simp [Freed, Taken, Forwarded, hno]

/-- A value that has a root released by the dispatcher is a symbol or bigint that was not
returned. -/
lemma Runs.opaque_of_freed (hc : Runs c args s) {v : Option Value}
    (hret : ∀ w ∈ ret, w ∈ c.ending.values) (hvals : ∀ w ∈ v, w ∈ c.ending.values) {x : ℕ}
    (hv : (c.released s args ret).handleOf v = x)
    (hx : (.dispatcher, x) ∈ (c.released s args ret).freed) :
    ∃ k, v = some (.opaqueValue x k) ∧ ¬ c.HasRoot x ret := by
  classical
  have hroot := hc.dispatcher_freed hx
  have hne := ne_zero hroot
  have hcount := Host.count_ne_zero_of_mem hx
  match v, hv with
  | some (.object r), hv =>
    exfalso
    cases ho : (c.released s args ret).objects[r]? with
    | none => exact hne (by rw [← hv, Host.handleOf, ho]; rfl)
    | some o =>
      have hhandle : o.handle = x := by rw [← hv, Host.handleOf, ho]; rfl
      rcases mem_roots.mp hroot with ⟨r', hr'⟩ | hop
      · -- the object is the argument with the root, so it is not freed
        have htracks := hc.tracks_release hr' ret
        obtain rfl := htracks.only r o ho hhandle
        obtain ⟨callable, hcell⟩ := htracks.cell
        rw [ho, Option.some.injEq] at hcell
        rw [htracks.count] at hcount
        rw [hcell] at hhandle
        split_ifs at hhandle with hf
        · exact hne hhandle.symm
        · exact hcount (by simpa using hf)
      · exact (hc.unseen_release hop hret).cells r o ho hhandle
  | some (.opaqueValue x' k), hv =>
    obtain rfl : x' = x := hv
    refine ⟨k, rfl, fun hhas => ?_⟩
    have hop := (opaque_of_values (hvals _ rfl) hroot).1
    rw [(hc.unseen_release hop hret).count, if_pos hhas] at hcount
    exact hcount rfl
  | none, hv | some .undefined, hv | some .null, hv | some (.bool _), hv | some (.number _), hv
  | some (.string _), hv | some (.composite _), hv => exact absurd hv.symm hne

/-- The reply names a released root exactly if a symbol or bigint is thrown without being returned
as well. -/
lemma Runs.reply_iff (hc : Runs c args s)
    {err : Option FuncErr} (he : c.ending = .returned ret err) :
    (.dispatcher, (dispatch c).1.handle) ∉ (dispatch c).2.freed ↔
      ∀ h kind, err = some (.thrown (some (.opaqueValue h kind))) → h ∈ c.roots →
        ret = some (.opaqueValue h kind) := by
  classical
  have hret := ret_mem_values he
  have hcross : ∀ w ∈ c.ending.crossing, w ∈ c.ending.values := by
    intro w hw
    rw [he] at hw ⊢
    rcases err with _ | _ | _ <;> simp_all [Ending.values, Ending.crossing]
  rw [hc.dispatch_returned he, replyTo_freed, replyTo_handle, ← he]
  constructor
  · intro hnot h kind hthrown hroot
    have hcrossing : c.ending.crossing = some (.opaqueValue h kind) := by rw [he, hthrown]; rfl
    obtain ⟨hop, d, hd⟩ := opaque_of_values (hcross _ hcrossing) hroot
    by_contra hne
    have hhas : ¬ c.HasRoot h ret := fun hhas => hne (eq_of_hasRoot hd hret hhas)
    -- so the dispatcher has released it
    have hcount := (hc.unseen_release hop hret).count
    rw [if_neg hhas] at hcount
    obtain ⟨p, hp⟩ := Host.mem_freed_of_count (h := h) (by rw [hcount]; exact one_ne_zero)
    have hbefore : (p, h) ∉ (c.after s).freed := fun hm =>
      Host.count_ne_zero_of_mem hm (hc.unseen_func hop).count
    obtain ⟨rfl, -, -⟩ := (Host.releaseArgRoots_freed hp).resolve_left hbefore
    refine hnot ?_
    rw [hcrossing]
    exact hp
  · intro hall hx
    generalize hhandle : Host.handleOf _ _ = x at hx
    obtain ⟨k, hv, hhas⟩ := hc.opaque_of_freed hret hcross hhandle hx
    have hroot := hc.dispatcher_freed hx
    rw [he] at hv
    cases err with
    | none =>
      obtain rfl : ret = some (.opaqueValue x k) := hv
      exact hhas rfl
    | some e =>
      cases e with
      | message text => cases hv
      | thrown w =>
        obtain rfl : w = some (.opaqueValue x k) := hv
        obtain rfl := hall x k rfl hroot
        exact hhas rfl

/-- A call is linear exactly if it is orderly. -/
theorem linear_iff_orderly (c : Call) : c.Linear ↔ c.Orderly := by
  by_cases hran : c.Ran
  · obtain ⟨args, s, hc⟩ := hran.runs
    simp only [Orderly, hran, not_true_eq_false, false_implies, true_and, true_implies]
    cases he : c.ending with
    | panicked =>
      have hnocross : ∀ h, ¬ c.CrossesBack h := fun h hcross => by
        have := hcross.2
        rw [he] at this
        exact this
      constructor
      · intro hl h hh
        rw [not_loose_iff hran, ← hc.releases_panicked he hh]
        simpa [hnocross h] using hl.once h hh
      · intro ho
        refine ⟨fun h hh => ?_, ?_⟩
        · have := ho h hh
          rw [not_loose_iff hran, ← hc.releases_panicked he hh] at this
          exact this.imp_right .inr
        · rw [hc.dispatch_panicked he]
          intro hx
          have hnone := Host.runOps_freed hx
          rw [hc.decoded.freed] at hnone
          cases hnone
    | returned ret err =>
      have honce : ∀ h ∈ c.roots, (c.Taken h ∨ c.CrossesBack h ∨ c.releases h = 1) ↔
          (c.Loose h → c.HasRoot h ret ∨ c.Forwarded h → c.CrossesBack h) := by
        intro h hh
        have hloose := not_loose_iff (h := h) hran
        rw [hc.releases_returned he hh]
        tauto
      constructor
      · intro hl
        exact ⟨fun h hh => (honce h hh).mp (hl.once h hh), (hc.reply_iff he).mp hl.reply⟩
      · rintro ⟨hroots, hthrown⟩
        exact ⟨fun h hh => (honce h hh).mpr (hroots h hh), (hc.reply_iff he).mpr hthrown⟩
  · obtain ⟨e, hd⟩ := dispatch_of_not_ran hran
    have hsimp : c.Orderly ↔ c.roots = [] := by simp [Orderly, hran]
    rw [hsimp]
    constructor
    · intro hl
      refine eq_nil_iff_forall_not_mem.mpr fun h hh => ?_
      rcases hl.once h hh with ht | ht | ht
      · exact hran ht.1
      · exact hran ht.1
      · simp [releases, hd] at ht
    · intro hnil
      exact ⟨by simp [hnil], by simp [hd]⟩

/-- A `Func` that asks for its first argument as an object and returns the third. -/
def settled : Call where
  encs := [some ⟨.object, none, 1⟩, some ⟨.function, none, 2⟩, some ⟨.bigint, none, 3⟩]
  ops := [.take 0]
  ending := .returned (some (.opaqueValue 3 .bigint)) none
  nodup := by decide
  nonzero := by decide
  received := by simp
  opaques := by simp [Ending.values, OpaqueKind.kind]

theorem settled_linear : settled.Linear ∧ settled.releases 2 = 1 := by
  refine ⟨(linear_iff_orderly settled).mpr ?_, by decide⟩
  have hran : settled.Ran := by simp [Ran, settled, Decodes]
  refine ⟨fun hn => absurd hran hn, fun _ => ⟨fun h _ _ hback => ⟨hran, ?_⟩, by simp⟩⟩
  exact hback.resolve_right (by simp [Forwarded, settled])

/-- A `Func` that throws the symbol it is called with. -/
def thrower : Call where
  encs := [some ⟨.symbol, none, 1⟩]
  ops := []
  ending := .returned none (some (.thrown (some (.opaqueValue 1 .symbol))))
  nodup := by decide
  nonzero := by decide
  received := by simp
  opaques := by simp [Ending.values, OpaqueKind.kind]

/-- A `Func` that panics before it has looked at the object it is called with. -/
def panicker : Call where
  encs := [some ⟨.object, none, 1⟩]
  ops := []
  ending := .panicked
  nodup := by decide
  nonzero := by decide
  received := by simp
  opaques := by simp [Ending.values]

def undecodable : Call where
  encs := [some ⟨.object, none, 1⟩, none]
  ops := []
  ending := .returned none none
  nodup := by decide
  nonzero := by decide
  received := by simp
  opaques := by simp [Ending.values]

/-- The reply to `thrower` names a root that is gone; the other two leave a root behind. -/
theorem not_linear : ¬ thrower.Linear ∧ ¬ panicker.Linear ∧ ¬ undecodable.Linear := by
  refine ⟨fun hl => hl.reply (by decide), fun hl => ?_, fun hl => ?_⟩
  · rcases hl.once 1 (by decide) with ⟨-, r, -, hr⟩ | ⟨-, hr⟩ | hr
    · simp [panicker] at hr
    · exact hr
    · exact absurd hr (by decide)
  · rcases hl.once 1 (by decide) with ⟨-, r, -, hr⟩ | ⟨-, hr⟩ | hr
    · simp [undecodable] at hr
    · exact hr
    · exact absurd hr (by decide)

end Call

end GoSpidermonkey.Bridge
