import GoSpidermonkey.Lib.Machine
import GoSpidermonkey.Lib.Transducer
import GoSpidermonkey.Nodejs.Files

/-!
# Several descriptors on one file

A descriptor works on a copy of the file that it took when it was opened and writes the whole copy
back when it is closed. Two guarantees of a file system rest on the file itself being worked on.

Appends are kept (`appends_kept`) as long as no descriptor is stored over what another one has
stored in the meantime. Exclusive opens exclude each other (`exclusive_opens_excluded`) as long as
the file of one is stored before the next one is tried: the check looks for the path, which is made
by the close.
-/

open GoSpidermonkey.Path GoSpidermonkey.Fs

namespace GoSpidermonkey.Nodejs.Files

open List Finmap

/-! ### Append descriptors -/

/-- The calls of programs that append to one file. -/
inductive AppendCall
  | openSync (path : Bytes) (plus : Bool)
  | writeSync (fd : ℕ) (arg : WriteArg)
  | closeSync (fd : ℕ) (now : ℤ)

/-- A runtime with the history of the writes to one file. -/
structure Shared where
  rt : Runtime
  log : List (ℕ × Bytes)
  stores : ℕ
  /-- How often the file had been stored when a descriptor was opened. -/
  openedAt : ℕ → ℕ

def Shared.start (fs : MemFS) : Shared := ⟨⟨fs, ∅, 0⟩, [], 0, fun _ => 0⟩

def appendFlag (plus : Bool) : Flag := if plus then .aPlus else .a

def Runtime.isDirty (rt : Runtime) (fd : ℕ) : Bool := (rt.fds.lookup fd).any OpenFile.dirty

/-- One call on the file `p`. -/
def Shared.step (p : Bytes) (s : Shared) : AppendCall → Option Shared
  | .openSync q plus =>
    if guestPath q = p then
      match s.rt.openSync q (appendFlag plus).text with
      | (.opened fd, rt) =>
        some { s with rt := rt, openedAt := Function.update s.openedAt fd s.stores }
      | (_, rt) => some { s with rt := rt }
    else none
  | .writeSync fd arg =>
    match s.rt.writeSync fd arg with
    | (.wrote _, rt) => some { s with rt := rt, log := s.log ++ [(fd, arg.payload.getD [])] }
    | (_, rt) => some { s with rt := rt }
  | .closeSync fd now => some { s with
      rt := (s.rt.closeSync fd now).2
      stores := if s.rt.isDirty fd then s.stores + 1 else s.stores }

/-- A descriptor that has been written to is closed only if the file has not been stored since the
descriptor was opened. -/
def FreshStore (s : Shared) : AppendCall → Prop
  | .closeSync fd _ => s.rt.isDirty fd = true → s.openedAt fd = s.stores
  | _ => True

instance (s : Shared) (c : AppendCall) : Decidable (FreshStore s c) := by
  cases c <;> dsimp only [FreshStore] <;> infer_instance

def ofFD (log : List (ℕ × Bytes)) (fd : ℕ) : List (ℕ × Bytes) := log.filter fun e => e.1 = fd

def bytesOf (ws : List (ℕ × Bytes)) : Bytes := (ws.map Prod.snd).flatten

/-- The same writes of each descriptor in the same order. -/
def Interleaves (ws log : List (ℕ × Bytes)) : Prop := ∀ fd, ofFD ws fd = ofFD log fd

def fileBytes (fs : MemFS) (p : Bytes) : Bytes := (content fs p).getD []

section OfFD

variable {log ws : List (ℕ × Bytes)} {fd fd' : ℕ} {data : Bytes}

@[simp] lemma ofFD_append : ofFD (log ++ ws) fd = ofFD log fd ++ ofFD ws fd := filter_append ..

@[simp] lemma ofFD_singleton_self : ofFD [(fd, data)] fd = [(fd, data)] := by simp [ofFD]

lemma ofFD_singleton_of_ne (h : fd ≠ fd') : ofFD [(fd, data)] fd' = [] := by simp [ofFD, h]

@[simp] lemma ofFD_ofFD_self : ofFD (ofFD log fd) fd = ofFD log fd := by simp [ofFD]

lemma ofFD_ofFD_of_ne (h : fd ≠ fd') : ofFD (ofFD log fd) fd' = [] := by
  simp only [ofFD, filter_filter, filter_eq_nil_iff]
  intro e _
  simp only [Bool.and_eq_true, decide_eq_true_eq]
  rintro ⟨rfl, rfl⟩
  exact h rfl

lemma ofFD_eq_nil (h : ∀ e ∈ log, e.1 < fd) : ofFD log fd = [] := by
  rw [ofFD, filter_eq_nil_iff]
  intro e he
  simpa using (h e he).ne

@[simp] lemma bytesOf_append : bytesOf (log ++ ws) = bytesOf log ++ bytesOf ws := by simp [bytesOf]

@[simp] lemma bytesOf_singleton : bytesOf [(fd, data)] = data := by simp [bytesOf]

@[simp] lemma bytesOf_nil : bytesOf [] = [] := rfl

lemma Interleaves.perm (h : Interleaves ws log) : ws.Perm log := by
  rw [perm_iff_count]
  intro e
  have hcount : ∀ l : List (ℕ × Bytes), l.count e = (ofFD l e.1).count e := by
    intro l
    rw [ofFD, count_filter (by simp)]
  rw [hcount ws, hcount log, h e.1]

lemma Interleaves.length_bytesOf (h : Interleaves ws log) :
    (bytesOf ws).length = (bytesOf log).length := by
  simp only [bytesOf, length_flatten]
  exact ((h.perm.map Prod.snd).map List.length).sum_eq

end OfFD

/-- What is known of an open descriptor. -/
structure Appender (p : Bytes) (s : Shared) (fd : ℕ) (f : OpenFile) : Prop where
  path : f.path = p
  append : f.append = true
  numbered : fd ≤ s.rt.nextFD
  clean : f.dirty = false → ofFD s.log fd = []
  before : s.openedAt fd ≤ s.stores
  /-- As long as nothing else was stored, the copy is the file with the writes of the descriptor. -/
  fresh : s.openedAt fd = s.stores → f.data = fileBytes s.rt.fs p ++ bytesOf (ofFD s.log fd)

/-- What is known of a descriptor: the writes of a closed one are among `ws`. -/
def Known (p : Bytes) (s : Shared) (ws : List (ℕ × Bytes)) (fd : ℕ) : Option OpenFile → Prop
  | none => ofFD ws fd = ofFD s.log fd
  | some f => ofFD ws fd = [] ∧ Appender p s fd f

/-- The file is the original one followed by the writes `ws` of the closed descriptors. -/
structure Kept (p orig : Bytes) (s : Shared) (ws : List (ℕ × Bytes)) : Prop where
  storable : Storable s.rt.fs p
  file : fileBytes s.rt.fs p = orig ++ bytesOf ws
  numbered : ∀ e ∈ s.log, e.1 ≤ s.rt.nextFD
  known : ∀ fd, Known p s ws fd (s.rt.fds.lookup fd)

variable {p orig : Bytes} {s s' : Shared} {ws : List (ℕ × Bytes)}

/-- A call on another descriptor. -/
lemma Known.frame {o : Option OpenFile} {ws' : List (ℕ × Bytes)} {fd : ℕ} (h : Known p s ws fd o)
    (hws : ofFD ws' fd = ofFD ws fd) (hlog : ofFD s'.log fd = ofFD s.log fd)
    (hnext : s.rt.nextFD ≤ s'.rt.nextFD) (hopened : s'.openedAt fd = s.openedAt fd)
    (hstores : s'.stores = s.stores ∧ s'.rt.fs = s.rt.fs ∨ s'.stores = s.stores + 1) :
    Known p s' ws' fd o := by
  cases o with
  | none => exact hws.trans (Eq.trans h hlog.symm)
  | some f =>
    obtain ⟨hpending, hpath, happ, hnum, hclean, hbefore, hfresh⟩ := h
    refine ⟨hws.trans hpending, hpath, happ, hnum.trans hnext,
      hlog ▸ hclean, by omega, fun hnow => ?_⟩
    rcases hstores with ⟨hstores, hfs⟩ | hstores
    · rw [hfs, hlog]
      exact hfresh (by omega)
    · omega

lemma kept_start {fs : MemFS} (h : Storable fs p) :
    Kept p (fileBytes fs p) (Shared.start fs) [] where
  storable := h
  file := by simp [Shared.start]
  numbered := by simp [Shared.start]
  known := fun fd => by simp [Shared.start, Known]

lemma Kept.appender {fd : ℕ} {f : OpenFile} (h : Kept p orig s ws)
    (hf : s.rt.fds.lookup fd = some f) : ofFD ws fd = [] ∧ Appender p s fd f := by
  have hknown := h.known fd
  rwa [hf] at hknown

lemma Kept.next (h : Kept p orig s ws) :
    ofFD ws (s.rt.nextFD + 1) = [] ∧ ofFD s.log (s.rt.nextFD + 1) = [] := by
  have hlog : ofFD s.log (s.rt.nextFD + 1) = [] :=
    ofFD_eq_nil fun e he => Nat.lt_succ_of_le (h.numbered e he)
  refine ⟨?_, hlog⟩
  have hknown := h.known (s.rt.nextFD + 1)
  cases hf : s.rt.fds.lookup (s.rt.nextFD + 1) with
  | none =>
    rw [hf] at hknown
    exact Eq.trans hknown hlog
  | some f => exact (h.appender hf).1

lemma Kept.openSync (h : Kept p orig s ws) {q : Bytes} {plus : Bool}
    (hs : s.step p (.openSync q plus) = some s') : Kept p orig s' ws := by
  simp only [Shared.step, Option.ite_none_right_eq_some] at hs
  obtain ⟨hq, hs⟩ := hs
  have hdata : openData s.rt.fs (guestPath q) (appendFlag plus) = .ok (fileBytes s.rt.fs p) := by
    rw [hq]
    cases plus <;> rfl
  rw [openSync_flag, hdata] at hs
  cases hs
  obtain ⟨hws, hlog⟩ := h.next
  refine ⟨h.storable, h.file, fun e he => (h.numbered e he).trans (Nat.le_succ _), fun fd => ?_⟩
  by_cases hfd : fd = s.rt.nextFD + 1
  · subst hfd
    rw [lookup_insert]
    refine ⟨hws, hq, by cases plus <;> rfl, le_rfl, fun _ => hlog, by simp, fun _ => ?_⟩
    rw [hlog, bytesOf_nil, append_nil]
    rfl
  · rw [lookup_insert_of_ne _ hfd]
    exact (h.known fd).frame rfl rfl (Nat.le_succ _) (Function.update_of_ne hfd _ _)
      (.inl ⟨rfl, rfl⟩)

variable {f : OpenFile} {fd : ℕ} {c : Call}

lemma put_append (h : f.append = true) (data : Bytes) (position : Option ℤ) :
    f.put data position = (.ok data.length, { f with
      data := f.data ++ data, pos := (f.data ++ data).length, dirty := true }) := by
  simp [OpenFile.put, h]

lemma Kept.writeSync (h : Kept p orig s ws) {arg : WriteArg}
    (hs : s.step p (.writeSync fd arg) = some s') : Kept p orig s' ws := by
  cases hpayload : arg.payload with
  | none =>
    simp only [Shared.step, Runtime.writeSync, hpayload, Option.some.injEq] at hs
    exact hs ▸ h
  | some data =>
    cases hf : s.rt.fds.lookup fd with
    | none =>
      simp only [Shared.step, Runtime.writeSync, hpayload, hf, Option.some.injEq] at hs
      exact hs ▸ h
    | some f =>
      obtain ⟨hpending, hfd⟩ := h.appender hf
      simp only [Shared.step, Runtime.writeSync, hpayload, hf, put_append hfd.append,
        Option.some.injEq, Option.getD_some] at hs
      subst hs
      refine ⟨h.storable, h.file, fun e he => ?_, fun fd' => ?_⟩
      · rcases mem_append.mp he with he | he
        · exact h.numbered e he
        · rw [mem_singleton.mp he]
          exact hfd.numbered
      · by_cases hne : fd' = fd
        · subst hne
          rw [Runtime.setFD, lookup_insert]
          refine ⟨hpending, hfd.path, hfd.append, hfd.numbered, nofun, hfd.before, fun hfresh => ?_⟩
          show f.data ++ data = fileBytes s.rt.fs p ++ bytesOf (ofFD (s.log ++ [(fd', data)]) fd')
          rw [hfd.fresh hfresh]
          simp
        · rw [Runtime.setFD, lookup_insert_of_ne _ hne]
          -- the log of the other descriptors is as before
          exact (h.known fd').frame rfl (by simp [ofFD_singleton_of_ne (Ne.symm hne)]) le_rfl rfl
            (.inl ⟨rfl, rfl⟩)

/-- The descriptor adds its writes to the file, and the copies of all others are stale then, or it
has none. -/
lemma Kept.close {fs' : MemFS} {stores : ℕ} (h : Kept p orig s ws)
    (hf : s.rt.fds.lookup fd = some f) (hstorable : Storable fs' p)
    (hfile : fileBytes fs' p = orig ++ bytesOf (ws ++ ofFD s.log fd))
    (hstores : stores = s.stores ∧ fs' = s.rt.fs ∨ stores = s.stores + 1) :
    Kept p orig { s with
      rt := { s.rt with fds := s.rt.fds.erase fd, fs := fs' }
      stores := stores } (ws ++ ofFD s.log fd) := by
  refine ⟨hstorable, hfile, h.numbered, fun fd' => ?_⟩
  by_cases hne : fd' = fd
  · subst hne
    rw [lookup_erase]
    simp [Known, (h.appender hf).1]
  · rw [lookup_erase_ne hne]
    exact (h.known fd').frame (by simp [ofFD_ofFD_of_ne (Ne.symm hne)]) rfl le_rfl rfl hstores

lemma Kept.closeSync (h : Kept p orig s ws) {now : ℤ}
    (hG : FreshStore s (.closeSync fd now)) (hs : s.step p (.closeSync fd now) = some s') :
    ∃ ws', Kept p orig s' ws' := by
  cases hs
  cases hf : s.rt.fds.lookup fd with
  | none =>
    refine ⟨ws, ?_⟩
    simp only [Runtime.closeSync, Runtime.isDirty, hf, Option.any_none,
      Bool.false_eq_true, if_false]
    exact h
  | some f =>
    obtain ⟨-, hfd⟩ := h.appender hf
    refine ⟨ws ++ ofFD s.log fd, ?_⟩
    cases hdirty : f.dirty with
    | false =>
      simp only [Runtime.closeSync, Runtime.isDirty, hf, Option.any_some, hdirty,
        Bool.false_eq_true, if_false]
      refine h.close hf h.storable ?_ (.inl ⟨rfl, rfl⟩)
      rw [hfd.clean hdirty, append_nil, h.file]
    | true =>
      have hfresh : s.openedAt fd = s.stores := hG (by simp [Runtime.isDirty, hf, hdirty])
      obtain ⟨fs', hwrite, hcontent, hstorable⟩ := h.storable.writeFile f.data 0o644 now
      simp only [Runtime.closeSync, Runtime.isDirty, hf, Option.any_some, hdirty, if_true, hfd.path,
        hwrite]
      refine h.close hf hstorable ?_ (.inr rfl)
      rw [fileBytes, hcontent, Option.getD_some, hfd.fresh hfresh, h.file, bytesOf_append,
        append_assoc]

lemma Kept.step (s : Shared) (c : AppendCall) (s' : Shared) (h : ∃ ws, Kept p orig s ws)
    (hG : FreshStore s c) (hs : s.step p c = some s') : ∃ ws, Kept p orig s' ws := by
  obtain ⟨ws, h⟩ := h
  cases c with
  | openSync q plus => exact ⟨ws, h.openSync hs⟩
  | writeSync fd arg => exact ⟨ws, h.writeSync hs⟩
  | closeSync fd now => exact h.closeSync hG hs

/-- If no descriptor is stored over what another one has stored since, the file is the original one
followed by all acknowledged writes. -/
theorem appends_kept (p : Bytes) (fs : MemFS) (calls : List AppendCall) (s : Shared)
    (hstorable : Storable fs p)
    (hrun : Machine.run (Shared.step p) (Shared.start fs) calls = some s)
    (hfresh : Machine.Obeys (Shared.step p) FreshStore (Shared.start fs) calls)
    (hclosed : ∀ fd, s.rt.fds.lookup fd = none) :
    ∃ ws, Interleaves ws s.log ∧ fileBytes s.rt.fs p = fileBytes fs p ++ bytesOf ws := by
  obtain ⟨ws, h⟩ := Machine.run_invariant Kept.step ⟨[], kept_start hstorable⟩ hfresh hrun
  refine ⟨ws, fun fd => ?_, h.file⟩
  have hknown := h.known fd
  rwa [hclosed fd] at hknown

def loggers (overlap : Bool) : List AppendCall :=
  if overlap then
    [.openSync (str "log") false, .openSync (str "log") false, .writeSync 1 (.text (str "a") none),
      .writeSync 2 (.text (str "b") none), .closeSync 1 0, .closeSync 2 0]
  else
    [.openSync (str "log") false, .writeSync 1 (.text (str "a") none), .closeSync 1 0,
      .openSync (str "log") true, .writeSync 2 (.text (str "b") none), .closeSync 2 0]

lemma storable_log : Storable (new 0) (str "log") where
  valid := by decide
  notRoot := by decide
  place := .inr ⟨by decide +kernel, _, lookup_insert _, by decide⟩

def Shared.facts (s : Shared) : Bytes × Bool × List (ℕ × Bytes) :=
  (fileBytes s.rt.fs (str "log"), decide (s.rt.fds = ∅), s.log)

lemma exists_of_facts {calls : List AppendCall} {r : Bytes × Bool × List (ℕ × Bytes)}
    (h : (Machine.run (Shared.step (str "log")) (Shared.start (new 0)) calls).map Shared.facts
      = some r) :
    ∃ s, Machine.run (Shared.step (str "log")) (Shared.start (new 0)) calls = some s ∧
      s.facts = r := Option.map_eq_some_iff.mp h

lemma Shared.closed_of_facts {s : Shared} {data : Bytes} {log : List (ℕ × Bytes)}
    (h : s.facts = (data, true, log)) (fd : ℕ) : s.rt.fds.lookup fd = none := by
  have hempty : s.rt.fds = ∅ := of_decide_eq_true (congrArg (fun r => r.2.1) h)
  rw [hempty, lookup_empty]

theorem sequential_loggers_kept :
    ∃ s, Machine.run (Shared.step (str "log")) (Shared.start (new 0)) (loggers false) = some s ∧
      fileBytes s.rt.fs (str "log") = str "ab" ∧
      ∃ ws, Interleaves ws s.log ∧
        fileBytes s.rt.fs (str "log") = fileBytes (new 0) (str "log") ++ bytesOf ws := by
  obtain ⟨s, hrun, hfacts⟩ := exists_of_facts (r := (str "ab", true, [(1, str "a"), (2, str "b")]))
    (by decide +kernel : (Machine.run (Shared.step (str "log")) (Shared.start (new 0))
      (loggers false)).map Shared.facts = _)
  exact ⟨s, hrun, congrArg Prod.fst hfacts, appends_kept (str "log") (new 0) (loggers false) s
    storable_log hrun (by decide +kernel) (Shared.closed_of_facts hfacts)⟩

/-- Of two loggers at the same time the one that is closed last overwrites the other. -/
theorem overlapping_loggers_lose :
    ∃ s, Machine.run (Shared.step (str "log")) (Shared.start (new 0)) (loggers true) = some s ∧
      (∀ fd, s.rt.fds.lookup fd = none) ∧ s.log = [(1, str "a"), (2, str "b")] ∧
      fileBytes s.rt.fs (str "log") = str "b" ∧
      ¬ ∃ ws, Interleaves ws s.log ∧
        fileBytes s.rt.fs (str "log") = fileBytes (new 0) (str "log") ++ bytesOf ws := by
  obtain ⟨s, hrun, hfacts⟩ := exists_of_facts (r := (str "b", true, [(1, str "a"), (2, str "b")]))
    (by decide +kernel : (Machine.run (Shared.step (str "log")) (Shared.start (new 0))
      (loggers true)).map Shared.facts = _)
  have hfile : fileBytes s.rt.fs (str "log") = str "b" := congrArg Prod.fst hfacts
  have hlog : s.log = [(1, str "a"), (2, str "b")] := congrArg (fun r => r.2.2) hfacts
  refine ⟨s, hrun, Shared.closed_of_facts hfacts, hlog, hfile, ?_⟩
  rintro ⟨ws, hws, heq⟩
  have hlen := hws.length_bytesOf
  rw [hlog] at hlen
  have hshort := congrArg List.length heq
  rw [hfile, length_append, hlen] at hshort
  revert hshort
  decide +kernel

/-! ### Exclusive opens -/

open Transducer

/-- An exclusive open of the path `p`. -/
def Call.isExclusive (p : Bytes) : Call → Bool
  | .openSync q flags => guestPath q = p ∧ ch 'x' ∈ flags
  | _ => false

def Result.isOpened : Result → Bool
  | .opened _ => true
  | _ => false

/-- The call opens `p` exclusively and succeeds. -/
def Runtime.opensExclusive (rt : Runtime) (p : Bytes) (c : Call) : Bool :=
  c.isExclusive p && (rt.call c).1.isOpened

/-- The call takes the path away. -/
def Runtime.Removes (rt : Runtime) (p : Bytes) (c : Call) : Prop :=
  pathExists rt.fs p = true ∧ pathExists (rt.call c).2.fs p = false

/-- Between two successful exclusive opens of `p` some call takes the path away. -/
def MutuallyExclusive (p : Bytes) (rt : Runtime) (calls : List Call) : Prop :=
  ∀ before c between c' after, calls = before ++ c :: between ++ c' :: after →
    (final Runtime.call rt before).opensExclusive p c →
    (final Runtime.call rt (before ++ c :: between)).opensExclusive p c' →
    ∃ l d r, between = l ++ d :: r ∧
      (final Runtime.call rt (before ++ c :: l)).Removes p d

/-- A close that writes a descriptor on `p` back. -/
def Runtime.stores (rt : Runtime) (p : Bytes) : Call → Bool
  | .closeSync fd now =>
    (rt.fds.lookup fd).any (fun f => f.dirty && f.path == p) && (rt.closeSync fd now).1 == .done
  | _ => false

/-- A runtime that remembers whether an exclusive open is still without its file. -/
structure Pending where
  rt : Runtime
  pending : Bool

/-- One call: an exclusive open is pending until a descriptor on the path is written back. -/
def Pending.step (p : Bytes) (s : Pending) (c : Call) : Result × Pending :=
  ((s.rt.call c).1, ⟨(s.rt.call c).2,
    if s.rt.opensExclusive p c then true else if s.rt.stores p c then false else s.pending⟩)

/-- No exclusive open is tried while another one is pending. -/
def Settled (p : Bytes) (s : Pending) (c : Call) : Prop := c.isExclusive p → s.pending = false

instance (p : Bytes) (s : Pending) (c : Call) : Decidable (Settled p s c) :=
  inferInstanceAs (Decidable (_ → _))

lemma final_pending (p : Bytes) (s : Pending) (calls : List Call) :
    (final (Pending.step p) s calls).rt = final Runtime.call s.rt calls := by
  induction calls generalizing s with
  | nil => rfl
  | cons c calls ih => exact ih _

lemma absent_of_opensExclusive {rt : Runtime} (h : rt.opensExclusive p c = true) :
    pathExists rt.fs p = false := by
  obtain ⟨hexcl, hopened⟩ := Bool.and_eq_true_iff.mp h
  cases c with
  | openSync q flags =>
    obtain ⟨hq, hx⟩ : guestPath q = p ∧ ch 'x' ∈ flags := of_decide_eq_true hexcl
    by_contra hthere
    have hcheck : rt.checkExclusive q flags = true := by
      simp [Runtime.checkExclusive, hq, hx, Bool.eq_true_of_not_eq_false hthere]
    simp [Runtime.call, Runtime.openSync, hcheck, Result.isOpened] at hopened
  | _ => cases hexcl

lemma present_of_stores {rt : Runtime} (h : rt.stores p c = true) :
    pathExists (rt.call c).2.fs p = true := by
  cases c with
  | closeSync fd now =>
    obtain ⟨hfd, hdone⟩ := Bool.and_eq_true_iff.mp h
    obtain ⟨f, hf, hfile⟩ := (Option.any_eq_true _ _).mp hfd
    obtain ⟨hdirty, hpath⟩ := Bool.and_eq_true_iff.mp hfile
    have hpath : f.path = p := eq_of_beq hpath
    have hdone : (rt.closeSync fd now).1 = .done := eq_of_beq hdone
    have hclose : rt.closeSync fd now = (outcome (rt.fs.writeFile p f.data 0o644 now).1,
        { rt with fds := rt.fds.erase fd, fs := (rt.fs.writeFile p f.data 0o644 now).2 }) := by
      rw [Runtime.closeSync, hf]
      dsimp only
      rw [if_pos hdirty, hpath]
    rw [hclose, outcome_eq_done] at hdone
    have hstorable : Storable rt.fs p := storable_of_writeFile (Prod.ext hdone rfl)
    obtain ⟨fs', hwrite, hcontent, -⟩ := hstorable.writeFile f.data 0o644 now
    rw [Runtime.call, hclose, hwrite]
    have hread := content_eq_some_iff.mp hcontent
    unfold readFile at hread
    unfold pathExists
    split at hread <;> simp_all
  | _ => cases h

lemma stores_of_settles {s : Pending} (hs : s.pending = true)
    (h : (Pending.step p s c).2.pending ≠ true) : s.rt.stores p c = true := by
  by_contra hstores
  simp [Pending.step, hs, hstores] at h

/-- Exclusive opens exclude each other if none is tried while the file of an earlier one is still to
be written back. -/
theorem exclusive_opens_excluded (p : Bytes) (rt : Runtime) (calls : List Call)
    (h : Always (Pending.step p) (Settled p) ⟨rt, false⟩ calls) : MutuallyExclusive p rt calls := by
  rintro before c between c' after rfl hc hc'
  have hexcl : c'.isExclusive p = true := (Bool.and_eq_true_iff.mp hc').1
  have hsettled : (final (Pending.step p) ⟨rt, false⟩ (before ++ c :: between)).pending = false :=
    h.at hexcl
  -- the first open is pending, the second one finds nothing pending: a file was written back
  have hpending : (final (Pending.step p) ⟨rt, false⟩ (before ++ [c])).pending = true := by
    rw [final_append]
    simp only [final_cons, final_nil, Pending.step, final_pending, hc, if_true]
  rw [append_cons, final_append] at hsettled
  obtain ⟨l, d, r, rfl, hl, hd⟩ := exists_loses (Pending.step p)
    (fun s => s.pending = true) hpending (Bool.eq_false_iff.mp hsettled)
  rw [← final_append, ← append_cons] at hl
  rw [← final_append, ← append_assoc, ← append_cons, final_append] at hd
  have hstores := stores_of_settles hl hd
  rw [final_pending] at hstores
  -- the file was there then and is not there when the second open succeeds: it was taken away
  have hpresent := present_of_stores hstores
  have habsent := absent_of_opensExclusive hc'
  have hfinal : ∀ js, final Runtime.call rt (before ++ c :: (l ++ d :: js))
      = final Runtime.call ((final Runtime.call rt (before ++ c :: l)).call d).2 js := by
    intro js
    rw [← cons_append, ← append_assoc, final_append, final_cons]
  rw [hfinal] at habsent
  obtain ⟨js, e, ks, rfl, hjs, he⟩ := exists_loses Runtime.call
    (fun rt => pathExists rt.fs p = true) hpresent (Bool.eq_false_iff.mp habsent)
  refine ⟨l ++ d :: js, e, ks, by simp, ?_⟩
  rw [hfinal]
  rw [final_append] at he
  exact ⟨hjs, Bool.eq_false_iff.mpr he⟩

def lockAgain : List Call :=
  [.openSync (str "lock") (str "wx"), .closeSync 1 0, .unlinkSync (str "lock"),
    .openSync (str "lock") (str "wx")]

theorem lockAgain_excluded :
    outputs Runtime.call ⟨new 0, ∅, 0⟩ lockAgain = [.opened 1, .done, .done, .opened 2] ∧
      MutuallyExclusive (str "lock") ⟨new 0, ∅, 0⟩ lockAgain :=
  ⟨by decide +kernel, exclusive_opens_excluded _ _ _ (by decide +kernel)⟩

/-- Two programs take the same lock one right after the other. -/
theorem both_take_lock :
    let calls : List Call :=
      [.openSync (str "lock") (str "wx"), .openSync (str "lock") (str "wx")]
    outputs Runtime.call ⟨new 0, ∅, 0⟩ calls = [.opened 1, .opened 2] ∧
      ¬ MutuallyExclusive (str "lock") ⟨new 0, ∅, 0⟩ calls := by
  refine ⟨by decide +kernel, fun h => ?_⟩
  obtain ⟨l, d, r, hnil, -⟩ := h [] _ [] _ [] rfl (by decide +kernel) (by decide +kernel)
  simp at hnil

end GoSpidermonkey.Nodejs.Files
