import GoSpidermonkey.Go.Bytes
import GoSpidermonkey.Lib.Log
import GoSpidermonkey.Lib.Machine

/-!
# The body of a streaming client request

`clientReqStream`: the guest pushes chunks with `write` and ends the body with `close`; the
transport reads it from a goroutine of its own and takes `io.EOF` for the end of the body. `Read`
looks at the stream under the lock and, where it finds nothing, waits for a token in `notify` or for
`done`.
-/

open Machine Log

namespace GoSpidermonkey.Nodejs

open List

structure ClientReqStream where
  chunks : List Bytes := []
  cur : Bytes := []
  closed : Bool := false
  notify : Bool := false
  done : Bool := false

/-- What a pass through the loop of `Read` comes to. -/
inductive Pass where
  | data (b : Bytes)
  | eof
  | park

namespace ClientReqStream

variable (r : ClientReqStream)

/-- `write`, up to its signal. -/
def write (b : Bytes) : ClientReqStream :=
  if r.closed then r else { r with chunks := r.chunks ++ [b] }

/-- `close`, up to its signal. -/
def close : ClientReqStream := { r with closed := true }

def abort : ClientReqStream := { r with done := true }

def signal : ClientReqStream := { r with notify := true }

def advance : ClientReqStream :=
  match r.cur, r.chunks with
  | [], c :: cs => { r with cur := c, chunks := cs }
  | _, _ => r

/-- The locked part of the loop of `Read`, with a buffer of `n` bytes. -/
def pass (n : ℕ) : ClientReqStream × Pass :=
  if r.advance.cur = [] then (r.advance, if r.closed then .eof else .park)
  else ({ r.advance with cur := r.advance.cur.drop n }, .data (r.advance.cur.take n))

def left : Bytes := r.cur ++ r.chunks.flatten

end ClientReqStream

/-- Where the reader stands; `n` is the length of its buffer. -/
inductive ReadPoint where
  | idle
  | reading (n : ℕ)
  | parked (n : ℕ)
  deriving DecidableEq

inductive ReqEvent where
  | written (b : Bytes)
  | closed
  | aborted
  /-- `Read` has returned bytes. -/
  | got (b : Bytes)
  /-- `Read` has returned `io.EOF`. -/
  | eof
  deriving DecidableEq

/-- The stream, its reader, the calls that have not signalled yet (true for `close`), the log. -/
structure ReqRun where
  r : ClientReqStream := {}
  reader : ReadPoint := .idle
  calls : List Bool := []
  log : List ReqEvent := []

inductive ReqInput where
  | write (b : Bytes)
  | close
  | abort
  | finish (i : ℕ)
  /-- The transport calls `Read`. -/
  | read (n : ℕ)
  | look
  /-- The `select` takes the token. -/
  | wake
  /-- The `select` finds `done` closed. -/
  | cut

def ReqInput.byReader : ReqInput → Bool
  | .read _ | .look | .wake | .cut => true
  | .write _ | .close | .abort | .finish _ => false

namespace ReqRun

def step (s : ReqRun) : ReqInput → Option ReqRun
  | .write b =>
    if b = [] then none
    else some { s with r := s.r.write b, calls := s.calls ++ [false], log := s.log ++ [.written b] }
  | .close =>
    some { s with r := s.r.close, calls := s.calls ++ [true], log := s.log ++ [.closed] }
  | .abort => some { s with r := s.r.abort, log := s.log ++ [.aborted] }
  | .finish i =>
    if i < s.calls.length then some { s with r := s.r.signal, calls := s.calls.eraseIdx i }
    else none
  | .read n =>
    if s.reader = .idle ∧ 0 < n then some { s with reader := .reading n } else none
  | .look =>
    match s.reader with
    | .reading n =>
      match s.r.pass n with
      | (r, .data b) => some { s with r := r, reader := .idle, log := s.log ++ [.got b] }
      | (r, .eof) => some { s with r := r, reader := .idle, log := s.log ++ [.eof] }
      | (r, .park) => some { s with r := r, reader := .parked n }
    | _ => none
  | .wake =>
    match s.reader with
    | .parked n =>
      if s.r.notify then some { s with r := { s.r with notify := false }, reader := .reading n }
      else none
    | _ => none
  | .cut =>
    match s.reader with
    | .parked _ =>
      -- `done` ends the body like `close` does
      if s.r.done then some { s with reader := .idle, log := s.log ++ [.eof] } else none
    | _ => none

end ReqRun

/-! ### Reading the log -/

/-- The bytes written before the first `close`. -/
def body : List ReqEvent → Bytes
  | [] => []
  | .written b :: log => b ++ body log
  | .closed :: _ => []
  | .aborted :: log | .got _ :: log | .eof :: log => body log

/-- The bytes that `Read` has returned. -/
def gotten : List ReqEvent → Bytes
  | [] => []
  | .got b :: log => b ++ gotten log
  | .written _ :: log | .closed :: log | .aborted :: log | .eof :: log => gotten log

/-- `io.EOF` is returned only after `close`, when all bytes written before it have been returned. -/
def EofExact (log : List ReqEvent) : Prop :=
  AtEach (fun e pre => e = .eof → .closed ∈ pre ∧ gotten pre = body pre) log

lemma body_append (l m : List ReqEvent) :
    body (l ++ m) = body l ++ if .closed ∈ l then [] else body m := by
  induction l with
  | nil => simp [body]
  | cons e l ih => cases e <;> simp [body, ih]

@[simp] lemma gotten_append (l m : List ReqEvent) : gotten (l ++ m) = gotten l ++ gotten m := by
  induction l with
  | nil => rfl
  | cons e l ih => cases e <;> simp [gotten, ih]

/-! ### One pass of `Read` -/

namespace ClientReqStream

variable {r : ClientReqStream}

/-- A pass changes neither flag, and what it returns comes from the front of what is left. -/
structure Passed (r r' : ClientReqStream) (b : Bytes) : Prop where
  closed : r'.closed = r.closed
  notify : r'.notify = r.notify
  done : r'.done = r.done
  left : r.left = b ++ r'.left
  nonempty : (∀ c ∈ r.chunks, c ≠ []) → ∀ c ∈ r'.chunks, c ≠ []

lemma advance_passed : Passed r r.advance [] := by
  unfold advance
  split
  · rename_i c cs hcur hchunks
    refine ⟨rfl, rfl, rfl, by simp [ClientReqStream.left, hcur, hchunks], fun h d hd => ?_⟩
    exact h d (by simp [hchunks, show d ∈ cs from hd])
  · exact ⟨rfl, rfl, rfl, rfl, id⟩

lemma left_eq_nil_of_advance (hne : ∀ c ∈ r.chunks, c ≠ []) (h : r.advance.cur = []) :
    r.left = [] := by
  unfold advance at h
  split at h
  · rename_i c cs hcur hchunks
    exact absurd h (hne c (by simp [hchunks]))
  · rename_i hno
    cases hchunks : r.chunks with
    | nil => simp [ClientReqStream.left, h, hchunks]
    | cons c cs => exact absurd hchunks (hno c cs h)

lemma pass_cases (hne : ∀ c ∈ r.chunks, c ≠ []) {n : ℕ} (hn : 0 < n) :
    (∃ r' b, r.pass n = (r', .data b) ∧ b ≠ [] ∧ Passed r r' b) ∨
    (∃ r', r.pass n = (r', .eof) ∧ r.closed = true ∧ r.left = [] ∧ Passed r r' []) ∨
    (∃ r', r.pass n = (r', .park) ∧ r.closed = false ∧ r.left = [] ∧ Passed r r' []) := by
  obtain ⟨hc, hw, hd, hl, hn'⟩ := advance_passed (r := r)
  by_cases hcur : r.advance.cur = []
  · have hleft := left_eq_nil_of_advance hne hcur
    cases hclosed : r.closed with
    | true =>
      exact .inr (.inl ⟨_, by simp [pass, hcur, hclosed], rfl, hleft, hc, hw, hd, hl, hn'⟩)
    | false =>
      exact .inr (.inr ⟨_, by simp [pass, hcur, hclosed], rfl, hleft, hc, hw, hd, hl, hn'⟩)
  · refine .inl ⟨_, _, if_neg hcur, ?_, hc, hw, hd, ?_, hn'⟩
    · simp [hcur, hn.ne']
    · rw [hl]
      simp [ClientReqStream.left, ← append_assoc]

end ClientReqStream

namespace ReqRun

variable {s s' : ReqRun}

/-! ### What a step does -/

/-- The flags tell what the log tells, everything written is returned or left, and a reader of a
closed stream has a token or will get one. -/
structure Sound (s : ReqRun) : Prop where
  nonempty : ∀ c ∈ s.r.chunks, c ≠ []
  buffer : ∀ n, s.reader = .reading n ∨ s.reader = .parked n → 0 < n
  closed : s.r.closed = true ↔ .closed ∈ s.log
  aborted : s.r.done = true ↔ .aborted ∈ s.log
  flow : body s.log = gotten s.log ++ s.r.left
  token : ∀ n, s.reader = .parked n → s.r.closed = true → s.r.notify = true ∨ true ∈ s.calls

lemma sound_init : Sound {} :=
  ⟨by simp, by simp, by simp, by simp, rfl, by simp⟩

inductive Moves (s : ReqRun) : ReqInput → ReqRun → Prop
  | write (b : Bytes) (hb : b ≠ []) :
    Moves s (.write b)
      { s with r := s.r.write b, calls := s.calls ++ [false], log := s.log ++ [.written b] }
  | close :
    Moves s .close { s with r := s.r.close, calls := s.calls ++ [true], log := s.log ++ [.closed] }
  | abort : Moves s .abort { s with r := s.r.abort, log := s.log ++ [.aborted] }
  | finish (i : ℕ) : Moves s (.finish i) { s with r := s.r.signal, calls := s.calls.eraseIdx i }
  | read (n : ℕ) (hn : 0 < n) : Moves s (.read n) { s with reader := .reading n }
  | got (n : ℕ) (r : ClientReqStream) (b : Bytes) (hreader : s.reader = .reading n) (hb : b ≠ [])
      (hpass : s.r.Passed r b) :
    Moves s .look { s with r := r, reader := .idle, log := s.log ++ [.got b] }
  | eof (n : ℕ) (r : ClientReqStream) (hreader : s.reader = .reading n)
      (hclosed : s.r.closed = true) (hleft : s.r.left = []) (hpass : s.r.Passed r []) :
    Moves s .look { s with r := r, reader := .idle, log := s.log ++ [.eof] }
  | park (n : ℕ) (r : ClientReqStream) (hreader : s.reader = .reading n)
      (hclosed : s.r.closed = false) (hleft : s.r.left = []) (hpass : s.r.Passed r []) :
    Moves s .look { s with r := r, reader := .parked n }
  | wake (n : ℕ) (hreader : s.reader = .parked n) :
    Moves s .wake { s with r := { s.r with notify := false }, reader := .reading n }
  | cut (n : ℕ) (hreader : s.reader = .parked n) (hdone : s.r.done = true) :
    Moves s .cut { s with reader := .idle, log := s.log ++ [.eof] }

lemma Sound.look {n : ℕ} (h : s.Sound) (hreader : s.reader = .reading n) :
    ∃ s', s.step .look = some s' ∧ Moves s .look s' := by
  rcases ClientReqStream.pass_cases h.nonempty (h.buffer n (.inl hreader)) with
    ⟨r, b, heq, hb, hpass⟩ | ⟨r, heq, hclosed, hleft, hpass⟩ | ⟨r, heq, hclosed, hleft, hpass⟩
  · exact ⟨_, by simp only [step, hreader, heq], .got n r b hreader hb hpass⟩
  · exact ⟨_, by simp only [step, hreader, heq], .eof n r hreader hclosed hleft hpass⟩
  · exact ⟨_, by simp only [step, hreader, heq], .park n r hreader hclosed hleft hpass⟩

lemma Sound.moves_of_step {i : ReqInput} (h : s.Sound) (hs : s.step i = some s') :
    Moves s i s' := by
  cases i with
  | write b =>
    obtain ⟨hb, rfl⟩ := of_not_guard hs
    exact .write b hb
  | close =>
    cases hs
    exact .close
  | abort =>
    cases hs
    exact .abort
  | finish i =>
    simp only [step] at hs
    split_ifs at hs
    cases hs
    exact .finish i
  | read n =>
    obtain ⟨hn, rfl⟩ := of_guard hs
    exact .read n hn.2
  | look =>
    cases hreader : s.reader with
    | reading n =>
      obtain ⟨t, ht, hm⟩ := h.look hreader
      rw [ht] at hs
      cases hs
      exact hm
    | idle | parked n => simp [step, hreader] at hs
  | wake =>
    cases hreader : s.reader with
    | parked n =>
      simp only [step, hreader] at hs
      split_ifs at hs
      cases hs
      exact .wake n hreader
    | idle | reading n => simp [step, hreader] at hs
  | cut =>
    cases hreader : s.reader with
    | parked n =>
      simp only [step, hreader] at hs
      split_ifs at hs with hdone
      cases hs
      exact .cut n hreader hdone
    | idle | reading n => simp [step, hreader] at hs

lemma Sound.moves {i : ReqInput} (h : s.Sound) (hm : Moves s i s') : s'.Sound := by
  obtain ⟨h1, h2, h3, h4, h5, h6⟩ := h
  cases hm with
  | write b hb =>
    cases hclosed : s.r.closed with
    | true =>
      have hmem := h3.mp hclosed
      refine ⟨?_, h2, ?_, ?_, ?_, fun n hn _ => ?_⟩
      · simpa [ClientReqStream.write, hclosed] using h1
      · simpa [ClientReqStream.write, hclosed] using hmem
      · simpa [ClientReqStream.write, hclosed] using h4
      · simpa [ClientReqStream.write, hclosed, body_append, hmem, gotten] using h5
      · simpa [ClientReqStream.write, hclosed] using h6 n hn hclosed
    | false =>
      have hmem : .closed ∉ s.log := fun hmem => by simp [h3.mpr hmem] at hclosed
      refine ⟨?_, h2, ?_, ?_, ?_, ?_⟩
      · intro c hc
        simp only [ClientReqStream.write, hclosed, Bool.false_eq_true, if_false, mem_append,
          mem_singleton] at hc
        rcases hc with hc | rfl
        · exact h1 c hc
        · exact hb
      · simp [ClientReqStream.write, hclosed, hmem]
      · simpa [ClientReqStream.write, hclosed] using h4
      · simp [ClientReqStream.write, hclosed, body_append, hmem, body, gotten, h5,
          ClientReqStream.left]
      · simp [ClientReqStream.write, hclosed]
  | close =>
    refine ⟨h1, h2, ?_, ?_, ?_, fun _ _ _ => .inr (by simp)⟩
    · simp [ClientReqStream.close]
    · simpa [ClientReqStream.close] using h4
    · simpa [body_append, body, gotten, ClientReqStream.close, ClientReqStream.left] using h5
  | abort =>
    refine ⟨h1, h2, ?_, ?_, ?_, h6⟩
    · simpa [ClientReqStream.abort] using h3
    · simp [ClientReqStream.abort]
    · simpa [body_append, body, gotten, ClientReqStream.abort, ClientReqStream.left] using h5
  | finish i => exact ⟨h1, h2, h3, h4, h5, fun _ _ _ => .inl rfl⟩
  | read n hn => exact ⟨h1, by simp [hn], h3, h4, h5, by simp⟩
  | got n r b hreader hb hpass | eof n r hreader hclosed hleft hpass =>
    refine ⟨hpass.nonempty h1, by simp, ?_, ?_, ?_, by simp⟩
    · simpa [hpass.closed] using h3
    · simpa [hpass.done] using h4
    · simpa [body_append, body, gotten, hpass.left] using h5
  | park n r hreader hclosed hleft hpass =>
    refine ⟨hpass.nonempty h1, fun m hm => ?_, ?_, ?_, ?_, fun _ _ hc => ?_⟩
    · simp only [reduceCtorEq, ReadPoint.parked.injEq, false_or] at hm
      exact h2 m (.inl (hm ▸ hreader))
    · simpa [hpass.closed] using h3
    · simpa [hpass.done] using h4
    · simpa [hpass.left] using h5
    · simp [hpass.closed, hclosed] at hc
  | wake n hreader =>
    refine ⟨h1, fun m hm => ?_, h3, h4, h5, by simp⟩
    simp only [reduceCtorEq, ReadPoint.reading.injEq, or_false] at hm
    exact h2 m (.inr (hm ▸ hreader))
  | cut n hreader hdone =>
    refine ⟨h1, by simp, ?_, ?_, ?_, by simp⟩
    · simpa using h3
    · simpa using h4
    · simpa [body_append, body, gotten] using h5

/-! ### When `abort` is harmless -/

/-- `abort` comes after `close`, and a reader that waits at that moment has nothing left to get. -/
def Timely (s : ReqRun) (i : ReqInput) : Prop :=
  i = .abort → s.r.closed = true ∧ ∀ n, s.reader = .parked n → s.r.left = []

/-- Every end of the body so far was the right one, and a reader that is cut off misses nothing. -/
structure Complete (s : ReqRun) : Prop where
  sound : s.Sound
  exact : EofExact s.log
  cutoff : s.r.done = true → s.r.closed = true ∧ ∀ n, s.reader = .parked n → s.r.left = []

lemma complete_init : Complete {} := ⟨sound_init, atEach_nil _, by simp⟩

lemma Sound.eof_exact (h : s.Sound) (hexact : EofExact s.log) (hclosed : s.r.closed = true)
    (hleft : s.r.left = []) : EofExact (s.log ++ [.eof]) := by
  refine atEach_snoc hexact fun _ => ⟨h.closed.mp hclosed, ?_⟩
  rw [h.flow, hleft, append_nil]

lemma Complete.step {i : ReqInput} (h : s.Complete) (htimely : s.Timely i)
    (hs : s.step i = some s') : s'.Complete := by
  have hm := h.sound.moves_of_step hs
  refine ⟨h.sound.moves hm, ?_, ?_⟩
  · cases hm with
    | eof n r hreader hclosed hleft => exact h.sound.eof_exact h.exact hclosed hleft
    | cut n hreader hdone =>
      obtain ⟨hclosed, hleft⟩ := h.cutoff hdone
      exact h.sound.eof_exact h.exact hclosed (hleft n hreader)
    | write | close | abort | got => exact atEach_append h.exact (by simp)
    | finish | read | park | wake => exact h.exact
  · intro hdone
    cases hm with
    | write b =>
      -- a closed stream takes no more bytes
      obtain ⟨hclosed, hleft⟩ := h.cutoff (by simpa [ClientReqStream.write, apply_ite] using hdone)
      simpa [ClientReqStream.write, hclosed] using hleft
    | close => exact ⟨rfl, (h.cutoff hdone).2⟩
    | abort => exact htimely rfl
    | finish => exact h.cutoff hdone
    | read n | wake n | cut n => exact ⟨(h.cutoff hdone).1, by simp⟩
    | got n r b hreader hb hpass | eof n r hreader hclosed hleft hpass =>
      exact ⟨hpass.closed.trans (h.cutoff (hpass.done ▸ hdone)).1, by simp⟩
    | park n r hreader hclosed hleft hpass =>
      simp [(h.cutoff (hpass.done ▸ hdone)).1] at hclosed

/-- The reader alone can come to a wrong end of the body. -/
def Misled (s : ReqRun) : Prop :=
  ∃ ks, (∀ k ∈ ks, ReqInput.byReader k = true) ∧
    ∃ t, run ReqRun.step s ks = some t ∧ ¬ EofExact t.log

lemma Misled.cons {k : ReqInput} (hk : k.byReader = true) (hs : s.step k = some s')
    (h : s'.Misled) : s.Misled := by
  obtain ⟨ks, hks, t, ht, hne⟩ := h
  refine ⟨k :: ks, by simpa [hk] using hks, t, ?_, hne⟩
  rw [run_cons, hs]
  exact ht

lemma Sound.misled_parked {n : ℕ} (h : s.Sound) (hdone : s.r.done = true)
    (hreader : s.reader = .parked n) (hbad : s.r.closed = false ∨ s.r.left ≠ []) : s.Misled := by
  refine ⟨[.cut], by simp [ReqInput.byReader], { s with reader := .idle, log := s.log ++ [.eof] },
    by simp [run_cons, ReqRun.step, hreader, hdone], fun hexact => ?_⟩
  obtain ⟨hmem, hall⟩ := hexact s.log .eof [] rfl rfl
  rcases hbad with hclosed | hleft
  · simp [h.closed.mpr hmem] at hclosed
  · rw [h.flow] at hall
    exact hleft (self_eq_append_right.mp hall)

/-- On a stream that is aborted but not closed the reader takes what is left and is then cut off. -/
lemma Sound.misled_reading {n : ℕ} (h : s.Sound) (hdone : s.r.done = true)
    (hclosed : s.r.closed = false) (hreader : s.reader = .reading n) : s.Misled := by
  induction hlen : s.r.left.length using Nat.strong_induction_on generalizing s n with
  | _ len ih =>
    obtain ⟨t, ht, hm⟩ := h.look hreader
    refine Misled.cons rfl ht ?_
    have hsound := h.moves hm
    cases hm with
    | got m r b _ hb hpass =>
      have hshort : r.left.length < len := by
        have hsum := congrArg List.length hpass.left
        have hpos := length_pos_iff.mpr hb
        rw [length_append] at hsum
        omega
      have hread := Moves.read (s := { s with r := r, reader := .idle, log := s.log ++ [.got b] })
        1 Nat.one_pos
      exact Misled.cons (k := .read 1) rfl (by simp [ReqRun.step])
        (ih _ hshort (hsound.moves hread) (hpass.done.trans hdone) (hpass.closed.trans hclosed)
          rfl rfl)
    | eof m r _ hc => simp [hclosed] at hc
    | park m r _ _ _ hpass =>
      exact hsound.misled_parked (hpass.done.trans hdone) rfl
        (.inl (hpass.closed.trans hclosed))

lemma Sound.misled_open (h : s.Sound) (hdone : s.r.done = true) (hclosed : s.r.closed = false) :
    s.Misled := by
  cases hreader : s.reader with
  | parked n => exact h.misled_parked hdone hreader (.inl hclosed)
  | reading n => exact h.misled_reading hdone hclosed hreader
  | idle =>
    have hsound := h.moves (.read 1 Nat.one_pos)
    exact Misled.cons (k := .read 1) rfl (by simp [ReqRun.step, hreader])
      (hsound.misled_reading hdone hclosed rfl)

lemma Sound.misled_of_not_timely (h : s.Sound) (hbad : ¬ s.Timely .abort) :
    Misled { s with r := s.r.abort, log := s.log ++ [.aborted] } := by
  have hsound := h.moves .abort
  cases hclosed : s.r.closed with
  | false => exact hsound.misled_open rfl hclosed
  | true =>
    obtain ⟨n, hreader, hleft⟩ : ∃ n, s.reader = .parked n ∧ s.r.left ≠ [] := by
      simpa [Timely, hclosed] using hbad
    exact hsound.misled_parked rfl hreader (.inr hleft)

end ReqRun

/-- What `Read` returns is the beginning of the body, and it does not stay parked on a closed
stream; the end of the body is exact exactly if `abort` is timely. -/
theorem reqStream_eof_iff {ins : List ReqInput} {s : ReqRun}
    (hrun : run ReqRun.step {} ins = some s) :
    gotten s.log <+: body s.log ∧
    (∀ n, s.reader = .parked n →
      (.closed ∈ s.log → (s.r.notify = true ∨ true ∈ s.calls) ∧ (s.r.pass n).2 ≠ .park) ∧
      (.aborted ∈ s.log → s.r.done = true)) ∧
    (Obeys ReqRun.step ReqRun.Timely {} ins →
      EofExact s.log ∧
      ((∀ ks, (∀ k ∈ ks, ReqInput.byReader k = true) →
          ∀ t, run ReqRun.step s (.abort :: ks) = some t → EofExact t.log) ↔
        s.Timely .abort)) := by
  have h : s.Sound := run_invariant_all (fun _ _ _ h hs => h.moves (h.moves_of_step hs))
    ReqRun.sound_init hrun
  refine ⟨⟨s.r.left, h.flow.symm⟩, fun n hn => ⟨fun hc => ?_, h.aborted.mpr⟩, fun hobeys => ?_⟩
  · have hclosed := h.closed.mpr hc
    refine ⟨h.token n hn hclosed, ?_⟩
    rcases ClientReqStream.pass_cases h.nonempty (h.buffer n (.inr hn)) with
      ⟨r, b, heq, -⟩ | ⟨r, heq, -⟩ | ⟨r, heq, hopen, -⟩
    · simp [heq]
    · simp [heq]
    · simp [hclosed] at hopen
  · have hcomplete : s.Complete :=
      run_invariant (fun _ _ _ h ht hs => h.step ht hs) ReqRun.complete_init hobeys hrun
    refine ⟨hcomplete.exact, fun hall => ?_, fun htimely ks hks t ht => ?_⟩
    · by_contra hbad
      obtain ⟨ks, hks, t, ht, hne⟩ := h.misled_of_not_timely hbad
      exact hne (hall ks hks t ht)
    · -- the steps of the reader are no calls of `abort`
      have hobeys : Obeys ReqRun.step ReqRun.Timely s (.abort :: ks) := by
        refine obeys_cons.mpr ⟨htimely, fun u _ => obeys_of_forall_mem (fun v k hk heq => ?_) u⟩
        simpa [heq, ReqInput.byReader] using hks k hk
      exact (run_invariant (fun _ _ _ h ht hs => h.step ht hs) hcomplete hobeys ht).exact

/-- The body is read to its end before the request is torn down. -/
theorem reqStream_eof_iff_drained :
    ∃ s, run ReqRun.step {} [.write [104, 105], .read 1, .look, .close, .read 8, .look, .read 8,
        .look, .abort] = some s ∧
      .eof ∈ s.log ∧ gotten s.log = [104, 105] ∧ EofExact s.log := by
  obtain ⟨s, hrun, heof, hgot⟩ : ∃ s, run ReqRun.step {} [.write [104, 105], .read 1, .look, .close,
      .read 8, .look, .read 8, .look, .abort] = some s ∧ .eof ∈ s.log ∧ gotten s.log = [104, 105] :=
    ⟨_, rfl, by decide, rfl⟩
  refine ⟨s, hrun, heof, hgot, ((reqStream_eof_iff hrun).2.2 ?_).1⟩
  refine ⟨nofun, nofun, nofun, nofun, nofun, nofun, nofun, nofun, fun _ => ⟨rfl, ?_⟩, trivial⟩
  exact fun n hn => rfl

/-- The reader is about to wait when a chunk is written, the body closed and the request aborted:
the chunk is lost. -/
theorem abort_truncates :
    ∃ s, run ReqRun.step {} [.read 8, .look, .write [104, 105], .close, .abort, .cut] = some s ∧
      body s.log = [104, 105] ∧ gotten s.log = [] ∧ ¬ EofExact s.log := by
  refine ⟨_, rfl, rfl, rfl, fun hexact => ?_⟩
  have hall := (hexact [.written [104, 105], .closed, .aborted] .eof [] rfl rfl).2
  exact absurd hall (by decide)

end GoSpidermonkey.Nodejs
