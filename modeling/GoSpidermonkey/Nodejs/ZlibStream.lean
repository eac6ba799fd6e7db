import GoSpidermonkey.Nodejs.Zlib

/-!
# Streaming decompression does not depend on chunks or schedules

The decoder's invariant (`DecInv`) says how the input it was given is divided between its reader,
its buffer and the chunks it ignored, and how the output it knows is divided between what the guest
has, `out` and what it is about to append. The guest's goroutine only adds chunks and takes output.
-/

namespace GoSpidermonkey.Nodejs.Zlib

open List

/-! ### The decoder -/

/-- Bytes that `r.Read` has returned and that are not in `out` yet. -/
def Pc.chunk : Pc → Bytes
  | .appending chunk => chunk
  | _ => []

def Decomp.terminal (d : Decomp) : Option (Option Err) :=
  match d.pc with
  | .exiting terminal => some terminal
  | .closing | .exited => some d.err
  | _ => none

/-- The decoder was given the input `fed` and the guest has the output `given`. -/
structure DecInv (codec : Codec) (fed given : Bytes) (d : Decomp) : Prop where
  codec_eq : d.codec = codec
  input : ∃ ignored, fed = d.consumed ++ d.held ++ d.buf ++ ignored
    ∧ (d.finished = false → ignored = [])
  unstopped : codec.Unstopped d.consumed
  total_le : d.total ≤ d.available.length
  delivered : d.total ≤ maxZlibOutput → given ++ d.out ++ d.pc.chunk = d.available.take d.total
  atEOF : d.eof = true → d.closed = true ∧ d.consumed = fed ∧ codec.verdict d.consumed = none
  live : d.terminal = none → d.total ≤ maxZlibOutput
  ended : ∀ e, d.terminal = some e → (maxZlibOutput < d.total ∧ e = some .tooLarge)
    ∨ (d.total ≤ maxZlibOutput ∧ d.total = d.available.length ∧ d.ending = some e)
  finished_iff : d.finished = true ↔ d.pc = .closing ∨ d.pc = .exited
  err_none : d.finished = false → d.err = none
  waiting : ∀ asleep, d.pc = .waiting asleep → d.ending = none ∧ d.held = []
  asleep : d.pc = .waiting true → d.drained = true ∧ d.buf = [] ∧ d.closed = false

/-- What a step of the decoder does, and whether it broadcasts. -/
inductive Moves (d : Decomp) : Decomp → Bool → Prop
  | deliver (n : ℕ) (hpc : d.pc = .running) (hpos : 0 < n)
      (hn : d.total + n ≤ d.available.length) :
      Moves d (if maxZlibOutput < d.total + n
        then { d with total := d.total + n, pc := .exiting (some .tooLarge) }
        else { d with
          total := d.total + n
          pc := .appending ((d.available.drop d.total).take n) }) false
  | append {chunk : Bytes} (hpc : d.pc = .appending chunk) :
      Moves d { d with out := d.out ++ chunk, pc := .running } false
  | consume {b : UInt8} {rest : Bytes} (hpc : d.pc = .running) (hending : d.ending = none)
      (hheld : d.held = b :: rest) :
      Moves d { d with consumed := d.consumed ++ [b], held := rest } false
  | readBuf (n : ℕ) (hd : d.Hungry) (hbuf : d.buf ≠ []) (hn : 0 < n) :
      Moves d { d with held := d.buf.take n, buf := d.buf.drop n, pc := .running } false
  | readEOF (hd : d.Hungry) (hbuf : d.buf = []) (hclosed : d.closed = true) :
      Moves d { d with eof := true, pc := .running } false
  | sleep (hd : d.Hungry) (hbuf : d.buf = []) (hclosed : d.closed = false) :
      Moves d { d with drained := true, pc := .waiting true } true
  | stop {terminal : Option Err} (hpc : d.pc = .running) (hending : d.ending = some terminal)
      (htotal : d.total = d.available.length) : Moves d { d with pc := .exiting terminal } false
  | exit {terminal : Option Err} (hpc : d.pc = .exiting terminal) :
      Moves d { d with finished := true, err := terminal, pc := .closing } true
  | close (hpc : d.pc = .closing) : Moves d { d with pc := .exited } false

section Decoder

variable {codec : Codec} {fed given : Bytes} {d d' : Decomp}

variable {a : DecAct} {wakes : Bool}

lemma step_cases (hs : d.step a = some (d', wakes)) :
    Moves d d' wakes := by
  cases a with
  | deliver n =>
    simp only [Decomp.step, Option.ite_none_right_eq_some, Option.some.injEq, Prod.mk.injEq] at hs
    obtain ⟨⟨hpc, hpos, hn⟩, rfl, rfl⟩ := hs
    exact .deliver n hpc hpos hn
  | append =>
    simp only [Decomp.step] at hs
    split at hs <;> simp only [Option.some.injEq, Prod.mk.injEq, reduceCtorEq] at hs
    rename_i chunk hpc
    obtain ⟨rfl, rfl⟩ := hs
    exact .append hpc
  | consume =>
    simp only [Decomp.step] at hs
    split at hs <;> simp only [Option.ite_none_right_eq_some, Option.some.injEq, Prod.mk.injEq,
      reduceCtorEq] at hs
    rename_i b rest hheld
    obtain ⟨⟨hpc, hending⟩, rfl, rfl⟩ := hs
    exact .consume hpc hending hheld
  | read n =>
    simp only [Decomp.step, Option.ite_none_right_eq_some] at hs
    obtain ⟨hd, hs⟩ := hs
    split at hs
    case isTrue hbuf =>
      simp only [Option.ite_none_right_eq_some, Option.some.injEq, Prod.mk.injEq] at hs
      obtain ⟨hn, rfl, rfl⟩ := hs
      exact .readBuf n hd hbuf hn
    case isFalse hbuf =>
      have hbuf : d.buf = [] := by simpa using hbuf
      split at hs <;> simp only [Option.some.injEq, Prod.mk.injEq] at hs <;> obtain ⟨rfl, rfl⟩ := hs
      case isTrue hclosed => exact .readEOF hd hbuf hclosed
      case isFalse hclosed => exact .sleep hd hbuf (by simpa using hclosed)
  | stop =>
    simp only [Decomp.step] at hs
    split at hs <;> simp only [Option.ite_none_right_eq_some, Option.some.injEq, Prod.mk.injEq,
      reduceCtorEq] at hs
    rename_i terminal hending
    obtain ⟨⟨hpc, htotal⟩, rfl, rfl⟩ := hs
    exact .stop hpc hending htotal
  | exit =>
    simp only [Decomp.step] at hs
    split at hs <;> simp only [Option.some.injEq, Prod.mk.injEq, reduceCtorEq] at hs
    rename_i terminal hpc
    obtain ⟨rfl, rfl⟩ := hs
    exact .exit hpc
  | close =>
    simp only [Decomp.step, Option.ite_none_right_eq_some, Option.some.injEq, Prod.mk.injEq] at hs
    obtain ⟨hpc, rfl, rfl⟩ := hs
    exact .close hpc

lemma decInv_new (codec : Codec) : DecInv codec [] [] { codec := codec } where
  codec_eq := rfl
  input := ⟨[], rfl, fun _ => rfl⟩
  unstopped := Decoder.unstopped_nil
  total_le := Nat.zero_le _
  delivered := by simp [Pc.chunk]
  atEOF := nofun
  live := fun _ => Nat.zero_le _
  ended := nofun
  finished_iff := by simp
  err_none := fun _ => rfl
  waiting := nofun
  asleep := nofun

lemma eof_of_ending_none (h : d.ending = none) :
    d.eof = false ∧ d.codec.verdict d.consumed = none := by
  unfold Decomp.ending at h
  split at h
  · exact absurd h (by simp)
  · rename_i heof
    exact ⟨by simpa using heof, h⟩

lemma step_frame (hs : d.step a = some (d', wakes)) :
    d'.closed = d.closed
      ∧ ((wakes = false ∧ d'.err = d.err ∧ d'.drained = d.drained ∧ d'.finished = d.finished)
        ∨ (wakes = true ∧ d'.err = d.err ∧ d'.drained = true ∧ d'.finished = d.finished)
        ∨ (wakes = true ∧ d'.finished = true ∧ ∃ terminal, d.pc = .exiting terminal)) := by
  cases step_cases hs with
  | deliver => split <;> exact ⟨rfl, .inl ⟨rfl, rfl, rfl, rfl⟩⟩
  | append | consume | readBuf | readEOF | stop | close =>
    exact ⟨rfl, .inl ⟨rfl, rfl, rfl, rfl⟩⟩
  | sleep => exact ⟨rfl, .inr (.inl ⟨rfl, rfl, rfl, rfl⟩)⟩
  | exit hpc => exact ⟨rfl, .inr (.inr ⟨rfl, rfl, _, hpc⟩)⟩

lemma woken_ne_asleep (pc : Pc) : pc.woken ≠ .waiting true := by
  cases pc <;> simp [Pc.woken]

variable (h : DecInv codec fed given d)
include h

lemma DecInv.eof_false (hclosed : d.closed = false) :
    d.eof = false := by
  by_contra heof
  have := (h.atEOF (by simpa using heof)).1
  rw [hclosed] at this
  exact absurd this Bool.false_ne_true

lemma DecInv.finished_false (hne : ¬(d.pc = .closing ∨ d.pc = .exited)) : d.finished = false := by
  by_contra hf
  exact hne (h.finished_iff.mp (by simpa using hf))

lemma DecInv.finished_of_err {e : Err} (herr : d.err = some e) :
    d.finished = true := by
  by_contra hf
  simp [h.err_none (by simpa using hf)] at herr

/-- A decoder that reads or waits. -/
lemma DecInv.going (hpc : d.pc = .running ∨ ∃ asleep, d.pc = .waiting asleep) :
    d.finished = false ∧ d.total ≤ maxZlibOutput ∧ d.pc.chunk = [] := by
  rcases hpc with hpc | ⟨asleep, hpc⟩
  · exact ⟨h.finished_false (by simp [hpc]), h.live (by simp [Decomp.terminal, hpc]), by
      simp [hpc, Pc.chunk]⟩
  · exact ⟨h.finished_false (by simp [hpc]), h.live (by simp [Decomp.terminal, hpc]), by
      simp [hpc, Pc.chunk]⟩

/-- Where the decoder is not about to append, the guest and `out` have all that was delivered. -/
lemma DecInv.nochunk (hchunk : d.pc.chunk = []) :
    d.total ≤ maxZlibOutput → given ++ d.out ++ [] = d.available.take d.total := by
  intro hle
  have := h.delivered hle
  rwa [hchunk] at this

lemma DecInv.deliver {n : ℕ} (hpc : d.pc = .running)
    (hn : d.total + n ≤ d.available.length) :
    DecInv codec fed given (if maxZlibOutput < d.total + n
      then { d with total := d.total + n, pc := .exiting (some .tooLarge) }
      else { d with
        total := d.total + n
        pc := .appending ((d.available.drop d.total).take n) }) := by
  obtain ⟨hfinished, htotal, hchunk⟩ := h.going (.inl hpc)
  have hold : given ++ d.out = d.available.take d.total := by
    simpa using h.nochunk hchunk htotal
  split
  case isTrue hcap =>
    exact { h with
      total_le := hn
      delivered := fun hle => absurd hle (not_le.mpr hcap)
      live := nofun
      ended := fun e he => .inl ⟨hcap, (Option.some.inj he).symm⟩
      finished_iff := by simp [hfinished]
      waiting := nofun
      asleep := nofun }
  case isFalse hcap =>
    exact { h with
      total_le := hn
      delivered := fun _ => by
        change given ++ d.out ++ (d.available.drop d.total).take n
          = d.available.take (d.total + n)
        rw [hold, take_add]
      live := fun _ => not_lt.mp hcap
      ended := nofun
      finished_iff := by simp [hfinished]
      waiting := nofun
      asleep := nofun }

lemma DecInv.append {chunk : Bytes} (hpc : d.pc = .appending chunk) :
    DecInv codec fed given { d with out := d.out ++ chunk, pc := .running } := by
  have hfinished : d.finished = false := h.finished_false (by simp [hpc])
  exact { h with
    delivered := fun hle => by
      have := h.delivered hle
      rw [hpc, append_assoc] at this
      exact (append_nil _).trans this
    live := fun _ => h.live (by simp [Decomp.terminal, hpc])
    ended := nofun
    finished_iff := by simp [hfinished]
    waiting := nofun
    asleep := nofun }

lemma DecInv.consume {b : UInt8} {rest : Bytes}
    (hpc : d.pc = .running) (hending : d.ending = none) (hheld : d.held = b :: rest) :
    DecInv codec fed given { d with consumed := d.consumed ++ [b], held := rest } := by
  obtain ⟨heof, hverdict⟩ := eof_of_ending_none hending
  have hmono : d.available <+: ({ d with consumed := d.consumed ++ [b], held := rest } :
      Decomp).available := by
    simp only [Decomp.available, heof, Bool.false_eq_true, if_false, append_nil]
    exact d.codec.output_mono d.consumed b
  obtain ⟨tail, htail⟩ := hmono
  exact { h with
    input := by
      obtain ⟨ignored, hfed, hign⟩ := h.input
      exact ⟨ignored, by simp [hfed, hheld], hign⟩
    unstopped := h.unstopped.snoc (h.codec_eq ▸ hverdict) b
    total_le := h.total_le.trans (by rw [← htail]; simp)
    delivered := fun hle => by
      rw [← htail, take_append_of_le_length h.total_le]
      exact h.delivered hle
    atEOF := fun he => absurd he (by simp [heof])
    ended := fun e he => absurd he (by simp [Decomp.terminal, hpc])
    waiting := fun _ he => absurd he (by simp [hpc])
    asleep := fun he => absurd he (by simp [hpc]) }

/-- `Read` finds input. -/
lemma DecInv.readBuf (hd : d.Hungry) (n : ℕ) :
    DecInv codec fed given
      { d with held := d.buf.take n, buf := d.buf.drop n, pc := .running } := by
  obtain ⟨hfinished, htotal, hchunk⟩ := h.going (hd.1.imp_right fun hpc => ⟨_, hpc⟩)
  exact { h with
    input := by
      obtain ⟨ignored, hfed, hign⟩ := h.input
      exact ⟨ignored, by simp [hfed, hd.2.2], hign⟩
    delivered := h.nochunk hchunk
    live := fun _ => htotal
    ended := nofun
    finished_iff := by simp [hfinished]
    waiting := nofun
    asleep := nofun }

/-- `Read` finds the end of the input. -/
lemma DecInv.readEOF (hd : d.Hungry) (hbuf : d.buf = [])
    (hclosed : d.closed = true) :
    DecInv codec fed given { d with eof := true, pc := .running } := by
  obtain ⟨hfinished, htotal, hchunk⟩ := h.going (hd.1.imp_right fun hpc => ⟨_, hpc⟩)
  obtain ⟨heof, hverdict⟩ := eof_of_ending_none hd.2.1
  have havail : ({ d with eof := true, pc := .running } : Decomp).available
      = d.available ++ (d.codec.atEnd d.consumed).1 := by
    simp [Decomp.available, heof]
  exact { h with
    total_le := h.total_le.trans (by rw [havail]; simp)
    delivered := fun hle => by
      rw [havail, take_append_of_le_length h.total_le]
      exact h.nochunk hchunk hle
    atEOF := fun _ => by
      obtain ⟨ignored, hfed, hign⟩ := h.input
      refine ⟨hclosed, ?_, h.codec_eq ▸ hverdict⟩
      simp [hfed, hd.2.2, hbuf, hign hfinished]
    live := fun _ => htotal
    ended := nofun
    finished_iff := by simp [hfinished]
    waiting := nofun
    asleep := nofun }

/-- `Read` waits. -/
lemma DecInv.sleep (hd : d.Hungry) (hbuf : d.buf = [])
    (hclosed : d.closed = false) :
    DecInv codec fed given { d with drained := true, pc := .waiting true } := by
  obtain ⟨hfinished, htotal, hchunk⟩ := h.going (hd.1.imp_right fun hpc => ⟨_, hpc⟩)
  exact { h with
    delivered := h.nochunk hchunk
    live := fun _ => htotal
    ended := nofun
    finished_iff := by simp [hfinished]
    waiting := fun _ _ => ⟨hd.2.1, hd.2.2⟩
    asleep := fun _ => ⟨rfl, hbuf, hclosed⟩ }

lemma DecInv.stop {terminal : Option Err} (hpc : d.pc = .running)
    (hending : d.ending = some terminal) (htotal : d.total = d.available.length) :
    DecInv codec fed given { d with pc := .exiting terminal } := by
  obtain ⟨hfinished, hle, hchunk⟩ := h.going (.inl hpc)
  exact { h with
    delivered := h.nochunk hchunk
    live := nofun
    ended := fun e he => by
      cases he
      exact .inr ⟨hle, htotal, hending⟩
    finished_iff := by simp [hfinished]
    waiting := nofun
    asleep := nofun }

lemma DecInv.exit {terminal : Option Err}
    (hpc : d.pc = .exiting terminal) :
    DecInv codec fed given { d with finished := true, err := terminal, pc := .closing } := by
  exact { h with
    input := by
      obtain ⟨ignored, hfed, -⟩ := h.input
      exact ⟨ignored, hfed, nofun⟩
    delivered := h.nochunk (by rw [hpc]; rfl)
    live := nofun
    ended := fun e he => h.ended e (by rw [← he]; simp [Decomp.terminal, hpc])
    finished_iff := by simp
    err_none := nofun
    waiting := nofun
    asleep := nofun }

lemma DecInv.close (hpc : d.pc = .closing) :
    DecInv codec fed given { d with pc := .exited } := by
  have hfinished : d.finished = true := h.finished_iff.mpr (.inl hpc)
  exact { h with
    delivered := h.nochunk (by rw [hpc]; rfl)
    live := nofun
    ended := fun e he => h.ended e (by rw [← he]; simp [Decomp.terminal, hpc])
    finished_iff := by simp [hfinished]
    waiting := nofun
    asleep := nofun }

lemma DecInv.step (hs : d.step a = some (d', wakes)) : DecInv codec fed given d' := by
  cases step_cases hs with
  | deliver n hpc _ hn => exact h.deliver hpc hn
  | append hpc => exact h.append hpc
  | consume hpc hending hheld => exact h.consume hpc hending hheld
  | readBuf n hd => exact h.readBuf hd n
  | readEOF hd hbuf hclosed => exact h.readEOF hd hbuf hclosed
  | sleep hd hbuf hclosed => exact h.sleep hd hbuf hclosed
  | stop hpc hending htotal => exact h.stop hpc hending htotal
  | exit hpc => exact h.exit hpc
  | close hpc => exact h.close hpc

/-! ### What the guest does to the decoder -/

lemma DecInv.wake : DecInv codec fed given
    { d with pc := d.pc.woken } := by
  cases hpc : d.pc with
  | waiting asleep =>
    obtain ⟨hfinished, htotal, hchunk⟩ := h.going (.inr ⟨asleep, hpc⟩)
    exact { h with
      delivered := h.nochunk hchunk
      live := fun _ => htotal
      ended := nofun
      finished_iff := by simp [hfinished, Pc.woken]
      waiting := fun _ _ => h.waiting asleep hpc
      asleep := nofun }
  | running | appending | exiting | closing | exited =>
    simp only [Pc.woken, ← hpc]
    exact h

lemma DecInv.feed (p : Bytes) (hclosed : d.closed = false)
    (hfinished : d.finished = false) :
    DecInv codec (fed ++ p) given
      { d with buf := d.buf ++ p, drained := false, pc := d.pc.woken } :=
  { h.wake with
    input := by
      obtain ⟨ignored, hfed, hign⟩ := h.input
      exact ⟨[], by simp [hfed, hign hfinished], fun _ => rfl⟩
    atEOF := fun he => absurd he (by simp [h.eof_false hclosed])
    asleep := fun he => absurd he (woken_ne_asleep _) }

lemma DecInv.ignore (p : Bytes) (hclosed : d.closed = false)
    (hfinished : d.finished = true) : DecInv codec (fed ++ p) given d :=
  { h with
    input := by
      obtain ⟨ignored, hfed, -⟩ := h.input
      exact ⟨ignored ++ p, by simp [hfed], by simp [hfinished]⟩
    atEOF := fun he => absurd he (by simp [h.eof_false hclosed]) }

lemma DecInv.take :
    DecInv codec fed (given ++ d.out) { d with out := [] } :=
  { h with
    delivered := fun hle => by
      rw [append_nil]
      exact h.delivered hle }

lemma DecInv.announce (hclosed : d.closed = false) :
    DecInv codec fed given { d with closed := true, pc := d.pc.woken } :=
  { h.wake with
    atEOF := fun he => absurd he (by simp [h.eof_false hclosed])
    asleep := fun he => absurd he (woken_ne_asleep _) }

lemma DecInv.available_prefix :
    d.available <+: (codec.decode fed).1 := by
  unfold Decomp.available
  cases heof : d.eof with
  | true =>
    obtain ⟨-, hfed, hverdict⟩ := h.atEOF heof
    rw [← hfed, Decoder.decode_of_end h.unstopped hverdict, h.codec_eq]
    simp
  | false =>
    obtain ⟨ignored, hfed, -⟩ := h.input
    simp only [Bool.false_eq_true, if_false, append_nil, h.codec_eq]
    rw [hfed, append_assoc, append_assoc]
    exact Decoder.output_prefix_decode h.unstopped _

lemma DecInv.decode_eq {e : Option Err} (hending : d.ending = some e) :
    codec.decode fed = (d.available, e) := by
  unfold Decomp.ending at hending
  unfold Decomp.available
  cases heof : d.eof with
  | true =>
    obtain ⟨-, hfed, hverdict⟩ := h.atEOF heof
    simp only [heof, if_true, Option.some.injEq] at hending
    rw [← hfed, Decoder.decode_of_end h.unstopped hverdict, ← hending, h.codec_eq]
    simp
  | false =>
    obtain ⟨ignored, hfed, -⟩ := h.input
    simp only [heof, Bool.false_eq_true, if_false, h.codec_eq] at hending
    rw [hfed, append_assoc, append_assoc,
      Decoder.decode_of_verdict h.unstopped hending, h.codec_eq]
    simp

lemma DecInv.error {e : Err} (herr : d.err = some e) :
    ∃ e, readCapped codec fed = .error e := by
  have hterminal : d.terminal = some d.err := by
    rcases h.finished_iff.mp (h.finished_of_err herr) with hpc | hpc <;>
      simp [Decomp.terminal, hpc]
  rcases h.ended _ hterminal with ⟨hcap, -⟩ | ⟨hle, htotal, hending⟩
  · have hlong : maxZlibOutput < (codec.decode fed).1.length :=
      hcap.trans_le (h.total_le.trans h.available_prefix.length_le)
    exact ⟨.tooLarge, by simp [readCapped, hlong]⟩
  · have hshort : ¬ maxZlibOutput < d.available.length := not_lt.mpr (htotal ▸ hle)
    exact ⟨e, by simp [readCapped, h.decode_eq hending, hshort, herr]⟩

lemma DecInv.result (hpc : d.pc = .exited) (herr : d.err = none) :
    readCapped codec fed = .ok (given ++ d.out) := by
  have hterminal : d.terminal = some d.err := by simp [Decomp.terminal, hpc]
  rcases h.ended _ hterminal with ⟨-, htooLarge⟩ | ⟨hle, htotal, hending⟩
  · simp [herr] at htooLarge
  · have hshort : ¬ maxZlibOutput < d.available.length := not_lt.mpr (htotal ▸ hle)
    have hall := h.nochunk (by rw [hpc]; rfl) hle
    rw [htotal, take_length, append_nil] at hall
    simp [readCapped, h.decode_eq hending, hshort, herr, hall]

end Decoder

/-! ### The stream -/

/-- What the goroutine of the guest knows while the decoder runs. -/
structure MainInv (s : Stream) (d : Decomp) : Prop where
  failed : ∀ a ∈ s.answers, a.failed = true → d.err ≠ none
  asleep : s.main = .feeding true → d.drained = false ∧ d.finished = false
  awake : s.main = .feeding false → d.drained = true ∨ d.finished = true
  closed_iff : d.closed = true ↔ s.main = .ending
  ending : s.main = .ending → s.items = []
  not_ended : ∀ a, s.main ≠ .ended a

def Stream.answered (s : Stream) : Bytes := (s.answers.map Answer.output).flatten

/-- The stages of a stream over the input `data`. -/
inductive Inv (codecs : Codecs) (method : Method) (data : Bytes) (s : Stream) : Prop
  | sniffing (hmethod : method = .unzip) (hdec : s.dec = none)
      (hdata : data = s.sniff ++ written s.items) (hshort : s.sniff.length < 2)
      (hmain : s.main = .idle) (hanswers : ∀ a ∈ s.answers, a = .bytes [])
  | decoding {d : Decomp} {fed : Bytes} (hdec : s.dec = some d)
      (hdata : data = fed ++ written s.items)
      (hd : DecInv (codecFor codecs method data) fed s.answered d) (hmain : MainInv s d)
  | ok {b : Bytes} (hmain : s.main = .ended (.bytes b))
      (hdec : ∀ d, s.dec = some d → d.pc = .exited)
      (hrun : zlibRun codecs method data = .ok s.returned)
      (hanswers : ∀ a ∈ s.answers, a.failed = false)
  | error {code : Code} {e : Err} (hmain : s.main = .ended (.error code))
      (hdec : ∀ d, s.dec = some d → d.pc = .exited)
      (hrun : zlibRun codecs method data = .error e)

lemma gzipMagic_append {u : Bytes} (hu : ¬ u.length < 2) (v : Bytes) :
    gzipMagic (u ++ v) = gzipMagic u := by
  match u with
  | [] | [_] => simp at hu
  | _ :: _ :: _ => rfl

lemma zlibRun_short (codecs : Codecs) {data : Bytes} (hdata : data.length < 2) :
    ∃ e, zlibRun codecs .unzip data = .error e := by
  have hmagic : gzipMagic data = false := by
    match data with
    | [] | [_] => rfl
    | _ :: _ :: _ => simp at hdata
  obtain ⟨e, he⟩ := Option.ne_none_iff_exists'.mp (codecs.zlib_header data hdata)
  simp only [zlibRun, codecFor, hmagic, Bool.false_eq_true, if_false, readCapped, he]
  split
  · exact ⟨_, rfl⟩
  · exact ⟨e, rfl⟩

lemma Main.woken_ne_asleep (m : Main) : m.woken ≠ .feeding true := by
  cases m <;> simp [Main.woken]

/-- A broadcast changes nothing for a goroutine that is not in `feed`. -/
lemma Main.woken_eq_iff {m n : Main} (hn : ∀ asleep, n ≠ .feeding asleep) :
    m.woken = n ↔ m = n := by
  cases m with
  | feeding asleep => exact ⟨fun h => absurd h.symm (hn false), fun h => absurd h.symm (hn asleep)⟩
  | idle | taking | ending | ended => exact Iff.rfl

section Step

variable {codecs : Codecs} {method : Method} {data fed given : Bytes} {codec : Codec}
  {s s' : Stream} {d d' : Decomp}

/-- Between two operations the guest knows of errors only. -/
lemma MainInv.resting (hm : s.main = .idle ∨ s.main = .taking) (hclosed : d.closed = false)
    (hfailed : ∀ a ∈ s.answers, a.failed = true → d.err ≠ none) : MainInv s d := by
  rcases hm with hm | hm
  all_goals
    exact ⟨hfailed, by simp [hm], by simp [hm], by simp [hm, hclosed], by simp [hm], by simp [hm]⟩

/-- A broadcast finds the condition of `feed` true. -/
lemma MainInv.wake (h : MainInv s d) (hclosed : d'.closed = d.closed)
    (hfailed : ∀ a ∈ s.answers, a.failed = true → d'.err ≠ none)
    (hready : d'.drained = true ∨ d'.finished = true) :
    MainInv { s with dec := some d', main := s.main.woken } d' where
  failed := hfailed
  asleep := fun he => absurd he (Main.woken_ne_asleep _)
  awake := fun _ => hready
  closed_iff := by
    rw [hclosed, h.closed_iff]
    exact (Main.woken_eq_iff (by simp)).symm
  ending := fun he => h.ending ((Main.woken_eq_iff (by simp)).mp he)
  not_ended := fun a he => h.not_ended a ((Main.woken_eq_iff (by simp)).mp he)

lemma MainInv.decoder (h : MainInv s d) (hd : DecInv codec fed given d) {a : DecAct} {wakes : Bool}
    (hs : d.step a = some (d', wakes)) :
    MainInv { s with dec := some d', main := if wakes then s.main.woken else s.main } d' := by
  obtain ⟨hclosed, ⟨rfl, herr, hdrained, hfinished⟩ | ⟨rfl, herr, hdrained, -⟩
    | ⟨rfl, hfinished, terminal, hpc⟩⟩ := step_frame hs
  · exact {
      failed := fun a ha hf => herr ▸ h.failed a ha hf
      asleep := fun he => hdrained ▸ hfinished ▸ h.asleep he
      awake := fun he => hdrained ▸ hfinished ▸ h.awake he
      closed_iff := hclosed ▸ h.closed_iff
      ending := h.ending
      not_ended := h.not_ended }
  · exact h.wake hclosed (fun a ha hf => herr ▸ h.failed a ha hf) (.inl hdrained)
  · have hold : d.err = none :=
      hd.err_none (hd.finished_false (by simp [hpc]))
    exact h.wake hclosed (fun a ha hf => absurd hold (h.failed a ha hf)) (.inr hfinished)

section

variable (hd : DecInv (codecFor codecs method data) fed s.answered d)
  (hfailed : ∀ a ∈ s.answers, a.failed = true → d.err ≠ none)
include hd hfailed

/-- `feed` on a decoder that has been given `fed`. -/
lemma Inv.feed {p : Bytes} (hdata : data = fed ++ p ++ written s.items)
    (hclosed : d.closed = false) (hmain : s.main = .idle) :
    Inv codecs method data (s.feed d p) := by
  unfold Stream.feed
  split
  case h_1 e herr =>
    refine .decoding rfl hdata ?_ (.resting (.inl hmain) hclosed fun _ _ _ => by simp [herr])
    have hignored := hd.ignore p hclosed (hd.finished_of_err herr)
    simpa [Stream.answered, Answer.output] using hignored
  case h_2 herr =>
    split
    case isTrue hfinished =>
      have hfinished : d.finished = true := by simpa [hclosed] using hfinished
      exact .decoding rfl hdata (hd.ignore p hclosed hfinished)
        (.resting (.inr rfl) hclosed hfailed)
    case isFalse hfinished =>
      have hfinished : d.finished = false := by simpa [hclosed] using hfinished
      exact .decoding rfl hdata (hd.feed p hclosed hfinished) {
        failed := hfailed
        asleep := fun _ => ⟨rfl, hfinished⟩
        awake := nofun
        closed_iff := by simp [hclosed]
        ending := nofun
        not_ended := nofun }

/-- `take` on a stream that is not ending. -/
lemma Inv.take (hdata : data = fed ++ written s.items) (hclosed : d.closed = false) :
    Inv codecs method data (s.take d) := by
  refine .decoding rfl hdata ?_ (.resting (.inl rfl) hclosed fun a ha hf => ?_)
  · simpa [Stream.take, Stream.answered, Answer.output] using hd.take
  · rcases mem_append.mp ha with ha | ha
    · exact hfailed a ha hf
    · rw [mem_singleton.mp ha] at hf
      exact absurd hf Bool.false_ne_true

lemma Inv.finish (hdata : data = fed) (hpc : d.pc = .exited)
    (hs : (match d.err with
      | some e => some { s with
          dec := some { d with out := [] }
          main := .ended (.error (endCode e)) }
      | none => some { s with
          dec := some { d with out := [] }
          main := .ended (.bytes d.out) }) = some s') : Inv codecs method data s' := by
  subst hdata
  cases herr : d.err with
  | some e =>
    rw [herr] at hs
    rw [← Option.some.inj hs]
    obtain ⟨e', he'⟩ := hd.error herr
    exact .error rfl (by simp [hpc]) he'
  | none =>
    rw [herr] at hs
    rw [← Option.some.inj hs]
    refine .ok rfl (by simp [hpc]) (hd.result hpc herr) fun a ha => ?_
    by_contra hf
    exact hfailed a ha (by simpa using hf) herr

end

lemma Inv.step_sniffing (hmethod : method = .unzip) (hdec : s.dec = none)
    (hdata : data = s.sniff ++ written s.items) (hshort : s.sniff.length < 2)
    (hmain : s.main = .idle) (hanswers : ∀ a ∈ s.answers, a = .bytes [])
    (hs : s.mainStep codecs = some s') : Inv codecs method data s' := by
  have hadd : ∀ a ∈ s.answers ++ [.bytes []], a = .bytes [] := by
    intro a ha
    rcases mem_append.mp ha with ha | ha
    · exact hanswers a ha
    · exact mem_singleton.mp ha
  simp only [Stream.mainStep, hmain, hdec] at hs
  split at hs
  case h_1 | h_3 | h_5 => simp_all
  case h_2 chunk items hitems _ =>
    rw [hitems, written, ← append_assoc] at hdata
    split at hs
    case isTrue hlen =>
      cases hs
      exact .sniffing hmethod rfl hdata hlen rfl hadd
    case isFalse hlen =>
      cases hs
      have hcodec : codecFor codecs method data
          = if gzipMagic (s.sniff ++ chunk) then codecs.gzip else codecs.zlib := by
        rw [hmethod, hdata, codecFor, gzipMagic_append hlen]
      have hempty : s.answered = [] := by
        simp only [Stream.answered, flatten_eq_nil_iff, mem_map]
        rintro _ ⟨a, ha, rfl⟩
        rw [hanswers a ha]
        rfl
      have hfed : data = [] ++ (s.sniff ++ chunk) ++ written items := hdata
      refine Inv.feed (d := { codec := _ }) ?_ (fun a ha hf => ?_) hfed rfl rfl
      · change DecInv _ [] s.answered _
        rw [hcodec, hempty]
        exact decInv_new _
      · rw [hanswers a ha] at hf
        exact absurd hf Bool.false_ne_true
  case h_4 items hitems _ =>
    cases hs
    rw [hitems] at hdata
    exact .sniffing hmethod rfl hdata hshort rfl hadd
  case h_6 hitems _ =>
    cases hs
    rw [hitems, written, append_nil] at hdata
    obtain ⟨e, he⟩ := zlibRun_short codecs (hdata ▸ hshort)
    exact .error rfl nofun (hmethod ▸ he)

lemma Inv.step_decoding (hdec : s.dec = some d) (hdata : data = fed ++ written s.items)
    (hd : DecInv (codecFor codecs method data) fed s.answered d) (hmain : MainInv s d)
    (hs : s.mainStep codecs = some s') : Inv codecs method data s' := by
  have hclosed {m : Main} (hm : s.main = m) (hne : m ≠ .ending) : d.closed = false := by
    by_contra hc
    exact hne (hm ▸ hmain.closed_iff.mp (by simpa using hc))
  cases hm : s.main with
  | idle =>
    have hopen := hclosed hm (by simp)
    simp only [Stream.mainStep, hm, hdec] at hs
    split at hs
    case h_2 | h_4 | h_6 => simp_all
    case h_1 chunk items _ hitems heq =>
      cases heq
      cases hs
      rw [hitems, written, ← append_assoc] at hdata
      exact Inv.feed (s := { s with items := items, main := .idle }) hd hmain.failed hdata hopen rfl
    case h_3 items _ hitems heq =>
      cases heq
      cases hs
      rw [hitems] at hdata
      exact Inv.take hd hmain.failed hdata hopen
    case h_5 _ hitems heq =>
      cases heq
      cases hs
      exact .decoding rfl hdata (hd.announce hopen) {
        failed := hmain.failed
        asleep := nofun
        awake := nofun
        closed_iff := by simp
        ending := fun _ => hitems
        not_ended := nofun }
  | feeding asleep =>
    have hopen := hclosed hm (by simp)
    cases asleep with
    | true => simp [Stream.mainStep, hm, hdec] at hs
    | false =>
      have hready := hmain.awake hm
      simp only [Stream.mainStep, hm, hdec] at hs
      split at hs
      case isTrue hnot => simp_all
      case isFalse =>
        split at hs
        case h_1 e herr =>
          cases hs
          refine .decoding rfl hdata ?_ (.resting (.inl rfl) hopen fun _ _ _ => by simp [herr])
          simpa [Stream.answered, Answer.output] using hd
        case h_2 =>
          cases hs
          exact .decoding rfl hdata hd (.resting (.inr rfl) hopen hmain.failed)
  | taking =>
    have hopen := hclosed hm (by simp)
    simp only [Stream.mainStep, hm, hdec] at hs
    exact Option.some.inj hs ▸ Inv.take hd hmain.failed hdata hopen
  | ending =>
    simp only [Stream.mainStep, hm, hdec, Option.ite_none_right_eq_some] at hs
    rw [hmain.ending hm, written, append_nil] at hdata
    exact Inv.finish hd hmain.failed hdata hs.1 hs.2
  | ended a => exact absurd hm (hmain.not_ended a)

lemma no_step_after_end {answer : Answer} (hmain : s.main = .ended answer)
    (hdec : ∀ d, s.dec = some d → d.pc = .exited) (act : Stream.Act) :
    s.step codecs act = none := by
  cases act with
  | main => simp [Stream.step, Stream.mainStep, hmain]
  | decoder a =>
    cases hd : s.dec with
    | none => simp [Stream.step, hd]
    | some d =>
      have hpc := hdec d hd
      cases a <;> simp [Stream.step, hd, Decomp.step, Decomp.Hungry, hpc]
      all_goals split <;> rfl

lemma Inv.step (h : Inv codecs method data s) {act : Stream.Act}
    (hs : s.step codecs act = some s') : Inv codecs method data s' := by
  cases h with
  | sniffing hmethod hdec hdata hshort hmain hanswers =>
    cases act with
    | main => exact Inv.step_sniffing hmethod hdec hdata hshort hmain hanswers hs
    | decoder a => simp [Stream.step, hdec] at hs
  | @decoding d fed hdec hdata hd hmain =>
    cases act with
    | main => exact Inv.step_decoding hdec hdata hd hmain hs
    | decoder a =>
      simp only [Stream.step, hdec, Option.map_eq_some_iff] at hs
      obtain ⟨⟨d', wakes⟩, hstep, rfl⟩ := hs
      exact .decoding rfl hdata (hd.step hstep) (hmain.decoder hd hstep)
  | ok hmain hdec | error hmain hdec => exact absurd hs (by simp [no_step_after_end hmain hdec])

lemma inv_newStream (codecs : Codecs) (method : Method) (items : List Item) :
    Inv codecs method (written items) (newStream codecs method items) := by
  by_cases hmethod : method = .unzip
  · exact .sniffing hmethod (if_pos hmethod) rfl (by simp [newStream]) rfl nofun
  · have hcodec : codecFor codecs method (written items) = codecFor codecs method [] := by
      cases method <;> first | rfl | exact absurd rfl hmethod
    refine .decoding (if_neg hmethod) (nil_append _).symm ?_ (.resting (.inl rfl) rfl nofun)
    rw [hcodec]
    exact decInv_new _

lemma Inv.failed (h : Inv codecs method data s) (hfailed : s.Failed) :
    ∃ e, zlibRun codecs method data = .error e := by
  cases h with
  | sniffing _ _ _ _ hmain hanswers =>
    rcases hfailed with ⟨a, ha, hf⟩ | ⟨code, hcode⟩
    · simp [hanswers a ha, Answer.failed] at hf
    · simp [hmain] at hcode
  | @decoding d fed hdec hdata hd hmain =>
    rcases hfailed with ⟨a, ha, hf⟩ | ⟨code, hcode⟩
    · obtain ⟨e, herr⟩ := Option.ne_none_iff_exists'.mp (hmain.failed a ha hf)
      cases hclosed : d.closed with
      | true =>
        rw [hmain.ending (hmain.closed_iff.mp hclosed), written, append_nil] at hdata
        exact (hdata.symm ▸ hd).error herr
      | false =>
        -- What comes after the error does not take it back.
        have hall := hd.ignore (written s.items) hclosed (hd.finished_of_err herr)
        rw [← hdata] at hall
        exact hall.error herr
    · exact absurd hcode (hmain.not_ended _)
  | ok hmain _ _ hanswers =>
    rcases hfailed with ⟨a, ha, hf⟩ | ⟨code, hcode⟩
    · simp [hanswers a ha] at hf
    · simp [hmain] at hcode
  | error _ _ hrun => exact ⟨_, hrun⟩

lemma Inv.ended (h : Inv codecs method data s) {answer : Answer} (hmain : s.main = .ended answer) :
    match answer with
    | .bytes _ => zlibRun codecs method data = .ok s.returned
    | .error _ => ∃ e, zlibRun codecs method data = .error e := by
  cases h with
  | sniffing _ _ _ _ hidle => simp [hidle] at hmain
  | decoding _ _ _ hopen => exact absurd hmain (hopen.not_ended _)
  | ok hok _ hrun =>
    obtain rfl := Main.ended.inj (hok.symm.trans hmain)
    exact hrun
  | error herror _ hrun =>
    obtain rfl := Main.ended.inj (herror.symm.trans hmain)
    exact ⟨_, hrun⟩

/-! ### Progress -/

lemma Inv.not_deadlocked (h : Inv codecs method data s) : ¬ s.Deadlocked := by
  rintro ⟨hasleep, d, hdec, hpc⟩
  cases h with
  | sniffing _ hnone => simp [hnone] at hdec
  | decoding hdec' _ hd hmain =>
    obtain rfl := Option.some.inj (hdec.symm.trans hdec')
    have htrue := (hd.asleep hpc).1
    rw [(hmain.asleep hasleep).1] at htrue
    exact Bool.false_ne_true htrue
  | ok hmain | error hmain => simp [hmain] at hasleep

lemma DecInv.progress (h : DecInv codec fed given d) (hasleep : d.pc ≠ .waiting true)
    (hexited : d.pc ≠ .exited) : ∃ a, (d.step a).isSome = true := by
  have hread (hd : d.Hungry) : (d.step (.read 1)).isSome = true := by
    simp only [Decomp.step, hd, if_true]
    split
    · simp
    · split <;> rfl
  cases hpc : d.pc with
  | running =>
    by_cases htotal : d.total = d.available.length
    · cases hending : d.ending with
      | some terminal => exact ⟨.stop, by simp [Decomp.step, hending, hpc, htotal]⟩
      | none =>
        cases hheld : d.held with
        | nil => exact ⟨.read 1, hread ⟨.inl hpc, hending, hheld⟩⟩
        | cons b rest => exact ⟨.consume, by simp [Decomp.step, hheld, hpc, hending]⟩
    · have hlt : d.total + 1 ≤ d.available.length :=
        Nat.lt_of_le_of_ne h.total_le htotal
      exact ⟨.deliver 1, by simp [Decomp.step, hpc, hlt]⟩
  | appending chunk => exact ⟨.append, by simp [Decomp.step, hpc]⟩
  | waiting asleep =>
    cases asleep with
    | true => exact absurd hpc hasleep
    | false =>
      obtain ⟨hending, hheld⟩ := h.waiting false hpc
      exact ⟨.read 1, hread ⟨.inr hpc, hending, hheld⟩⟩
  | exiting terminal => exact ⟨.exit, by simp [Decomp.step, hpc]⟩
  | closing => exact ⟨.close, by simp [Decomp.step, hpc]⟩
  | exited => exact absurd hpc hexited

lemma Inv.progress (h : Inv codecs method data s) (hopen : ∀ a, s.main ≠ .ended a) :
    ∃ act, (s.step codecs act).isSome = true := by
  cases h with
  | sniffing _ hdec _ _ hmain =>
    refine ⟨.main, ?_⟩
    simp only [Stream.step, Stream.mainStep, hmain, hdec]
    split
    case h_2 => split <;> rfl
    all_goals rfl
  | @decoding d fed hdec hdata hd hmain =>
    have hdecoder (hasleep : d.pc ≠ .waiting true) (hexited : d.pc ≠ .exited) :
        ∃ act, (s.step codecs act).isSome = true := by
      obtain ⟨a, ha⟩ := hd.progress hasleep hexited
      exact ⟨.decoder a, by simpa [Stream.step, hdec] using ha⟩
    cases hm : s.main with
    | idle =>
      refine ⟨.main, ?_⟩
      simp only [Stream.step, Stream.mainStep, hm, hdec]
      split <;> first | rfl | simp_all
    | feeding asleep =>
      cases asleep with
      | true =>
        obtain ⟨hdrained, hfinished⟩ := hmain.asleep hm
        refine hdecoder (fun hpc => ?_) fun hpc => ?_
        · simp [(hd.asleep hpc).1] at hdrained
        · simp [hd.finished_iff.mpr (.inr hpc)] at hfinished
      | false =>
        refine ⟨.main, ?_⟩
        simp only [Stream.step, Stream.mainStep, hm, hdec]
        split
        · rfl
        · split <;> rfl
    | taking => exact ⟨.main, by simp [Stream.step, Stream.mainStep, hm, hdec]⟩
    | ending =>
      by_cases hexited : d.pc = .exited
      · refine ⟨.main, ?_⟩
        simp only [Stream.step, Stream.mainStep, hm, hdec, hexited, if_true]
        split <;> rfl
      · refine hdecoder (fun hpc => ?_) hexited
        simpa [(hd.asleep hpc).2.2] using hmain.closed_iff.mpr hm
    | ended a => exact absurd hm (hopen a)
  | ok hmain | error hmain => exact absurd hmain (hopen _)

/-! ### Termination -/

def Main.rank (items : ℕ) : Main → ℕ
  | .idle => 4 * items + 4
  | .feeding true => 4 * items + 7
  | .feeding false => 4 * items + 6
  | .taking => 4 * items + 5
  | .ending => 2
  | .ended _ => 0

def Pc.rank : Pc → ℕ
  | .appending _ => 5
  | .running | .waiting false => 4
  | .exiting _ => 3
  | .closing => 2
  | .exited => 1
  | .waiting true => 0

def Decomp.rank (d : Decomp) : ℕ ×ₗ ℕ :=
  toLex (2 * d.buf.length + d.held.length + (if d.eof then 0 else 1),
    6 * (d.available.length - d.total) + d.pc.rank)

def Stream.rank (s : Stream) : ℕ ×ₗ (ℕ ×ₗ ℕ) :=
  toLex (s.main.rank s.items.length, (s.dec.map Decomp.rank).getD (toLex (0, 0)))

lemma step_rank {a : DecAct} {wakes : Bool} (hs : d.step a = some (d', wakes)) :
    d'.rank < d.rank := by
  have hhungry (hd : d.Hungry) : d.pc.rank = 4 := by
    rcases hd.1 with hpc | hpc <;> simp [hpc, Pc.rank]
  unfold Decomp.rank
  rw [Prod.Lex.toLex_lt_toLex]
  cases step_cases hs with
  | deliver n hpc hpos hn =>
    refine .inr ?_
    split
    · refine ⟨rfl, ?_⟩
      change 6 * (d.available.length - (d.total + n)) + 3 < _
      simp only [hpc, Pc.rank]
      omega
    · refine ⟨rfl, ?_⟩
      change 6 * (d.available.length - (d.total + n)) + 5 < _
      simp only [hpc, Pc.rank]
      omega
  | append hpc => exact .inr ⟨rfl, Nat.add_lt_add_left (by simp [hpc, Pc.rank]) _⟩
  | consume hpc hending hheld =>
    refine .inl ?_
    simp [hheld]
  | readBuf n hd hbuf hn =>
    refine .inl ?_
    have hpos : 0 < d.buf.length := length_pos_iff.mpr hbuf
    simp only [hd.2.2, length_take, length_drop, length_nil]
    omega
  | readEOF hd =>
    refine .inl ?_
    simp [(eof_of_ending_none hd.2.1).1]
  | sleep hd => exact .inr ⟨rfl, Nat.add_lt_add_left (by rw [hhungry hd]; exact Nat.succ_pos 3) _⟩
  | stop hpc => exact .inr ⟨rfl, Nat.add_lt_add_left (by simp [hpc, Pc.rank]) _⟩
  | exit hpc => exact .inr ⟨rfl, Nat.add_lt_add_left (by simp [hpc, Pc.rank]) _⟩
  | close hpc => exact .inr ⟨rfl, Nat.add_lt_add_left (by simp [hpc, Pc.rank]) _⟩

lemma Main.rank_woken (items : ℕ) (m : Main) : m.woken.rank items ≤ m.rank items := by
  cases m with
  | feeding asleep => cases asleep <;> simp [Main.woken, Main.rank]
  | idle | taking | ending | ended => exact le_rfl

/-- A goroutine that has been woken in `feed` does not go back to sleep. -/
lemma Inv.ready (h : Inv codecs method data s) (hdec : s.dec = some d)
    (hm : s.main = .feeding false) : d.drained = true ∨ d.finished = true := by
  cases h with
  | sniffing _ hnone => simp [hnone] at hdec
  | decoding hdec' _ _ hmain =>
    obtain rfl := Option.some.inj (hdec.symm.trans hdec')
    exact hmain.awake hm
  | ok hmain | error hmain => simp [hmain] at hm

lemma feed_rank (p : Bytes) (hmain : s.main = .idle) :
    (s.feed d p).main.rank (s.feed d p).items.length < 4 * s.items.length + 8 := by
  unfold Stream.feed
  split
  · simp [hmain, Main.rank]
  · split <;> simp [Main.rank]

lemma Inv.mainStep_rank (h : Inv codecs method data s) (hs : s.mainStep codecs = some s') :
    s'.main.rank s'.items.length < s.main.rank s.items.length := by
  cases hm : s.main with
  | idle =>
    simp only [Stream.mainStep, hm] at hs
    split at hs
    case h_1 hitems _ =>
      cases hs
      exact (feed_rank _ rfl).trans_eq (by simp [Main.rank, hitems, mul_add])
    case h_2 hitems _ =>
      split at hs
      case isTrue =>
        cases hs
        simp [Main.rank, hitems]
      case isFalse =>
        cases hs
        exact (feed_rank _ rfl).trans_eq (by simp [Main.rank, hitems, mul_add])
    all_goals
      cases hs
      simp_all [Main.rank, Stream.take]
  | feeding asleep =>
    cases hdec : s.dec with
    | none => simp [Stream.mainStep, hm, hdec] at hs
    | some d =>
      cases asleep with
      | true => simp [Stream.mainStep, hm, hdec] at hs
      | false =>
        have hready := h.ready hdec hm
        simp only [Stream.mainStep, hm, hdec] at hs
        split at hs
        case isTrue hnot => simp_all
        case isFalse =>
          split at hs <;> obtain rfl := Option.some.inj hs <;> simp [Main.rank]
  | taking =>
    cases hdec : s.dec with
    | none => simp [Stream.mainStep, hm, hdec] at hs
    | some d =>
      simp only [Stream.mainStep, hm, hdec] at hs
      cases hs
      simp [Main.rank, Stream.take]
  | ending =>
    cases hdec : s.dec with
    | none => simp [Stream.mainStep, hm, hdec] at hs
    | some d =>
      simp only [Stream.mainStep, hm, hdec, Option.ite_none_right_eq_some] at hs
      obtain ⟨-, hs⟩ := hs
      split at hs <;> obtain rfl := Option.some.inj hs <;> simp [Main.rank]
  | ended a => simp [Stream.mainStep, hm] at hs

lemma Inv.rank_lt (h : Inv codecs method data s) {act : Stream.Act}
    (hs : s.step codecs act = some s') : s'.rank < s.rank := by
  unfold Stream.rank
  rw [Prod.Lex.toLex_lt_toLex]
  cases act with
  | main => exact .inl (h.mainStep_rank hs)
  | decoder a =>
    simp only [Stream.step] at hs
    split at hs
    case h_1 => simp at hs
    case h_2 d hdec =>
      obtain ⟨⟨d', wakes⟩, hstep, rfl⟩ := Option.map_eq_some_iff.mp hs
      have hmain : (if wakes then s.main.woken else s.main).rank s.items.length
          ≤ s.main.rank s.items.length := by
        split
        · exact Main.rank_woken _ _
        · exact le_rfl
      rcases hmain.lt_or_eq with hlt | heq
      · exact .inl hlt
      · exact .inr ⟨heq, by simpa [hdec] using step_rank hstep⟩

end Step

/-- Over every chunking and every schedule: the goroutines are never asleep together, a stream that
ends well has returned the output of `zlibRun`, the errors are those of `zlibRun`, and every stream
ends. -/
theorem stream_refines_zlibRun (codecs : Codecs) (method : Method) (items : List Item)
    (acts : List Stream.Act) (s : Stream)
    (hrun : Machine.run (Stream.step codecs) (newStream codecs method items) acts = some s) :
    ¬ s.Deadlocked
      ∧ (∀ b, s.main = .ended (.bytes b) →
        zlibRun codecs method (written items) = .ok s.returned)
      ∧ (s.Failed → ∃ e, zlibRun codecs method (written items) = .error e)
      ∧ (∀ answer, s.main = .ended answer →
        (∃ e, zlibRun codecs method (written items) = .error e) → s.Failed)
      ∧ ((∀ answer, s.main ≠ .ended answer) → ∃ act, (s.step codecs act).isSome = true)
      ∧ ¬ ∃ f : ℕ → Stream, f 0 = s ∧ ∀ n, ∃ act, (f n).step codecs act = some (f (n + 1)) := by
  have hinv : Inv codecs method (written items) s :=
    Machine.run_invariant_all (I := Inv codecs method (written items))
      (fun _ _ _ h hs => h.step hs) (inv_newStream codecs method items) hrun
  refine ⟨hinv.not_deadlocked, fun b hb => hinv.ended hb, hinv.failed, ?_, hinv.progress, ?_⟩
  · rintro answer hanswer ⟨e, he⟩
    cases answer with
    | error code => exact .inr ⟨code, hanswer⟩
    | bytes b =>
      have hok : zlibRun codecs method (written items) = .ok s.returned := hinv.ended hanswer
      exact absurd (he.symm.trans hok) (by simp)
  · exact Machine.no_infinite_run Stream.rank
      (fun _ _ _ h hs => ⟨h.step hs, h.rank_lt hs⟩) hinv

/-- The length that a zlib stream gives for its stored block. -/
def storedLength (u : Bytes) : ℕ := (u.getD 3 0).toNat + 256 * (u.getD 4 0).toNat

def adler32 (data : Bytes) : ℕ × ℕ :=
  data.foldl (fun s b => ((s.1 + b.toNat) % 65521, (s.2 + s.1 + b.toNat) % 65521)) (1, 0)

/-- The checks of a header, of a last block that is stored, and of the checksum after it. -/
def storedVerdict (u : Bytes) : Option (Option Err) :=
  let byte i := (u.getD i 0).toNat
  let n := storedLength u
  if 2 ≤ u.length ∧ ¬ (byte 0 % 16 = 8 ∧ byte 0 < 128 ∧ byte 1 / 32 % 2 = 0 ∧
      (256 * byte 0 + byte 1) % 31 = 0) then some (some (.corrupt (str "zlib: invalid header")))
  else if 3 ≤ u.length ∧ byte 2 % 8 ≠ 1 ∨
      7 ≤ u.length ∧ n + byte 5 + 256 * byte 6 ≠ 65535 then
    some (some (.corrupt (str "flate: corrupt input")))
  else if u.length < n + 11 then none
  else if (256 * byte (n + 9) + byte (n + 10), 256 * byte (n + 7) + byte (n + 8)) =
      adler32 ((u.drop 7).take n) then some none
  else some (some (.corrupt (str "zlib: invalid checksum")))

/-- A reader of zlib streams of one stored block. -/
def storedZlib : Codec where
  output u := (u.drop 7).take (storedLength u)
  verdict := storedVerdict
  atEnd _ := ([], some .unexpectedEOF)
  output_mono u a := by
    by_cases hu : u.length < 7
    · simp [drop_eq_nil_of_le hu.le]
    · have hlen : storedLength (u ++ [a]) = storedLength u := by
        simp [storedLength, getElem?_append_left (show 3 < u.length by omega),
          getElem?_append_left (show 4 < u.length by omega)]
      rw [hlen]
      exact ((prefix_append u [a]).drop 7).take _

/-- A reader that is not used. -/
def unused : Codec where
  output _ := []
  verdict _ := some (some .eof)
  atEnd _ := ([], none)
  output_mono _ _ := prefix_refl _

def storedCodecs : Codecs where
  gzip := unused
  zlib := storedZlib
  flate := unused
  brotli := unused
  zlib_header data hdata := by
    have hnone (u : Bytes) (hu : u.length < 2) : storedVerdict u = none := by
      simp [storedVerdict, show ¬ 2 ≤ u.length by omega, show ¬ 3 ≤ u.length by omega,
        show ¬ 7 ≤ u.length by omega, show u.length < storedLength u + 11 by omega]
    have hunstopped : storedZlib.Unstopped data := fun u b v hdata' =>
      hnone u (by simp [hdata'] at hdata; omega)
    rw [Decoder.decode_of_end hunstopped (hnone data hdata)]
    simp [storedZlib]

def lateSniff : List Item :=
  [.write [0x78], .flush, .write [0x01, 0x01, 0x02, 0x00, 0xfd, 0xff, 7],
    .write [8, 0x00, 0x18, 0x00, 0x10]]

def lateSniffRun : List Stream.Act := flatten
  [[.main, .main, .main, .decoder (.read 8)], replicate 8 (.decoder .consume),
    [.decoder (.deliver 1), .decoder .append, .decoder (.read 1), .main, .main, .main,
      .decoder (.read 5)], replicate 5 (.decoder .consume),
    [.decoder (.deliver 1), .decoder .append, .decoder .stop, .decoder .exit, .main, .main, .main,
      .decoder .close, .main]]

theorem lateSniff_refines : ∃ s,
    Machine.run (Stream.step storedCodecs) (newStream storedCodecs .unzip lateSniff) lateSniffRun
      = some s ∧ s.returned = [7, 8]
      ∧ zlibRun storedCodecs .unzip (written lateSniff) = .ok s.returned := by
  have hsome : (Machine.run (Stream.step storedCodecs)
      (newStream storedCodecs .unzip lateSniff) lateSniffRun).any
        (fun s => decide (s.main = .ended (.bytes []) ∧ s.returned = [7, 8])) = true := by
    decide +kernel
  obtain ⟨s, hrun, hs⟩ := (Option.any_eq_true _ _).mp hsome
  obtain ⟨hmain, hreturned⟩ := of_decide_eq_true hs
  have hrefines := stream_refines_zlibRun storedCodecs .unzip lateSniff lateSniffRun s hrun
  exact ⟨s, hrun, hreturned, hrefines.2.1 _ hmain⟩

end GoSpidermonkey.Nodejs.Zlib
