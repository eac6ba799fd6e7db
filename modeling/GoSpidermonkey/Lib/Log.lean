import Mathlib

/-!
# Logs of events

A machine that writes down what it does has a log, the oldest event first. `AtEach Q` says of every
event in the log what had been in the log when it happened.
-/

namespace Log

open List

variable {ε : Type*}

/-- For every event of the log, `Q` holds of it and of the log before it. -/
def AtEach (Q : ε → List ε → Prop) (log : List ε) : Prop :=
  ∀ pre e post, log = pre ++ e :: post → Q e pre

lemma atEach_nil (Q : ε → List ε → Prop) : AtEach Q [] := by
  intro pre e post h
  simp at h

lemma AtEach.mono {Q R : ε → List ε → Prop} {log : List ε} (h : AtEach Q log)
    (hQR : ∀ e pre, Q e pre → R e pre) : AtEach R log :=
  fun pre e post heq => hQR e pre (h pre e post heq)

lemma AtEach.of_append {Q : ε → List ε → Prop} {log es : List ε} (h : AtEach Q (log ++ es)) :
    AtEach Q log := by
  rintro pre e post rfl
  exact h pre e (post ++ es) (by simp)

lemma atEach_snoc {Q : ε → List ε → Prop} {log : List ε} {e : ε} (h : AtEach Q log) (he : Q e log) :
    AtEach Q (log ++ [e]) := by
  intro pre d post heq
  rcases eq_nil_or_concat post with rfl | ⟨post, x, rfl⟩
  · obtain ⟨rfl, hd⟩ := append_inj' heq rfl
    rwa [← (List.cons.inj hd).1]
  · rw [concat_eq_append, ← cons_append, ← append_assoc] at heq
    exact h pre d post (append_inj' heq rfl).1

lemma atEach_append {Q : ε → List ε → Prop} {log es : List ε} (h : AtEach Q log)
    (hes : ∀ e ∈ es, ∀ pre, Q e pre) : AtEach Q (log ++ es) := by
  induction es generalizing log with
  | nil => rwa [append_nil]
  | cons e es ih =>
    rw [← singleton_append, ← append_assoc]
    exact ih (atEach_snoc h (hes e (.head _) log)) fun d hd => hes d (.tail _ hd)

lemma filterMap_cons_toList {β : Type*} (f : ε → Option β) (e : ε) (log : List ε) :
    (e :: log).filterMap f = (f e).toList ++ log.filterMap f := by
  cases h : f e with
  | none => simp [filterMap_cons_none h]
  | some b => simp [filterMap_cons_some h]

end Log
