import GoSpidermonkey.EventLoop.Moves

/-!
# One timer or immediate

What the loop knows of one timer is its slot, and every move of the loop is a move of each slot. An
immediate has a slot too, that of a one-shot timer which is only marked when it is cleared. So what
the loop keeps is proved once, of slots: while no failure loses a batch (`Slot.OK`), and in every
run (`Slot.Safe`).
-/

namespace GoSpidermonkey.EventLoop

open List

structure Slot where
  interval : ℤ
  fn : Bool
  running : Bool
  cleared : Bool
  armed : Prop
  taken : Prop
  current : Prop
  used : Prop
  dropped : Prop
  calls : ℕ

namespace Slot

/-- The moves of a slot; `marks` says that clearing only marks it. -/
inductive Move (marks failed : Bool) (x : Slot) : Slot → Prop where
  | same : Move marks failed x x
  | set {i : ℤ} (hi : 0 ≤ i) (hnew : ¬ x.used) :
      Move marks failed x { x with
        interval := i, fn := true, running := false, cleared := false
        armed := True, used := True }
  | clear : Move marks failed x
      { x with cleared := true, fn := x.fn && x.running, armed := False }
  | mark (h : marks = true) : Move marks failed x { x with cleared := true }
  | take (running : Bool) (hrunning : marks = false → running = true) (harmed : x.armed)
      (htaken : ¬ x.taken) (hcurrent : ¬ x.current) :
      Move marks failed x { x with running, armed := 0 < x.interval, taken := True }
  | skip (htaken : x.taken) (hcurrent : ¬ x.current) (hcleared : x.cleared = true) :
      Move marks failed x { x with fn := false, taken := False }
  | call (htaken : x.taken) (hcurrent : ¬ x.current) :
      Move marks failed x { x with taken := False, current := True, calls := x.calls + 1 }
  | ended (hcurrent : x.current) :
      Move marks failed x { x with
        running := false
        fn := x.fn && !(x.interval == 0 || x.cleared)
        taken := failed = false ∧ x.taken
        current := False }
  | lose (h : failed = true) : Move marks failed x { x with taken := False }
  | drop (fn : Bool) (gone : Prop) (htaken : ¬ x.taken) (hcurrent : ¬ x.current)
      (hfn : fn = true → x.fn = true ∧ ¬ x.armed) (hgone : x.armed ∨ x.dropped → gone) :
      Move marks failed x { x with fn, armed := False, dropped := gone }

/-- Nothing is lost, and handles are held only for what the loop will come to. -/
structure OK (marks : Bool) (x : Slot) : Prop where
  used : x.armed ∨ x.taken ∨ x.current → x.used
  unused : ¬ x.used → x.calls = 0
  interval : 0 ≤ x.interval
  armed : marks = false → x.armed → x.cleared = false
  oneShot : x.used → x.interval = 0 → x.cleared = false → ¬ x.dropped →
    x.armed ∧ ¬ x.taken ∧ x.calls = 0 ∨ ¬ x.armed ∧ x.taken ∧ x.calls = 0 ∨
      ¬ x.armed ∧ ¬ x.taken ∧ x.calls = 1
  apart : x.taken → x.interval = 0 → ¬ x.armed
  uncalled : x.armed → x.interval = 0 → x.calls = 0
  held : x.fn = true → x.armed ∨ x.taken ∨ x.current
  running : x.running = true → x.fn = true → x.taken ∨ x.current
  repeating : x.taken ∨ x.current → 0 < x.interval → x.cleared = false → x.armed

/-- Where the handles of timers are, whatever fails. -/
structure Safe (x : Slot) : Prop where
  used : x.armed ∨ x.taken ∨ x.current ∨ x.fn = true → x.used
  armed : x.armed → x.fn = true ∧ x.cleared = false
  taken : x.taken ∨ x.current → x.fn = true ∧ x.running = true
  apart : x.current → ¬ x.taken
  repeating : x.taken ∨ x.current → x.armed → x.interval ≠ 0

variable {marks failed : Bool} {x x' : Slot}

lemma Move.of_eq {y : Slot} (hm : Move marks failed x y) (h : x' = y) : Move marks failed x x' :=
  h ▸ hm

theorem OK.move (h : x.OK marks) (hlast : failed = true → ¬ x.taken) (hm : Move marks failed x x') :
    x'.OK marks := by
  obtain ⟨hused, hunused, hinterval, harmed, honce, hapart, huncalled, hheld, hrunning,
    hrepeats⟩ := h
  cases hm with
  | same => constructor <;> assumption
  | set | clear | mark | take | skip | call | ended | lose | drop =>
    constructor <;> first | assumption | grind -linarith

theorem Safe.move (h : x.Safe) (hm : Move false failed x x') : x'.Safe := by
  obtain ⟨hused, harmed, htaken, hapart, hrepeats⟩ := h
  cases hm with
  | same => constructor <;> assumption
  | set | clear | mark | take | skip | call | ended | lose | drop =>
    constructor <;> first | assumption | grind -linarith

lemma Move.used (hm : Move marks failed x x') (hused : x.used) : x'.used := by
  cases hm with
  | set => trivial
  | _ => exact hused

/-- A handle that is freed stays so. -/
lemma Move.unheld (hm : Move marks failed x x') (hused : x.used) (hfn : x.fn = false) :
    x'.fn = false := by
  cases hm with
  | set hi hnew => exact absurd hused hnew
  | drop fn gone htaken hcurrent hfn' =>
    refine Bool.eq_false_iff.mpr fun h => ?_
    exact absurd (hfn.symm.trans (hfn' h).1) Bool.false_ne_true
  | _ => simp [hfn]

end Slot

/-! ### The slots of a state -/

def TimerView.slot (v : TimerView) (id : ℕ) : Slot where
  interval := (v.timer id).interval
  fn := (v.timer id).fn
  running := (v.timer id).running
  cleared := (v.timer id).cleared
  armed := id ∈ v.timers
  taken := id ∈ v.rest
  current := v.current = some id
  used := id ∈ v.ids
  dropped := id ∈ v.dropped
  calls := v.calls id

structure Listed (v : TimerView) : Prop where
  ids_le : ∀ id ∈ v.ids, id ≤ v.nextID
  timers_ids : v.timers ⊆ v.ids
  timers_nodup : v.timers.Nodup
  rest_nodup : v.rest.Nodup

namespace Listed

variable {v v' : TimerView}

lemma new (h : Listed v) : v.nextID + 1 ∉ v.ids := fun hid => by
  have := h.ids_le _ hid
  omega

/-- An id is handed out. -/
lemma append (h : Listed v) (hids : v'.ids = (v.nextID + 1) :: v.ids)
    (htimers : v'.timers = v.timers ++ [v.nextID + 1]) (hrest : v'.rest = v.rest)
    (hnext : v'.nextID = v.nextID + 1) : Listed v' where
  ids_le := by
    rw [hids, hnext]
    exact forall_mem_cons.mpr ⟨le_rfl, fun id hid => Nat.le_succ_of_le (h.ids_le id hid)⟩
  timers_ids := by
    rw [hids, htimers]
    refine append_subset.mpr ⟨fun id hid => mem_cons_of_mem _ (h.timers_ids hid), ?_⟩
    simp
  timers_nodup := by
    rw [htimers, nodup_append_comm]
    exact nodup_cons.mpr ⟨fun hid => h.new (h.timers_ids hid), h.timers_nodup⟩
  rest_nodup := hrest ▸ h.rest_nodup

/-- Other moves hand out no timer's id and arm no timer. -/
lemma shrink (h : Listed v) (hids : v'.ids = v.ids) (hnext : v.nextID ≤ v'.nextID)
    (htimers : v'.timers.Sublist v.timers) (hrest : v'.rest.Nodup) : Listed v' where
  ids_le := fun id hid => (h.ids_le id (hids ▸ hid)).trans hnext
  timers_ids := fun _ hid => hids ▸ h.timers_ids (htimers.subset hid)
  timers_nodup := h.timers_nodup.sublist htimers
  rest_nodup := hrest

end Listed

variable {marks failed : Bool} {e : Option TimerEvent} {v v' : TimerSide}

lemma Move.listed (hm : Move marks failed e v v') (h : Listed v.toTimerView) :
    Listed v'.toTimerView := by
  have hrest := h.rest_nodup
  cases hm with
  | same | clearUnknown | finish | unref | mark => exact { h with }
  | bump => exact h.shrink rfl (Nat.le_succ _) (List.Sublist.refl _) hrest
  | set => exact h.append rfl rfl rfl rfl
  | clear => exact h.shrink rfl le_rfl filter_sublist hrest
  | take now hdue =>
    exact h.shrink rfl le_rfl filter_sublist (hdue.nodup_iff.mpr (h.timers_nodup.filter _))
  | takeAll => exact h.shrink rfl le_rfl (nil_sublist _) h.timers_nodup
  | skip hcons | call hcons =>
    rw [hcons] at hrest
    exact h.shrink rfl le_rfl (List.Sublist.refl _) hrest.of_cons
  | ended =>
    refine h.shrink rfl le_rfl (List.Sublist.refl _) ?_
    split_ifs
    · exact nodup_nil
    · exact hrest
  | abandon => exact h.shrink rfl le_rfl (List.Sublist.refl _) nodup_nil
  | drop => exact h.shrink rfl le_rfl (nil_sublist _) hrest

attribute [local simp] TimerView.slot in
/-- A move of the timers is a move of each slot. -/
lemma Move.slot (hm : Move marks failed e v v') (h : Listed v.toTimerView) (j : ℕ) :
    Slot.Move marks failed (v.slot j) (v'.slot j) := by
  have hrest := h.rest_nodup
  cases hm with
  | same | clearUnknown | finish | bump => exact .same
  | unref id b =>
    refine .of_eq .same ?_
    by_cases hj : j = id <;> simp [hj]
  | set hfn hcleared hrunning hinterval =>
    by_cases hj : j = v.nextID + 1
    · refine .of_eq (.set hinterval (hj ▸ h.new)) ?_
      simp [hj, hfn, hcleared, hrunning]
    · exact .of_eq .same (by simp [hj])
  | @clear _ id =>
    by_cases hj : j = id
    · exact .of_eq .clear (by simp [hj])
    · exact .of_eq .same (by simp [hj])
  | mark id hmarks =>
    by_cases hj : j = id
    · exact .of_eq (.mark hmarks) (by simp [hj])
    · exact .of_eq .same (by simp [hj])
  | @take _ now due hdue hnil hcurrent =>
    by_cases hj : j ∈ due
    · have hmem : j ∈ v.timers := mem_of_mem_filter (hdue.mem_iff.mp hj)
      refine .of_eq (.take true (fun _ => rfl) hmem ?_ ?_) ?_
      · simp [hnil]
      · simp [hcurrent]
      · simp [hj, hmem, Timer.take]
    · exact .of_eq .same (by simp [hj, hnil])
  | takeAll hmarks honce hnil hcurrent =>
    by_cases hj : j ∈ v.timers
    · refine .of_eq (.take (v.timer j).running ?_ hj ?_ ?_) ?_ <;>
        simp [hj, hnil, hcurrent, honce, hmarks]
    · exact .of_eq .same (by simp [hj, hnil])
  | @skip _ id rest hcons hcurrent hcleared =>
    rw [hcons] at hrest
    by_cases hj : j = id
    · refine .of_eq (.skip ?_ ?_ ?_) ?_ <;>
        simp [hj, hcons, hcurrent, hcleared, Timer.free, hrest.notMem]
    · exact .of_eq .same (by simp [hj, hcons])
  | @call _ id rest hcons hcurrent hcleared =>
    rw [hcons] at hrest
    by_cases hj : j = id
    · refine .of_eq (.call ?_ ?_) ?_ <;>
        simp [hj, hcons, hcurrent, hrest.notMem]
    · exact .of_eq .same (by simp [hj, hcons, hcurrent, Ne.symm hj])
  | @ended _ id hcurrent =>
    by_cases hj : j = id
    · refine .of_eq (.ended ?_) ?_ <;> cases failed <;> simp [hj, hcurrent]
    · cases failed with
      | true => exact .of_eq (.lose rfl) (by simp [hj, hcurrent, Ne.symm hj])
      | false => exact .of_eq .same (by simp [hj, hcurrent, Ne.symm hj])
  | abandon hfailed => exact .of_eq (.lose hfailed) (by simp)
  | @drop _ gone hnil hcurrent hgone =>
    refine .of_eq (.drop (if j ∈ v.timers ∨ j ∈ v.dueBatch then (v.timer j).free else v.timer j).fn
      (j ∈ gone) ?_ ?_ ?_ ?_) ?_
    · simp [hnil]
    · simp [hcurrent]
    · split_ifs with hmem
      · simp [Timer.free]
      · exact fun hfn => ⟨hfn, (not_or.mp hmem).1⟩
    · exact fun hmem => hgone (mem_append.mpr hmem)
    · split_ifs with hmem <;> simp [hmem, Timer.free]

end GoSpidermonkey.EventLoop
