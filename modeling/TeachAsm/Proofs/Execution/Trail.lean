import Mathlib.Logic.Function.Iterate
import TeachAsm.Proofs.Execution.Reachable
import TeachAsm.Proofs.Trace.Offer
/-!
# Trails

What an execution does is settled by the program: a tracer only watches, and a
limit only says when to stop watching. A `Stride` is one step that an execution
completes, with the slot it is at and what that slot comes to; a `Trail` is a
row of strides, each from where the last one ends. From one execution there is
one trail of each length (`Trail.eq_of_length_eq`), and it goes on until the
execution is over or its slot fails (`Execution.AtEnd`). A `Stretch` is a trail
that a limit lets pass.

A session follows the trail of its execution for as long as its tracer takes the
records. `Session.follow` is the session at the end of it, and it is where single
steps lead (`iterate_step_of_trail`) and where a run comes by
(`runFor_of_stretch`). Where the tracer refuses a record, the session has made
the effect of the stride and has not moved on (`Session.interrupt`).
-/

namespace TeachAsm

/-- **A completed step**: an active execution, its slot, and what it comes to. -/
structure Stride (program : Program) where
  before : Execution
  slot : Slot
  report : Report (Effect × Control)
  effect : Effect
  control : Control
  active : before.state = .active
  current : before.current? program = some (slot, report)
  result : report.result = .ok (effect, control)

namespace Stride

variable {program : Program}

/-- The execution that has moved on. -/
def after (stride : Stride program) : Execution :=
  (stride.before.commit stride.effect).advance program.size stride.control

/-- What a tracer is told. -/
def record (stride : Stride program) : Record :=
  (stride.before.commit stride.effect).record stride.slot

/-- What the log is told. -/
def events (stride : Stride program) : List Event :=
  stride.report.events ++
    [.stepped stride.before.counter stride.slot.line stride.slot.text stride.control]

theorem operations_after (stride : Stride program) :
    stride.after.operations = stride.before.operations + 1 := by
  rw [after]
  cases stride.control <;> rfl

/-- **There is one way to go on.** -/
theorem eq_of_before_eq {stride other : Stride program} (h : stride.before = other.before) :
    stride = other := by
  obtain ⟨before, slot, report, effect, control, _, hcurrent, hresult⟩ := stride
  obtain ⟨before', slot', report', effect', control', _, hcurrent', hresult'⟩ := other
  obtain rfl : before = before' := h
  obtain ⟨rfl, rfl⟩ := Prod.mk.inj (Option.some.inj (hcurrent.symm.trans hcurrent'))
  obtain ⟨rfl, rfl⟩ := Prod.mk.inj (Except.ok.inj (hresult.symm.trans hresult'))
  rfl

/-- A stride changes the machine by its effect, and where it goes changes
nothing of it. -/
theorem machine_after (stride : Stride program) :
    stride.after.machine = stride.effect.apply stride.before.machine := by
  rw [after]
  cases stride.control <;> rfl

/-- Where the records of strides are cut at one, so are the strides. -/
theorem exists_append_of_map_record {strides : List (Stride program)} {front back : List Record}
    {record : Record} (h : strides.map Stride.record = front ++ record :: back) :
    ∃ before stride after, strides = before ++ stride :: after ∧
      before.map Stride.record = front ∧ stride.record = record ∧
      after.map Stride.record = back := by
  obtain ⟨before, _, rfl, hfront, hrest⟩ := List.map_eq_append_iff.1 h
  obtain ⟨stride, after, rfl, hrecord, hback⟩ := List.map_eq_cons_iff.1 hrest
  exact ⟨before, stride, after, rfl, hfront, hrecord, hback⟩

theorem moved (stride : Stride program) : Execution.Moved program stride.before stride.after :=
  .completed stride.active stride.current stride.result

end Stride

/-- **A row of strides**, from one execution to another. -/
inductive Trail (program : Program) : Execution → List (Stride program) → Execution → Prop
  | nil (e : Execution) : Trail program e [] e
  | cons (stride : Stride program) {strides : List (Stride program)} {e : Execution}
      (h : Trail program stride.after strides e) :
      Trail program stride.before (stride :: strides) e

namespace Trail

variable {program : Program} {e e' e'' : Execution} {strides others : List (Stride program)}

theorem nil_iff : Trail program e [] e' ↔ e' = e := by
  constructor
  · rintro ⟨⟩
    rfl
  · rintro rfl
    exact .nil e'

theorem cons_iff {stride : Stride program} :
    Trail program e (stride :: strides) e' ↔
      stride.before = e ∧ Trail program stride.after strides e' := by
  constructor
  · rintro ⟨⟩
    exact ⟨rfl, ‹_›⟩
  · rintro ⟨rfl, h⟩
    exact .cons stride h

/-- A trail may be cut anywhere. -/
theorem append_iff :
    Trail program e (strides ++ others) e'' ↔
      ∃ e', Trail program e strides e' ∧ Trail program e' others e'' := by
  constructor
  · intro h
    induction strides generalizing e with
    | nil => exact ⟨e, .nil e, h⟩
    | cons stride strides ih =>
      cases h with
      | cons _ h =>
        obtain ⟨e', hfront, hback⟩ := ih h
        exact ⟨e', .cons stride hfront, hback⟩
  · rintro ⟨e', hfront, hback⟩
    induction hfront with
    | nil => exact hback
    | cons stride _ ih => exact .cons stride (ih hback)

/-- A trail with one more stride behind it. -/
theorem concat_iff {stride : Stride program} :
    Trail program e (strides ++ [stride]) e' ↔
      Trail program e strides stride.before ∧ e' = stride.after := by
  simp only [append_iff, cons_iff, nil_iff]
  constructor
  · rintro ⟨_, h, rfl, rfl⟩
    exact ⟨h, rfl⟩
  · rintro ⟨h, rfl⟩
    exact ⟨_, h, rfl, rfl⟩

/-- In front of each stride of a trail the execution is active. -/
theorem exists_active_of_lt (h : Trail program e strides e') {n : Nat} (hlt : n < strides.length) :
    ∃ front mid, Trail program e front mid ∧ front.length = n ∧ mid.state = .active := by
  rw [← List.take_append_drop n strides] at h
  obtain ⟨mid, hfront, hback⟩ := append_iff.1 h
  have hlength : (strides.take n).length = n := List.length_take_of_le (Nat.le_of_lt hlt)
  rw [List.drop_eq_getElem_cons hlt] at hback
  cases hback
  exact ⟨_, _, hfront, hlength, strides[n].active⟩

theorem sound (h : Trail program e strides e') (hs : e.Sound program) (hwf : program.WellFormed) :
    e'.Sound program := by
  induction h with
  | nil => exact hs
  | cons stride _ ih => exact ih (hs.moved hwf stride.moved)

/-- Each stride counts as one operation. -/
theorem operations_eq (h : Trail program e strides e') :
    e'.operations = e.operations + strides.length := by
  induction h with
  | nil => rfl
  | cons stride _ ih =>
    rw [ih, stride.operations_after, List.length_cons]
    omega

/-- The longer of two trails goes on from the end of the shorter one. -/
theorem exists_append (h : Trail program e strides e') (h' : Trail program e others e'')
    (hlength : strides.length ≤ others.length) :
    ∃ later, others = strides ++ later ∧ Trail program e' later e'' := by
  induction h generalizing others with
  | nil => exact ⟨others, rfl, h'⟩
  | @cons stride strides e' _ ih =>
    generalize hbefore : stride.before = first at h'
    cases h' with
    | nil => cases hlength
    | cons other h' =>
      obtain rfl := Stride.eq_of_before_eq hbefore
      obtain ⟨later, rfl, hlater⟩ := ih h' (Nat.le_of_succ_le_succ hlength)
      exact ⟨later, rfl, hlater⟩

/-- **There is one trail of each length.** -/
theorem eq_of_length_eq (h : Trail program e strides e') (h' : Trail program e others e'')
    (hlength : strides.length = others.length) : strides = others ∧ e' = e'' := by
  obtain ⟨later, rfl, hlater⟩ := h.exists_append h' (Nat.le_of_eq hlength)
  have hnone : later = [] := by simpa using hlength
  subst hnone
  cases hlater
  exact ⟨by simp, rfl⟩

end Trail

/-! ## Where a trail ends -/

/-- **The end of an execution**: it is over, or its slot fails. -/
inductive Execution.AtEnd (program : Program) (e : Execution) : Except Fault Outcome → Prop
  | stopped (h : e.state ≠ .active) : AtEnd program e (.ok e.outcome)
  | fault {slot : Slot} {report : Report (Effect × Control)} {fault : Fault}
      (hactive : e.state = .active) (hcurrent : e.current? program = some (slot, report))
      (hresult : report.result = .error fault) : AtEnd program e (.error fault)

namespace Execution

variable {program : Program} {e e' : Execution} {result result' : Except Fault Outcome}

/-- No trail leads away from the end. -/
theorem AtEnd.eq_nil (h : e.AtEnd program result) {strides : List (Stride program)}
    (htrail : Trail program e strides e') : strides = [] := by
  cases htrail with
  | nil => rfl
  | cons stride =>
    cases h with
    | stopped hover => exact absurd stride.active hover
    | fault _ hcurrent hresult =>
      obtain ⟨-, rfl⟩ := Prod.mk.inj (Option.some.inj (hcurrent.symm.trans stride.current))
      rw [stride.result] at hresult
      cases hresult

theorem AtEnd.unique (h : e.AtEnd program result) (h' : e.AtEnd program result') :
    result = result' := by
  cases h with
  | stopped hover =>
    cases h' with
    | stopped => rfl
    | fault hactive => exact absurd hactive hover
  | fault hactive hcurrent hresult =>
    cases h' with
    | stopped hover => exact absurd hactive hover
    | fault _ hcurrent' hresult' =>
      obtain ⟨-, rfl⟩ := Prod.mk.inj (Option.some.inj (hcurrent.symm.trans hcurrent'))
      rw [Except.error.inj (hresult.symm.trans hresult')]

/-- **A sound execution goes on or is at its end.** -/
theorem Sound.exists_stride_or_atEnd (hs : e.Sound program) :
    (∃ stride : Stride program, stride.before = e) ∨ ∃ result, e.AtEnd program result := by
  by_cases hactive : e.state = .active
  · rcases hcurrent : e.current? program with _ | ⟨slot, report⟩
    · exact absurd hcurrent (hs.current?_ne_none hactive)
    · rcases hresult : report.result with fault | ⟨effect, control⟩
      · exact .inr ⟨_, .fault hactive hcurrent hresult⟩
      · exact .inl ⟨⟨e, slot, report, effect, control, hactive, hcurrent, hresult⟩, rfl⟩
  · exact .inr ⟨_, .stopped hactive⟩

end Execution

namespace Trail

variable {program : Program} {e e' e'' : Execution} {strides others : List (Stride program)}
variable {result result' : Except Fault Outcome}

/-- No trail is longer than one that comes to the end. -/
theorem length_le (h : Trail program e strides e') (hend : e'.AtEnd program result)
    (h' : Trail program e others e'') : others.length ≤ strides.length := by
  rcases Nat.le_total others.length strides.length with hle | hge
  · exact hle
  · obtain ⟨later, rfl, hlater⟩ := h.exists_append h' hge
    rw [hend.eq_nil hlater, List.append_nil]

/-- **There is one end at most.** -/
theorem eq_of_atEnd (h : Trail program e strides e') (hend : e'.AtEnd program result)
    (h' : Trail program e others e'') (hend' : e''.AtEnd program result') :
    strides = others ∧ result = result' := by
  have hle := h.length_le hend h'
  have hge := h'.length_le hend' h
  obtain ⟨rfl, rfl⟩ := h.eq_of_length_eq h' (Nat.le_antisymm hge hle)
  exact ⟨rfl, hend.unique hend'⟩

/-- **Up to any length there is a trail, unless it ends before.** -/
theorem exists_length_eq_or_atEnd (hs : e.Sound program) (hwf : program.WellFormed) (n : Nat) :
    (∃ strides e', Trail program e strides e' ∧ strides.length = n) ∨
      ∃ strides e' result, Trail program e strides e' ∧ e'.AtEnd program result ∧
        strides.length < n := by
  induction n generalizing e with
  | zero => exact .inl ⟨[], e, .nil e, rfl⟩
  | succ n ih =>
    rcases hs.exists_stride_or_atEnd with ⟨stride, rfl⟩ | ⟨result, hend⟩
    · rcases ih (hs.moved hwf stride.moved) with
        ⟨strides, e', htrail, hlength⟩ | ⟨strides, e', result, htrail, hend, hlength⟩
      · exact .inl ⟨stride :: strides, e', .cons stride htrail, by simp [hlength]⟩
      · exact .inr ⟨stride :: strides, e', result, .cons stride htrail, hend, by simpa⟩
    · exact .inr ⟨[], e, result, .nil e, hend, Nat.succ_pos n⟩

end Trail

/-! ## Trails within a limit -/

/-- Whether a limit lets an execution make its next step. -/
def Execution.Below (e : Execution) (limit : Option Nat) : Prop :=
  ∀ n ∈ limit, e.operations < n

theorem Execution.Below.filter_eq_none {e : Execution} {limit : Option Nat} (h : e.Below limit) :
    limit.filter (· ≤ e.operations) = none := by
  rw [Option.filter_eq_none_iff]
  intro n hn
  simpa using h n hn

/-- **A trail that a limit lets pass**: it is not reached in front of any stride. -/
structure Stretch (program : Program) (limit : Option Nat) (e : Execution)
    (strides : List (Stride program)) (e' : Execution) : Prop where
  trail : Trail program e strides e'
  below : ∀ stride ∈ strides, stride.before.Below limit

section Stretch

variable {program : Program} {limit : Option Nat} {e e' e'' : Execution}
variable {strides others : List (Stride program)}

/-- A limit that allows the operations at the end of a trail lets it pass. -/
theorem Trail.stretch (h : Trail program e strides e') (hlimit : ∀ n ∈ limit, e'.operations ≤ n) :
    Stretch program limit e strides e' := by
  refine ⟨h, fun stride hmem n hn => ?_⟩
  have hle := hlimit n hn
  obtain ⟨front, back, rfl⟩ := List.append_of_mem hmem
  obtain ⟨_, _, hback⟩ := Trail.append_iff.1 h
  have hoperations := hback.operations_eq
  cases hback
  rw [List.length_cons] at hoperations
  omega

/-- A stretch may be cut anywhere. -/
theorem Stretch.append_iff :
    Stretch program limit e (strides ++ others) e'' ↔
      ∃ e', Stretch program limit e strides e' ∧ Stretch program limit e' others e'' := by
  constructor
  · rintro ⟨htrail, hbelow⟩
    obtain ⟨hfront, hback⟩ := List.forall_mem_append.1 hbelow
    obtain ⟨e', htrail, htrail'⟩ := Trail.append_iff.1 htrail
    exact ⟨e', ⟨htrail, hfront⟩, ⟨htrail', hback⟩⟩
  · rintro ⟨e', ⟨htrail, hfront⟩, ⟨htrail', hback⟩⟩
    exact ⟨Trail.append_iff.2 ⟨e', htrail, htrail'⟩, List.forall_mem_append.2 ⟨hfront, hback⟩⟩

end Stretch

/-! ## Sessions -/

namespace Session

variable {σ : Type} {program : Program} {tracer : Tracer σ} {limit : Option Nat} {s : Session σ}
variable {e : Execution} {strides : List (Stride program)}

/-- The session in which a stride has been made, and has been told of. -/
def make (tracer : Tracer σ) (s : Session σ) (stride : Stride program) : Session σ where
  execution := stride.after
  trace := (tracer.record stride.record s.trace).1
  log := s.log ++ stride.events

/-- The session in which strides have been made, one after the other. -/
def follow (tracer : Tracer σ) (s : Session σ) (strides : List (Stride program)) : Session σ :=
  strides.foldl (make tracer) s

/-- The session in which a stride has had its effect, and its record has been
refused. -/
def interrupt (tracer : Tracer σ) (s : Session σ) (stride : Stride program) : Session σ where
  execution := stride.before.commit stride.effect
  trace := (tracer.record stride.record s.trace).1
  log := s.log ++ stride.events

/-- What the tracer has been told is the records, in order. -/
theorem trace_follow (tracer : Tracer σ) (s : Session σ) (strides : List (Stride program)) :
    (s.follow tracer strides).trace = tracer.after s.trace (strides.map Stride.record) := by
  induction strides generalizing s with
  | nil => rfl
  | cons stride strides ih => exact ih (s.make tracer stride)

/-- Following a trail leads to its end. -/
theorem execution_follow (h : Trail program s.execution strides e) :
    (s.follow tracer strides).execution = e := by
  generalize hfrom : s.execution = first at h
  induction h generalizing s with
  | nil => exact hfrom
  | cons stride _ ih => exact @ih (s.make tracer stride) rfl

section Step

variable (stride : Stride program) (h : s.execution = stride.before)

include h

/-- At a stride, the answer of the tracer decides. -/
theorem step_of_stride_eq_ite :
    s.step program tracer =
      if (tracer.record stride.record s.trace).2 then
        (s.make tracer stride, .ok stride.after.state)
      else
        (s.interrupt tracer stride, .error .traceFailed) := by
  have hactive : s.execution.state = .active := h ▸ stride.active
  have hcurrent : s.execution.current? program = some (stride.slot, stride.report) :=
    h ▸ stride.current
  have hlog (events : List Event) (event : Event) :
      (s.log ++ events).push event = s.log ++ (events ++ [event]) := by
    apply Array.toList_inj.1
    simp
  rw [step_of_ok hactive hcurrent stride.result, make, interrupt, Stride.after, Stride.record,
    Stride.events, ← h, ← hlog]
  rfl

/-- **A step makes the stride of its execution** when the tracer takes the
record. -/
theorem step_of_taken (htaken : (tracer.record stride.record s.trace).2 = true) :
    s.step program tracer = (s.make tracer stride, .ok stride.after.state) := by
  rw [step_of_stride_eq_ite stride h, if_pos htaken]

/-- **A step whose record is refused** makes the effect of its stride and stays
where it is. -/
theorem step_of_refused (hrefused : (tracer.record stride.record s.trace).2 = false) :
    s.step program tracer = (s.interrupt tracer stride, .error .traceFailed) := by
  rw [step_of_stride_eq_ite stride h, if_neg (Bool.eq_false_iff.1 hrefused)]

end Step

/-- **What a step can do, told by strides**: nothing, the end, a fault, or a stride. -/
theorem step_cases (program : Program) (tracer : Tracer σ) (s : Session σ) :
    (s.execution.state ≠ .active ∧ s.step program tracer = (s, .ok s.execution.state)) ∨
      (s.execution.current? program = none ∧
        s.step program tracer = ({ s with execution.state := .finished }, .ok .finished)) ∨
      (∃ slot report fault, s.execution.current? program = some (slot, report) ∧
        report.result = .error fault ∧
        s.step program tracer = (s.note report.events, .error fault)) ∨
      ∃ stride : Stride program, stride.before = s.execution ∧
        s.step program tracer =
          if (tracer.record stride.record s.trace).2 then
            (s.make tracer stride, .ok stride.after.state)
          else
            (s.interrupt tracer stride, .error .traceFailed) := by
  by_cases hactive : s.execution.state = .active
  · rcases hcurrent : s.execution.current? program with _ | ⟨slot, report⟩
    · exact .inr (.inl ⟨rfl, step_of_pastEnd hactive hcurrent⟩)
    · rcases hresult : report.result with fault | ⟨effect, control⟩
      · exact .inr (.inr (.inl ⟨slot, report, fault, rfl, hresult,
          step_of_fault hactive hcurrent hresult⟩))
      · let stride : Stride program :=
          ⟨s.execution, slot, report, effect, control, hactive, hcurrent, hresult⟩
        exact .inr (.inr (.inr ⟨stride, rfl, step_of_stride_eq_ite stride rfl⟩))
  · exact .inl ⟨hactive, step_of_ne_active hactive⟩

/-- A step at the end of an execution changes nothing of it. -/
theorem step_of_atEnd {result : Except Fault Outcome} (h : s.execution.AtEnd program result) :
    (s.step program tracer).1.execution = s.execution ∧
      (s.step program tracer).1.trace = s.trace := by
  cases h with
  | stopped hover =>
    rw [step_of_ne_active hover]
    exact ⟨rfl, rfl⟩
  | fault hactive hcurrent hresult =>
    rw [step_of_fault hactive hcurrent hresult]
    exact ⟨rfl, rfl⟩

/-- **Single steps follow the trail.** -/
theorem iterate_step_of_trail (hreliable : tracer.Reliable)
    (h : Trail program s.execution strides e) :
    (fun s => (s.step program tracer).1)^[strides.length] s = s.follow tracer strides := by
  generalize hfrom : s.execution = first at h
  induction h generalizing s with
  | nil => rfl
  | @cons stride strides e _ ih =>
    rw [List.length_cons, Function.iterate_succ_apply,
      step_of_taken stride hfrom (hreliable _ _)]
    exact @ih (s.make tracer stride) rfl

/-- **A run comes by the end of each stretch** whose records its tracer takes. -/
theorem runFor_of_stretch (h : Stretch program limit s.execution strides e)
    (htakes : tracer.Takes s.trace (strides.map Stride.record)) (rounds : Nat) :
    s.runFor program limit tracer (strides.length + rounds) =
      (s.follow tracer strides).runFor program limit tracer rounds := by
  obtain ⟨htrail, hbelow⟩ := h
  generalize hfrom : s.execution = first at htrail
  induction htrail generalizing s with
  | nil => rw [List.length_nil, Nat.zero_add]; rfl
  | @cons stride strides e _ ih =>
    obtain ⟨hhere, hlater⟩ := List.forall_mem_cons.1 hbelow
    have hactive : s.execution.state = .active := hfrom ▸ stride.active
    have hnone := hhere.filter_eq_none
    rw [← hfrom] at hnone
    rw [List.length_cons, Nat.add_right_comm, runFor, if_pos hactive, hnone]
    simp only [step_of_taken stride hfrom htakes.1]
    exact @ih (s.make tracer stride) htakes.2 hlater rfl

/-- A run without refusals comes by the end of each trail that its limit allows. -/
theorem runFor_of_trail (hreliable : tracer.Reliable) (h : Trail program s.execution strides e)
    (hlimit : ∀ n ∈ limit, e.operations ≤ n) (rounds : Nat) :
    s.runFor program limit tracer (strides.length + rounds) =
      (s.follow tracer strides).runFor program limit tracer rounds :=
  runFor_of_stretch (h.stretch hlimit) (hreliable.takes _ _) rounds

end Session

end TeachAsm
