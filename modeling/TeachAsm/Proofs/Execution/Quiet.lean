import TeachAsm.Proofs.Execution.Room
/-!
# Following a program by hand

What a program computes is told slot by slot: where execution is, what the slot changes,
and where it goes next. `Execution.QuietlyReaches` puts such steps together as far as
none of them warns of anything. It is one step at a slot whose value is known
(`QuietlyReaches.of_slot`), and it may be chained. Where it leads to the end of an
execution a run ends there, with nothing but its steps in its log
(`Session.run_of_quietlyReaches`).
-/

namespace TeachAsm

namespace Execution

/-- **Strides lead from one execution to another, and none of them warns.** -/
def QuietlyReaches (program : Program) (e e' : Execution) : Prop :=
  ∃ strides, Trail program e strides e' ∧
    ∀ stride ∈ strides, ∀ event ∈ stride.events, event.isWarning = false

namespace QuietlyReaches

variable {program : Program} {e e' e'' : Execution}

theorem refl (program : Program) (e : Execution) : QuietlyReaches program e e :=
  ⟨[], .nil e, List.forall_mem_nil _⟩

theorem trans (h : QuietlyReaches program e e') (h' : QuietlyReaches program e' e'') :
    QuietlyReaches program e e'' := by
  obtain ⟨strides, htrail, hquiet⟩ := h
  obtain ⟨others, htrail', hquiet'⟩ := h'
  exact ⟨strides ++ others, Trail.append_iff.2 ⟨e', htrail, htrail'⟩,
    List.forall_mem_append.2 ⟨hquiet, hquiet'⟩⟩

instance : Trans (QuietlyReaches program) (QuietlyReaches program) (QuietlyReaches program) :=
  ⟨trans⟩

/-- **One slot.** It comes to an effect and a control, and tells nothing. -/
theorem of_slot {slot : Slot} (effect : Effect) (control : Control) (hactive : e.state = .active)
    (hslot : program.slots[e.counter]? = some slot)
    (hvalue : slot.instruction.evaluate ⟨program.labels, slot.line⟩ e.machine =
      ⟨[], .ok (effect, control)⟩) :
    QuietlyReaches program e ((e.commit effect).advance program.size control) := by
  let stride : Stride program :=
    ⟨e, slot, ⟨[], .ok (effect, control)⟩, effect, control, hactive,
      current?_eq_some_iff.2 ⟨hslot, hvalue.symm⟩, rfl⟩
  have hquiet : ∀ event ∈ stride.events, event.isWarning = false :=
    List.forall_mem_singleton.2 rfl
  exact ⟨[stride], .cons stride (.nil _), List.forall_mem_singleton.2 hquiet⟩

end QuietlyReaches

end Execution

namespace Session

variable {σ : Type} {program : Program} {tracer : Tracer σ} {s : Session σ} {e : Execution}

/-- **A run without a limit ends where quiet strides lead**, if they can be counted, and
adds no warning to its log. -/
theorem run_of_quietlyReaches (hreliable : tracer.Reliable)
    (h : s.execution.QuietlyReaches program e) (hover : e.state ≠ .active)
    (hfits : e.operations ≤ capacity) (hlog : ∀ event ∈ s.log.toList, event.isWarning = false) :
    (s.run program none tracer).2 = some (.ok e.outcome) ∧
      (s.run program none tracer).1.execution = e ∧
      ∀ event ∈ (s.run program none tracer).1.log.toList, event.isWarning = false := by
  obtain ⟨strides, htrail, hquiet⟩ := h
  have hoperations := htrail.operations_eq
  have hexecution := @execution_follow _ _ tracer _ _ _ htrail
  have hrounds : capacity + 1 = strides.length + (capacity - strides.length + 1) := by omega
  have hstopped : (s.follow tracer strides).execution.state ≠ .active := hexecution ▸ hover
  have hrun : s.run program none tracer =
      ((s.follow tracer strides).note [.stopped e.state e.operations], some (.ok e.outcome)) := by
    rw [run, hrounds, runFor_of_trail hreliable htrail (by simp), runFor, if_neg hstopped,
      hexecution]
    rfl
  rw [hrun]
  refine ⟨rfl, hexecution, ?_⟩
  have hnote : ((s.follow tracer strides).note [.stopped e.state e.operations]).log.toList =
      s.log.toList ++ strides.flatMap Stride.events ++ [.stopped e.state e.operations] := by
    rw [← log_follow]
    exact Array.toList_appendList
  rw [hnote]
  refine List.forall_mem_append.2 ⟨List.forall_mem_append.2 ⟨hlog, fun event hevent => ?_⟩,
    List.forall_mem_singleton.2 rfl⟩
  obtain ⟨stride, hstride, hevent⟩ := List.mem_flatMap.1 hevent
  exact hquiet stride hstride event hevent

end Session

end TeachAsm
