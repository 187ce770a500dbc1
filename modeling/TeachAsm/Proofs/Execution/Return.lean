import TeachAsm.Proofs.Execution.Limit
/-!
# Runs that return

A run goes round after round, and has no result as long as there is something
left to do. `Session.Runs` says that it returns after some number of rounds; more
rounds change nothing then (`runFor_of_le`), and there is one result
(`Runs.unique`). `run` itself has more rounds than 64 bits can number operations,
so that it returns wherever the count of operations fits (`run_eq_of_runs`).

Where a run comes to does not depend on its tracer, as long as the tracer takes
the records. In a number of rounds an execution `Comes` to the end of a stretch,
which is either as long as there are rounds or ends where the run stops
(`Execution.Stops`): at the end of the execution, or at the limit. A run does as
it says while its tracer takes the records (`runFor_of_comes`), and has made the
effect of the next stride when a record is refused (`runFor_of_refused`).
-/

namespace TeachAsm

/-! ## Where runs stop -/

/-- **Where a run with a limit stops**, and the result it then has: at the end of
the execution, or in front of a step that the limit does not allow. -/
inductive Execution.Stops (program : Program) (limit : Option Nat) (e : Execution) :
    Except Fault Outcome → Prop
  | atEnd {result : Except Fault Outcome} (hend : e.AtEnd program result)
      (hbelow : e.state = .active → e.Below limit) : Stops program limit e result
  | exhausted {n : Nat} (hactive : e.state = .active) (hn : n ∈ limit)
      (hle : n ≤ e.operations) : Stops program limit e (.error (.stepLimit n))

/-- **Where an execution comes to** in a number of rounds. -/
inductive Execution.Comes (program : Program) (limit : Option Nat) (e : Execution) (rounds : Nat) :
    List (Stride program) → Execution → Option (Except Fault Outcome) → Prop
  /-- There are no rounds left. -/
  | unfinished {strides : List (Stride program)} {e' : Execution}
      (hstretch : Stretch program limit e strides e') (hlength : strides.length = rounds) :
      Comes program limit e rounds strides e' none
  /-- There is no step to be made. -/
  | stopped {strides : List (Stride program)} {e' : Execution} {result : Except Fault Outcome}
      (hstretch : Stretch program limit e strides e') (hlength : strides.length < rounds)
      (hstops : e'.Stops program limit result) :
      Comes program limit e rounds strides e' (some result)

namespace Execution

variable {program : Program} {limit : Option Nat} {rounds : Nat} {e e' e'' : Execution}
variable {strides others : List (Stride program)} {result result' : Except Fault Outcome}
variable {ending : Option (Except Fault Outcome)}

/-- No stretch leads on from where a run stops. -/
theorem Stops.eq_nil (h : e.Stops program limit result)
    (hstretch : Stretch program limit e strides e') : strides = [] := by
  cases h with
  | atEnd hend => exact hend.eq_nil hstretch.trail
  | exhausted _ hn hle =>
    obtain ⟨htrail, hbelow⟩ := hstretch
    cases htrail with
    | nil => rfl
    | cons stride => exact absurd (hbelow stride List.mem_cons_self _ hn) (Nat.not_lt.2 hle)

theorem Stops.unique (h : e.Stops program limit result) (h' : e.Stops program limit result') :
    result = result' := by
  cases h with
  | atEnd hend hbelow =>
    cases h' with
    | atEnd hend' => exact hend.unique hend'
    | exhausted hactive hn hle => exact absurd (hbelow hactive _ hn) (Nat.not_lt.2 hle)
  | exhausted hactive hn hle =>
    cases h' with
    | atEnd _ hbelow => exact absurd (hbelow hactive _ hn) (Nat.not_lt.2 hle)
    | exhausted _ hn' _ => rw [Option.mem_unique hn hn']

/-- **There is one stretch to where a run stops**, and it begins with every
other stretch. -/
theorem Stops.exists_append (h : e'.Stops program limit result)
    (hstretch : Stretch program limit e strides e')
    (hother : Stretch program limit e others e'') :
    ∃ later, strides = others ++ later ∧ Stretch program limit e'' later e' := by
  rcases Nat.le_total others.length strides.length with hle | hge
  · obtain ⟨later, rfl, -⟩ := hother.trail.exists_append hstretch.trail hle
    obtain ⟨mid, hfront, hback⟩ := Stretch.append_iff.1 hstretch
    obtain ⟨-, rfl⟩ := hfront.trail.eq_of_length_eq hother.trail rfl
    exact ⟨later, rfl, hback⟩
  · obtain ⟨later, rfl, -⟩ := hstretch.trail.exists_append hother.trail hge
    obtain ⟨mid, hfront, hback⟩ := Stretch.append_iff.1 hother
    obtain ⟨-, rfl⟩ := hfront.trail.eq_of_length_eq hstretch.trail rfl
    obtain rfl := h.eq_nil hback
    cases hback.trail
    exact ⟨[], by simp, ⟨.nil _, by simp⟩⟩

/-- **There is one place where a run stops.** -/
theorem Stops.eq_of_stretch (h : e'.Stops program limit result)
    (h' : e''.Stops program limit result') (hstretch : Stretch program limit e strides e')
    (hother : Stretch program limit e others e'') :
    strides = others ∧ e' = e'' ∧ result = result' := by
  obtain ⟨later, rfl, hlater⟩ := h.exists_append hstretch hother
  obtain rfl := h'.eq_nil hlater
  cases hlater.trail
  exact ⟨List.append_nil _, rfl, h.unique h'⟩

/-- An execution stops, or has a stride that the limit allows. -/
theorem Sound.exists_stride_or_stops (hs : e.Sound program) (limit : Option Nat) :
    (∃ stride : Stride program, stride.before = e ∧ e.Below limit) ∨
      ∃ result, e.Stops program limit result := by
  by_cases hbelow : e.Below limit
  · rcases hs.exists_stride_or_atEnd with ⟨stride, hstride⟩ | ⟨result, hend⟩
    · exact .inl ⟨stride, hstride, hbelow⟩
    · exact .inr ⟨result, .atEnd hend fun _ => hbelow⟩
  · obtain ⟨n, hn, hle⟩ : ∃ n ∈ limit, n ≤ e.operations := by
      simpa [Below] using hbelow
    by_cases hactive : e.state = .active
    · exact .inr ⟨_, .exhausted hactive hn hle⟩
    · exact .inr ⟨_, .atEnd (.stopped hactive) fun h => absurd h hactive⟩

/-- **In any number of rounds an execution comes somewhere.** -/
theorem Sound.exists_comes (hs : e.Sound program) (hwf : program.WellFormed) (limit : Option Nat)
    (rounds : Nat) : ∃ strides e' ending, e.Comes program limit rounds strides e' ending := by
  induction rounds generalizing e with
  | zero => exact ⟨[], e, none, .unfinished ⟨.nil e, by simp⟩ rfl⟩
  | succ rounds ih =>
    rcases hs.exists_stride_or_stops limit with ⟨stride, rfl, hbelow⟩ | ⟨result, hstops⟩
    · obtain ⟨strides, e', ending, hcomes⟩ := ih (hs.moved hwf stride.moved)
      refine ⟨stride :: strides, e', ending, ?_⟩
      -- the stride is made in the first round, and the other rounds are left
      have hcons (h : Stretch program limit stride.after strides e') :
          Stretch program limit stride.before (stride :: strides) e' :=
        ⟨.cons stride h.trail, List.forall_mem_cons.2 ⟨hbelow, h.below⟩⟩
      cases hcomes with
      | unfinished hstretch hlength => exact .unfinished (hcons hstretch) (by simp [hlength])
      | stopped hstretch hlength hstops => exact .stopped (hcons hstretch) (by simpa) hstops
    · exact ⟨[], e, some result, .stopped ⟨.nil e, by simp⟩ (Nat.succ_pos _) hstops⟩

/-- The strides to where an execution comes are a stretch. -/
theorem Comes.stretch (h : e.Comes program limit rounds strides e' ending) :
    Stretch program limit e strides e' := by
  cases h with
  | unfinished hstretch | stopped hstretch => exact hstretch

theorem Comes.length_le (h : e.Comes program limit rounds strides e' ending) :
    strides.length ≤ rounds := by
  cases h with
  | unfinished _ hlength => exact Nat.le_of_eq hlength
  | stopped _ hlength => exact Nat.le_of_lt hlength

end Execution

/-! ## Sessions -/

namespace Session

open Execution

variable {σ : Type} {program : Program} {limit : Option Nat} {tracer : Tracer σ} {rounds : Nat}
variable {s s' s'' : Session σ} {e : Execution} {strides front back : List (Stride program)}
variable {stride : Stride program} {result result' : Except Fault Outcome}
variable {ending : Option (Except Fault Outcome)}

/-- An execution that is carried on, with a tracer that has not been offered
anything yet. -/
def resumed (e : Execution) (trace : σ) (log : Array Event) : Session (σ × List Record) :=
  ⟨e, (trace, []), log⟩

theorem runFor_of_stops (h : s.execution.Stops program limit result) (rounds : Nat) :
    (s.runFor program limit tracer (rounds + 1)).2 = some result ∧
      (s.runFor program limit tracer (rounds + 1)).1.execution = s.execution ∧
      (s.runFor program limit tracer (rounds + 1)).1.trace = s.trace := by
  cases h with
  | atEnd hend hbelow => exact runFor_of_atEnd hend hbelow rounds
  | exhausted hactive hn hle =>
    obtain rfl := Option.mem_def.1 hn
    rw [runFor_of_limit hactive hle]
    exact ⟨rfl, rfl, rfl⟩

/-- **A run comes to where its execution does**, if the tracer takes the records
on the way. -/
theorem runFor_of_comes (h : s.execution.Comes program limit rounds strides e ending)
    (htakes : tracer.Takes s.trace (strides.map Stride.record)) :
    (s.runFor program limit tracer rounds).2 = ending ∧
      (s.runFor program limit tracer rounds).1.execution = e ∧
      (s.runFor program limit tracer rounds).1.trace =
        tracer.after s.trace (strides.map Stride.record) := by
  have hexecution := @execution_follow _ _ tracer _ _ _ h.stretch.trail
  have htrace := trace_follow tracer s strides
  cases h with
  | unfinished hstretch hlength =>
    have hrun := runFor_of_stretch hstretch htakes 0
    rw [Nat.add_zero, hlength] at hrun
    rw [hrun]
    exact ⟨rfl, hexecution, htrace⟩
  | stopped hstretch hlength hstops =>
    obtain ⟨more, rfl⟩ := Nat.exists_eq_add_of_lt hlength
    rw [← hexecution] at hstops
    rw [Nat.add_assoc, runFor_of_stretch hstretch htakes]
    obtain ⟨hresult, hsame, hkept⟩ := runFor_of_stops hstops more
    exact ⟨hresult, hsame.trans hexecution, hkept.trans htrace⟩

/-- **A run whose tracer refuses a record** fails there: the effect of the stride
has been made, and execution has not moved on. -/
theorem runFor_of_refused
    (h : s.execution.Comes program limit rounds (front ++ stride :: back) e ending)
    (htakes : tracer.Takes s.trace (front.map Stride.record))
    (hrefused : (tracer.record stride.record
      (tracer.after s.trace (front.map Stride.record))).2 = false) :
    s.runFor program limit tracer rounds =
      ((s.follow tracer front).interrupt tracer stride, some (.error .traceFailed)) := by
  have hle := h.length_le
  obtain ⟨mid, hfront, htrail, hbelow⟩ := Stretch.append_iff.1 h.stretch
  cases htrail
  rw [List.length_append, List.length_cons] at hle
  obtain ⟨more, rfl⟩ := Nat.exists_eq_add_of_le hle
  have hexecution := @execution_follow _ _ tracer _ _ _ hfront.trail
  have hactive : (s.follow tracer front).execution.state = .active := hexecution ▸ stride.active
  have hnone := (hbelow stride List.mem_cons_self).filter_eq_none
  rw [← trace_follow] at hrefused
  rw [← hexecution] at hnone
  have hrounds : front.length + (back.length + 1) + more =
      front.length + (back.length + more + 1) := by omega
  rw [hrounds, runFor_of_stretch hfront htakes, runFor, if_pos hactive, hnone]
  simp only [step_of_refused stride hexecution hrefused]

/-! ## Returning -/

/-- **A run returns**: after some number of rounds it has a result. -/
def Runs (program : Program) (limit : Option Nat) (tracer : Tracer σ) (s s' : Session σ)
    (result : Except Fault Outcome) : Prop :=
  ∃ rounds, s.runFor program limit tracer rounds = (s', some result)

/-- **More rounds change nothing** once there is a result. -/
theorem runFor_of_le {more : Nat} (h : s.runFor program limit tracer rounds = (s', some result))
    (hle : rounds ≤ more) : s.runFor program limit tracer more = (s', some result) := by
  induction rounds generalizing s more with
  | zero => cases h
  | succ rounds ih =>
    obtain ⟨more, rfl⟩ : ∃ k, more = k + 1 := ⟨more - 1, by omega⟩
    have hle : rounds ≤ more := Nat.le_of_succ_le_succ hle
    -- a round that is not the last leaves the result to those after it
    unfold runFor at h ⊢
    split
    · next hactive =>
      rw [if_pos hactive] at h
      split
      · next n hn => simpa only [hn] using h
      · next hn =>
        simp only [hn] at h
        rcases hstep : s.step program tracer with ⟨next, fault | state⟩
        · simpa only [hstep] using h
        · simp only [hstep] at h ⊢
          exact ih h hle
    · next hactive => rwa [if_neg hactive] at h

/-- **A run has one result**, and leaves one session behind. -/
theorem Runs.unique (h : Runs program limit tracer s s' result)
    (h' : Runs program limit tracer s s'' result') : s' = s'' ∧ result = result' := by
  obtain ⟨rounds, hrun⟩ := h
  obtain ⟨rounds', hrun'⟩ := h'
  have hmore := runFor_of_le hrun (Nat.le_max_left rounds rounds')
  have hmore' := runFor_of_le hrun' (Nat.le_max_right rounds rounds')
  obtain ⟨hs, hresult⟩ := Prod.mk.inj (hmore.symm.trans hmore')
  exact ⟨hs, Option.some.inj hresult⟩

theorem runs_of_run (h : (s.run program limit tracer).2 = some result) :
    Runs program limit tracer s (s.run program limit tracer).1 result :=
  ⟨capacity + 1, by rw [← h]; rfl⟩

/-- Where a stretch ends and the run stops, it returns. -/
theorem exists_runs_of_stretch (hstretch : Stretch program limit s.execution strides e)
    (hstops : e.Stops program limit result)
    (htakes : tracer.Takes s.trace (strides.map Stride.record)) :
    ∃ s', Runs program limit tracer s s' result ∧ s'.execution = e ∧
      s'.trace = tracer.after s.trace (strides.map Stride.record) := by
  have hcomes := Comes.stopped hstretch (Nat.lt_succ_self _) hstops
  obtain ⟨hresult, hexecution, htrace⟩ := runFor_of_comes hcomes htakes
  exact ⟨_, ⟨_, Prod.ext rfl hresult⟩, hexecution, htrace⟩

/-- **How a run returns**: at the end of a stretch where it stops, or at a stride
whose record is refused. -/
theorem Runs.stretch_or_refused (h : Runs program limit tracer s s' result)
    (hs : s.execution.Sound program) (hwf : program.WellFormed) :
    (∃ strides, Stretch program limit s.execution strides s'.execution ∧
        s'.execution.Stops program limit result ∧
        s'.trace = tracer.after s.trace (strides.map Stride.record)) ∨
      ∃ (front : List (Stride program)) (stride : Stride program),
        Stretch program limit s.execution front stride.before ∧
        (tracer.record stride.record
          (tracer.after s.trace (front.map Stride.record))).2 = false ∧
        result = .error .traceFailed ∧
        s' = (s.follow tracer front).interrupt tracer stride := by
  obtain ⟨rounds, hrun⟩ := h
  obtain ⟨strides, e, ending, hcomes⟩ := hs.exists_comes hwf limit rounds
  by_cases htakes : tracer.Takes s.trace (strides.map Stride.record)
  · obtain ⟨hresult, rfl, htrace⟩ := runFor_of_comes hcomes htakes
    rw [hrun] at hresult htrace hcomes
    obtain rfl : ending = some result := hresult.symm
    cases hcomes with
    | stopped hstretch _ hstops => exact .inl ⟨strides, hstretch, hstops, htrace⟩
  · obtain ⟨_, _, _, hsplit, htaken, hrefused⟩ := Tracer.exists_refused_of_not_takes htakes
    obtain ⟨front, stride, back, rfl, rfl, rfl, rfl⟩ := Stride.exists_append_of_map_record hsplit
    obtain ⟨hs', hresult⟩ := Prod.mk.inj
      (hrun.symm.trans (runFor_of_refused hcomes htaken hrefused))
    obtain ⟨_, hfront, hstride⟩ := Stretch.append_iff.1 hcomes.stretch
    cases hstride.trail
    exact .inr ⟨front, stride, hfront, hrefused, Option.some.inj hresult, hs'⟩

/-- With a tracer that takes whatever it is offered, a run returns at the end of a
stretch. -/
theorem Runs.exists_stretch_of_takes (h : Runs program limit tracer s s' result)
    (hs : s.execution.Sound program) (hwf : program.WellFormed)
    (htakes : ∀ records, tracer.Takes s.trace records) :
    ∃ strides, Stretch program limit s.execution strides s'.execution ∧
      s'.execution.Stops program limit result ∧
      s'.trace = tracer.after s.trace (strides.map Stride.record) := by
  rcases h.stretch_or_refused hs hwf with hstretch | ⟨front, stride, -, hrefused, -⟩
  · exact hstretch
  · rw [(Tracer.takes_concat_iff.1 (htakes _)).2] at hrefused
    cases hrefused

theorem Runs.exists_stretch (h : Runs program limit tracer s s' result)
    (hs : s.execution.Sound program) (hwf : program.WellFormed) (hreliable : tracer.Reliable) :
    ∃ strides, Stretch program limit s.execution strides s'.execution ∧
      s'.execution.Stops program limit result ∧
      s'.trace = tracer.after s.trace (strides.map Stride.record) :=
  h.exists_stretch_of_takes hs hwf (hreliable.takes s.trace)

/-- **Where the count of operations fits in 64 bits, `run` returns** whenever a
run returns at all. -/
theorem run_eq_of_runs_of_takes (h : Runs program limit tracer s s' result)
    (hs : s.execution.Sound program) (hwf : program.WellFormed)
    (htakes : ∀ records, tracer.Takes s.trace records)
    (hfits : s'.execution.operations < UInt64.size) :
    s.run program limit tracer = (s', some result) := by
  obtain ⟨strides, hstretch, hstops, -⟩ := h.exists_stretch_of_takes hs hwf htakes
  have hoperations := hstretch.trail.operations_eq
  have hlength : strides.length < capacity + 1 := by
    rw [capacity]
    omega
  obtain ⟨hresult, -⟩ := runFor_of_comes (.stopped hstretch hlength hstops) (htakes _)
  obtain ⟨hsame, -⟩ := h.unique (runs_of_run hresult)
  exact Prod.ext hsame.symm hresult

theorem run_eq_of_runs (h : Runs program limit tracer s s' result)
    (hs : s.execution.Sound program) (hwf : program.WellFormed) (hreliable : tracer.Reliable)
    (hfits : s'.execution.operations < UInt64.size) :
    s.run program limit tracer = (s', some result) :=
  run_eq_of_runs_of_takes h hs hwf (hreliable.takes s.trace) hfits

end Session

end TeachAsm
