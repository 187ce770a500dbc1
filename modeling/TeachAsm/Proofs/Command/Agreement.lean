import TeachAsm.Command.Response
import TeachAsm.Proofs.Execution.Drive
/-!
# All ways to run a program agree

A program may be run from its source, from a file, by single steps, and by the command.
A file that holds a source is loaded as the source is, and stepping does what a run does,
so that these agree by what has been shown of runs. The command runs a program with one
of two tracers. Both mirror one that collects bytes (`Invocation.mirrors_collecting`), so
that the answer of the command is told by a run that does not depend on which of them it
is (`Invocation.respond_of_ok`): a wish for quiet takes away the output, and nothing else
(`Run.entry_points_agree`).
-/

namespace TeachAsm

/-! ## Files -/

/-- Bytes that encode a text are decoded to it. -/
theorem Text.fromUTF8?_utf8 (t : Text) : String.fromUTF8? t.utf8 = some (String.ofList t) :=
  dif_pos (String.ofList t).isValidUTF8

/-- **A file that holds a source is loaded as the source is.** -/
theorem Program.ofFile_utf8 (path source : Text) :
    ofFile path (some source.utf8) = ofSource source := by
  rw [ofFile, Option.bind_some, Text.fromUTF8?_utf8]
  simp only [String.toList_ofList]

namespace Run

open Session

variable {σ : Type} {source : Text} {program : Program}

/-- **What is run from the start of a program is what single steps do.** -/
theorem drives_of_result (hload : (Program.ofSource source).result = .ok program)
    {limit : Option Nat} {tracer : Tracer σ} {trace : σ} {result : Except Fault Outcome}
    (h : (ofSource source limit tracer trace).result = some result) :
    ∃ s, Drives program limit tracer
        (.start program trace (Program.ofSource source).events.toArray) s result ∧
      (ofSource source limit tracer trace).trace = s.trace := by
  rw [ofSource_of_ok hload] at h ⊢
  obtain ⟨s, hdrives, hended⟩ := runs_iff_drives.1 (runs_of_run h)
  refine ⟨s, hdrives, ?_⟩
  rw [hended]
  rfl

/-- And back, as far as operations can be counted. -/
theorem result_of_drives (hload : (Program.ofSource source).result = .ok program)
    {limit : Option Nat} {tracer : Tracer σ} {trace : σ}
    (htakes : ∀ records, tracer.Takes trace records) {s : Session σ}
    {result : Except Fault Outcome}
    (h : Drives program limit tracer
      (.start program trace (Program.ofSource source).events.toArray) s result)
    (hfits : s.execution.operations < UInt64.size) :
    (ofSource source limit tracer trace).result = some result ∧
      (ofSource source limit tracer trace).trace = s.trace := by
  have hrun := run_eq_of_runs_of_takes h.runs (Execution.sound_start program)
    (Program.wellFormed_of_ofSource hload) htakes hfits
  rw [ofSource_of_ok hload]
  exact ⟨congrArg Prod.snd hrun, congrArg (·.1.trace) hrun⟩

end Run

/-! ## The two tracers of the command -/

/-- Collects the blocks of records. -/
def Tracer.collecting : Tracer ByteArray :=
  ⟨fun record bytes => (bytes ++ record.block.utf8, true)⟩

/-- The sink that holds some bytes. -/
def Sink.holding (bytes : ByteArray) : Sink :=
  { bytes := bytes }

theorem Tracer.mirrors_text_collecting : Tracer.text.Mirrors Sink.holding collecting :=
  fun _ _ => rfl

namespace Invocation

variable {invocation : Invocation} {contents : Option ByteArray} {program : Program}

/-- What of some bytes goes to the output of the command. -/
def sink (invocation : Invocation) (bytes : ByteArray) : Sink :=
  .holding (if invocation.quiet then .empty else bytes)

/-- **With quiet or without, the same is traced**, if not written. -/
theorem mirrors_collecting (invocation : Invocation) :
    invocation.tracer.Mirrors invocation.sink .collecting := by
  intro record bytes
  rw [tracer]
  unfold sink
  split <;> rfl

theorem respond_of_error {fault : Fault}
    (hload : (Program.ofFile invocation.path contents).result = .error fault) :
    invocation.respond contents =
      some (.ran .empty (Program.ofFile invocation.path contents).events.toArray
        (some (.load invocation.path fault))) := by
  simp only [respond, hload]

/-- **The answer of the command is told by a run that collects its trace.** -/
theorem respond_of_ok (hload : (Program.ofFile invocation.path contents).result = .ok program) :
    let ended := (Session.start program ByteArray.empty
      (Program.ofFile invocation.path contents).events.toArray).run program invocation.limit
        .collecting
    invocation.respond contents = ended.2.map fun result =>
      .ran (invocation.sink ended.1.trace).bytes
        (ended.1.log ++ (invocation.conclude ended.1.execution result).1)
        (invocation.conclude ended.1.execution result).2 := by
  intro ended
  let log := (Program.ofFile invocation.path contents).events.toArray
  have hfirst : Session.start program {} log =
      (Session.start program ByteArray.empty log).mapTrace invocation.sink := by
    have hempty : {} = invocation.sink .empty := by
      unfold sink
      split <;> rfl
    exact congrArg (Session.start program · log) hempty
  have hrun : (Session.start program {} log).run program invocation.limit invocation.tracer =
      (ended.1.mapTrace invocation.sink, ended.2) := by
    rw [hfirst]
    exact Session.runFor_mapTrace invocation.mirrors_collecting (Session.capacity + 1)
      (Session.start program ByteArray.empty log)
  simp only [respond, hload]
  rw [hrun]
  rfl

end Invocation

/-! ## Answers -/

/-- The two contexts are told apart, whatever the paths are. -/
theorem Failure.context_load_ne_context_run (path path' : Text) (fault fault' : Fault) :
    (load path fault).context ≠ (run path' fault').context := by
  intro h
  have hchars : ("failed to load `" ++ String.ofList path ++ "`").toList =
      ("failed to run `" ++ String.ofList path' ++ "`").toList := congrArg String.toList h
  rw [String.toList_append, String.toList_append, String.toList_append, String.toList_append,
    List.append_assoc, List.append_assoc] at hchars
  have hfirst := congrArg (List.take 11) hchars
  rw [List.take_append_of_le_length (by decide),
    List.take_append_of_le_length (by decide)] at hfirst
  exact absurd hfirst (by decide)

namespace Response

/-- What an answer writes to the output. -/
def output : Response → ByteArray
  | misuse => .empty
  | information text => text.toUTF8
  | ran output _ _ => output

/-- The failure that an answer tells of. -/
def failure? : Response → Option Failure
  | ran _ _ failure => failure
  | _ => none

/-- An answer without its trace. -/
def muted : Response → Response
  | ran _ log failure => ran .empty log failure
  | response => response

/-- **An answer tells what loading and running a file have come to**: by the exit code
and the context of its failure which of the two has failed, by the cause of it why, and by
the output how far the program has been run, but for quiet. -/
structure Tells (invocation : Invocation) (loaded : Report Program) (run : Run Sink)
    (response : Response) : Prop where
  exitCode_eq_zero_iff : response.exitCode = 0 ↔ ∃ outcome, run.result = some (.ok outcome)
  load_iff : (response.exitCode = 1 ∧ response.failure?.map Failure.context =
      some ("failed to load `" ++ String.ofList invocation.path ++ "`")) ↔
    ∃ fault, loaded.result = .error fault
  run_iff : (response.exitCode = 1 ∧ response.failure?.map Failure.context =
      some ("failed to run `" ++ String.ofList invocation.path ++ "`")) ↔
    (∃ program, loaded.result = .ok program) ∧ ∃ fault, run.result = some (.error fault)
  cause_eq : ∀ fault, run.result = some (.error fault) →
    response.failure?.map Failure.cause = some fault.message
  output_eq : response.output = if invocation.quiet then .empty else run.trace.bytes

end Response

namespace Invocation

variable {invocation : Invocation} {contents : Option ByteArray} {program : Program}

/-- **A program that is not loaded** is answered with its fault. -/
theorem tells_of_error {fault : Fault}
    (hload : (Program.ofFile invocation.path contents).result = .error fault) :
    let run := Run.ofFile invocation.path contents invocation.limit .text {}
    (invocation.respond contents = none ↔ run.result = none) ∧
      ∀ response, invocation.respond contents = some response →
        response.Tells invocation (Program.ofFile invocation.path contents) run := by
  intro run
  have hrun : run = ⟨{}, (Program.ofFile invocation.path contents).events.toArray,
      some (.error fault)⟩ := Run.ofReport_of_error hload invocation.limit .text {}
  have hrespond := respond_of_error hload
  refine ⟨by simp [hrespond, hrun], fun response h => ?_⟩
  obtain rfl := Option.some.inj (hrespond.symm.trans h)
  rw [hrun]
  exact {
    exitCode_eq_zero_iff := by simp [Response.exitCode]
    load_iff := iff_of_true ⟨rfl, rfl⟩ ⟨fault, hload⟩
    run_iff := by
      refine iff_of_false (fun ⟨_, hcontext⟩ => ?_) (fun ⟨⟨_, hok⟩, _⟩ => ?_)
      · exact Failure.context_load_ne_context_run _ _ fault fault (Option.some.inj hcontext)
      · rw [hload] at hok
        cases hok
    cause_eq := by
      rintro _ ⟨⟩
      rfl
    output_eq := (ite_self _).symm }

/-- **A program that is loaded** is answered with what its run comes to. -/
theorem tells_of_ok (hload : (Program.ofFile invocation.path contents).result = .ok program) :
    let run := Run.ofFile invocation.path contents invocation.limit .text {}
    (invocation.respond contents = none ↔ run.result = none) ∧
      ∀ response, invocation.respond contents = some response →
        response.Tells invocation (Program.ofFile invocation.path contents) run := by
  intro run
  have hrespond := respond_of_ok hload
  have hrun : run = (Run.ofFile invocation.path contents invocation.limit .collecting
      .empty).mapTrace Sink.holding :=
    Run.ofReport_mapTrace Tracer.mirrors_text_collecting _ invocation.limit .empty
  rw [Run.ofFile, Run.ofReport_of_ok hload] at hrun
  generalize (Session.start program ByteArray.empty
    (Program.ofFile invocation.path contents).events.toArray).run program invocation.limit
      .collecting = ended at hrespond hrun
  have hnoload : ¬ ∃ fault, (Program.ofFile invocation.path contents).result = .error fault := by
    rintro ⟨fault, hfault⟩
    rw [hload] at hfault
    cases hfault
  have houtput : (invocation.sink ended.1.trace).bytes =
      if invocation.quiet then .empty else ended.1.trace := rfl
  refine ⟨by rw [hrespond, Option.map_eq_none_iff, hrun]; rfl, fun response h => ?_⟩
  rw [hrespond] at h
  obtain ⟨result, hended, rfl⟩ := Option.map_eq_some_iff.1 h
  rw [hended] at hrun
  rw [hrun]
  cases result with
  | ok outcome =>
    exact {
      exitCode_eq_zero_iff := iff_of_true rfl ⟨outcome, rfl⟩
      load_iff := iff_of_false (fun ⟨hcode, _⟩ => absurd hcode Nat.zero_ne_one) hnoload
      run_iff := by
        refine iff_of_false (fun ⟨hcode, _⟩ => absurd hcode Nat.zero_ne_one) ?_
        rintro ⟨-, fault, ⟨⟩⟩
      cause_eq := by
        rintro _ ⟨⟩
      output_eq := houtput }
  | error fault =>
    exact {
      exitCode_eq_zero_iff := by simp [Response.exitCode, conclude, Run.mapTrace]
      load_iff := by
        refine iff_of_false (fun ⟨_, hcontext⟩ => ?_) hnoload
        exact Failure.context_load_ne_context_run _ _ fault fault (Option.some.inj hcontext).symm
      run_iff := iff_of_true ⟨rfl, rfl⟩ ⟨⟨program, hload⟩, fault, rfl⟩
      cause_eq := by
        rintro _ ⟨⟩
        rfl
      output_eq := houtput }

/-- **Quiet takes away the output, and nothing else.** -/
theorem respond_quiet (invocation : Invocation) (contents : Option ByteArray) :
    { invocation with quiet := true }.respond contents =
      (invocation.respond contents).map Response.muted := by
  rcases hload : (Program.ofFile invocation.path contents).result with fault | program
  · rw [respond_of_error hload, @respond_of_error { invocation with quiet := true } _ _ hload]
    rfl
  · rw [respond_of_ok hload, @respond_of_ok { invocation with quiet := true } _ _ hload,
      Option.map_map]
    rfl

end Invocation

/-! ## All entry points -/

namespace Run

open Session

/-- **All entry points agree.** A file in UTF-8 holds a source. It is run as that source
is, and this with the result and the trace of single steps, with the limit tested in
front of each, as far as operations can be counted. The command, with arguments that are
not mistaken, answers when a run of the file with the same limit returns: it ends with 0
just when there is an outcome, and with 1 and the cause otherwise, which is that the
program could not be loaded, or else that it could not be run. Its output is what the run
has written, and empty with quiet, which makes no other difference. -/
theorem entry_points_agree :
    (∀ contents : ByteArray, contents.IsValidUTF8 → ∃ source : Text, contents = source.utf8) ∧
    (∀ (path source : Text) {σ : Type} (limit : Option Nat) (tracer : Tracer σ) (trace : σ),
      (∀ records, tracer.Takes trace records) →
        let loaded := Program.ofSource source
        let run := ofSource source limit tracer trace
        ofFile path (some source.utf8) limit tracer trace = run ∧
        (∀ fault, loaded.result = .error fault →
          run.result = some (.error fault) ∧ run.trace = trace) ∧
        ∀ program, loaded.result = .ok program →
          let first := Session.start program trace loaded.events.toArray
          (∀ result, run.result = some result →
            ∃ s, Drives program limit tracer first s result ∧ run.trace = s.trace) ∧
          ∀ s result, Drives program limit tracer first s result →
            s.execution.operations < UInt64.size →
              run.result = some result ∧ run.trace = s.trace) ∧
    (∀ (arguments : List Text) (contents : Text → Option ByteArray) (invocation : Invocation),
      Request.ofArguments arguments = some (.run invocation) →
        let file := contents invocation.path
        let run := ofFile invocation.path file invocation.limit .text {}
        (Response.ofArguments arguments contents = none ↔ run.result = none) ∧
        ∀ response, Response.ofArguments arguments contents = some response →
          response.Tells invocation (Program.ofFile invocation.path file) run) ∧
    ∀ (arguments quietly : List Text) (contents : Text → Option ByteArray)
      (invocation : Invocation), Request.ofArguments arguments = some (.run invocation) →
        Request.ofArguments quietly = some (.run { invocation with quiet := true }) →
          Response.ofArguments quietly contents =
            (Response.ofArguments arguments contents).map Response.muted := by
  refine ⟨fun contents hvalid => ?_, fun path source {σ} limit tracer trace htakes => ?_,
    fun arguments contents invocation hrequest => ?_,
    fun arguments quietly contents invocation hrequest hquietly => ?_⟩
  · obtain ⟨source, rfl⟩ := hvalid
    exact ⟨source, rfl⟩
  · refine ⟨?_, fun fault hload => ?_, fun program hload =>
      ⟨fun result => drives_of_result hload, fun s result => result_of_drives hload htakes⟩⟩
    · rw [ofFile, Program.ofFile_utf8, ofSource]
    · rw [ofSource_of_error hload]
      exact ⟨rfl, rfl⟩
  · have hrespond : Response.ofArguments arguments contents =
        invocation.respond (contents invocation.path) := by
      rw [Response.ofArguments, hrequest]
    rw [hrespond]
    rcases hload : (Program.ofFile invocation.path (contents invocation.path)).result with
      fault | program
    · exact Invocation.tells_of_error hload
    · exact Invocation.tells_of_ok hload
  · rw [Response.ofArguments, Response.ofArguments, hrequest, hquietly]
    exact Invocation.respond_quiet invocation (contents invocation.path)

/-- A program that is stopped by its limit, after one step: as a source, by the command,
and by the command with quiet. -/
theorem entry_points_agree_loop :
    let source : Text := "[7]\nloop: B loop".toList
    let contents : Text → Option ByteArray := fun _ => some source.utf8
    let loud := ["loop.aqa".toList, "--max-steps".toList, "1".toList]
    let invocation : Invocation := { path := "loop.aqa".toList, limit := some 1 }
    let program : Program :=
      { image := ⟨#[7]⟩
        slots := #[⟨2, "loop:".toList, ⟨.label, [.label "loop".toList]⟩⟩,
          ⟨2, "B loop".toList, ⟨.branch .always, [.label "loop".toList]⟩⟩]
        labels := ⟨[⟨"loop".toList, 0, 2⟩]⟩ }
    let run := ofSource source (some 1) .text {}
    source.utf8.IsValidUTF8 ∧ (Program.ofSource source).result = .ok program ∧
      Request.ofArguments loud = some (.run invocation) ∧
      Request.ofArguments ("-q".toList :: loud) = some (.run { invocation with quiet := true }) ∧
      run.result = some (.error (.stepLimit 1)) ∧ run.trace.bytes.size = 102 ∧
      ofFile invocation.path (contents invocation.path) invocation.limit .text {} = run ∧
      ∃ response, Response.ofArguments loud contents = some response ∧
        response.exitCode = 1 ∧ response.output = run.trace.bytes ∧
        response.failure?.map Failure.context = some "failed to run `loop.aqa`" ∧
        response.failure?.map Failure.cause =
          some "step limit of 1 reached before the program halted" ∧
        Response.ofArguments ("-q".toList :: loud) contents = some response.muted := by
  intro source contents loud invocation program run
  have hload : (Program.ofSource source).result = .ok program := by decide +kernel
  have hloud : Request.ofArguments loud = some (.run invocation) := by decide +kernel
  have hquietly : Request.ofArguments ("-q".toList :: loud) =
      some (.run { invocation with quiet := true }) := by decide +kernel
  have hresult : run.result = some (.error (.stepLimit 1)) := by decide +kernel
  obtain ⟨-, hsources, hanswers, hquiet⟩ := entry_points_agree
  obtain ⟨hfile, -, -⟩ := hsources "loop.aqa".toList source (some 1) .text {}
    (Tracer.takes_text rfl)
  obtain ⟨hnone, htells⟩ := hanswers loud contents invocation hloud
  obtain ⟨response, hresponse⟩ :
      ∃ response, Response.ofArguments loud contents = some response := by
    refine Option.ne_none_iff_exists'.1 fun h => ?_
    rw [hnone, hfile, hresult] at h
    cases h
  have htold := htells response hresponse
  rw [hfile] at htold
  obtain ⟨hcode, hcontext⟩ := htold.run_iff.2
    ⟨⟨program, (congrArg Report.result (Program.ofFile_utf8 _ source)).trans hload⟩, _, hresult⟩
  refine ⟨(String.ofList source).isValidUTF8, hload, hloud, hquietly, hresult, by decide +kernel,
    hfile, response, hresponse, hcode, htold.output_eq, ?_, ?_, ?_⟩
  · rw [hcontext]
    decide +kernel
  · rw [htold.cause_eq _ hresult]
    decide +kernel
  · rw [hquiet loud _ contents invocation hloud hquietly, hresponse]
    rfl

end Run

end TeachAsm
