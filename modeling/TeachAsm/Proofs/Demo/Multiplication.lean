import TeachAsm.Proofs.Execution.Log
import TeachAsm.Proofs.Execution.Quiet
import TeachAsm.Proofs.Machine.Word
import TeachAsm.Proofs.Program.Reprinting
import TeachAsm.Proofs.Text.Layout
import TeachAsm.Proofs.Trace.Injective
/-!
# Multiplying by repeated addition

A program multiplies two words: it adds the one as often as the other says, and counts
the other down to zero. A round of its loop takes one off the counter and puts the
multiplicand into the accumulator (`reaches_round`). So the accumulator and the product
of the multiplicand and the counter keep their sum, and where the counter is zero the
accumulator is the product (`reaches_product`). This holds for negative words as well:
counting down from one of them comes to zero the long way round. `halts_with_product`
says it of a run of the source.
-/

namespace TeachAsm

namespace Multiplication

/-! ## The program -/

/-- The physical line in front of the memory image. -/
def heading : Text :=
  "// memory[2] = memory[0] * memory[1] by repeated addition".toList

/-- The physical lines behind the memory image. -/
def code : List Text :=
  ["",
    "        LDR R0, 0       // multiplicand",
    "        LDR R1, 1       // counter",
    "        MOV R2, #0      // accumulator",
    "loop:   CMP R1, #0",
    "        BEQ done",
    "        ADD R2, R2, R0",
    "        SUB R1, R1, #1",
    "        B loop",
    "done:   STR R2, 2",
    "        HALT"].map String.toList

/-- The source with a memory image: each line with a line feed behind it. -/
def source (image : Memory) : Text :=
  (heading :: image.text :: code).flatMap (· ++ ['\n'])

/-- The slots of the code. -/
def slots : List Slot :=
  [⟨4, "LDR R0, 0".toList, ⟨.load, [.register 0, .address 0]⟩⟩,
    ⟨5, "LDR R1, 1".toList, ⟨.load, [.register 1, .address 1]⟩⟩,
    ⟨6, "MOV R2, #0".toList, ⟨.copy, [.register 2, .operand (.immediate 0)]⟩⟩,
    ⟨7, "loop:".toList, ⟨.label, [.label "loop".toList]⟩⟩,
    ⟨7, "CMP R1, #0".toList, ⟨.compare, [.register 1, .operand (.immediate 0)]⟩⟩,
    ⟨8, "BEQ done".toList, ⟨.branch .equal, [.label "done".toList]⟩⟩,
    ⟨9, "ADD R2, R2, R0".toList,
      ⟨.compute .add, [.register 2, .register 2, .operand (.register 0)]⟩⟩,
    ⟨10, "SUB R1, R1, #1".toList,
      ⟨.compute .sub, [.register 1, .register 1, .operand (.immediate 1)]⟩⟩,
    ⟨11, "B loop".toList, ⟨.branch .always, [.label "loop".toList]⟩⟩,
    ⟨12, "done:".toList, ⟨.label, [.label "done".toList]⟩⟩,
    ⟨12, "STR R2, 2".toList, ⟨.store, [.register 2, .address 2]⟩⟩,
    ⟨13, "HALT".toList, ⟨.halt, []⟩⟩]

/-- The labels of the code. -/
def labels : Labels :=
  ⟨[⟨"done".toList, 9, 12⟩, ⟨"loop".toList, 3, 7⟩]⟩

/-- The program with a memory image. -/
def program (image : Memory) : Program :=
  ⟨image, slots.toArray, labels⟩

/-- The image is a line of code, on the second physical line. -/
theorem ofSource_source (image : Memory) :
    Line.ofSource (source image) =
      ⟨2, image.text⟩ :: Line.ofCodes 3 ((code ++ [[]]).map Line.code) := by
  have hplain := image.isPlain_text
  have hfree : ∀ t ∈ heading :: image.text :: code, '\n' ∉ t :=
    List.forall_mem_cons.2 ⟨by decide +kernel,
      List.forall_mem_cons.2 ⟨hplain.newline, by decide +kernel⟩⟩
  have hheading : Line.code heading = [] := by decide +kernel
  have hcodes : Line.codes (source image) = [] :: image.text :: (code ++ [[]]).map Line.code := by
    rw [Line.codes, source, Text.splitOn_flatMap_newline hfree, List.cons_append, List.cons_append,
      List.map_cons, List.map_cons, hheading, Line.code_eq_self hplain]
  rw [Line.ofSource_eq_ofCodes, hcodes]
  simp only [Line.ofCodes, Line.ofCode?, List.zipIdx_cons, List.filterMap_cons, if_true,
    if_neg hplain.ne_nil]

/-- **The source loads to the program**, whatever its image is. -/
theorem result_ofSource (image : Memory) :
    (Program.ofSource (source image)).result = .ok (program image) := by
  have hslots : Slot.ofLines (Line.ofCodes 3 ((code ++ [[]]).map Line.code)) = .ok slots := by
    decide +kernel
  have hlabels : (Labels.resolve {} slots.zipIdx).result = .ok labels := by decide +kernel
  rw [Program.ofSource, ofSource_source, Program.result_ofLines_cons image.ofText?_text, hslots]
  simp only [bind, Except.bind, hlabels]
  rfl

/-! ## Its blocks -/

/-- The registers of the program: the multiplicand, the counter and the accumulator. -/
def registers (x y z : Word) (flag : Option Flag) : Registers where
  entries := [(0, x), (1, y), (2, z)]
  ascending := by simp
  flag := flag

/-- An execution of the program whose registers have all been written. -/
def stateAt (slot operations : Nat) (memory : Memory) (x y z : Word) (flag : Option Flag) :
    Execution :=
  ⟨slot, operations, ⟨memory, registers x y z flag⟩, .active⟩

/-- The execution that has halted. -/
def halted (operations : Nat) (memory : Memory) (x z : Word) : Execution :=
  ⟨11, operations, ⟨memory, registers x 0 z (some .equal)⟩, .halted⟩

/-- Strides of the program that do not warn. -/
abbrev Reaches (image : Memory) : Execution → Execution → Prop :=
  Execution.QuietlyReaches (program image)

open Execution.QuietlyReaches

variable {image memory : Memory} {x y z : Word} {flag : Option Flag} {k : Nat}

/-- The registers are set up in front of the loop. -/
theorem reaches_loop (a b c : Word) :
    let image : Memory := ⟨#[a, b, c]⟩
    Reaches image (.start (program image)) (stateAt 3 3 image a b 0 none) := by
  intro image
  calc Execution.start (program image)
    Reaches image _ ⟨1, 1, ⟨image, .ofList [(0, a)] none⟩, .active⟩ :=
      of_slot (.setRegister 0 a) .next rfl rfl rfl
    Reaches image _ ⟨2, 2, ⟨image, .ofList [(0, a), (1, b)] none⟩, .active⟩ :=
      of_slot (.setRegister 1 b) .next rfl rfl rfl
    Reaches image _ (stateAt 3 3 image a b 0 none) :=
      of_slot (.setRegister 2 0) .next rfl rfl rfl

/-- The loop begins by comparing the counter with zero. -/
theorem reaches_branch :
    Reaches image (stateAt 3 k memory x y z flag)
      (stateAt 5 (k + 2) memory x y z (some (Flag.compare y 0))) :=
  calc stateAt 3 k memory x y z flag
    Reaches image _ (stateAt 4 (k + 1) memory x y z flag) := of_slot .none .next rfl rfl rfl
    Reaches image _ (stateAt 5 (k + 2) memory x y z (some (Flag.compare y 0))) :=
      of_slot (.setFlag (Flag.compare y 0)) .next rfl rfl rfl

/-- **One round of the loop**, if the counter is not zero. -/
theorem reaches_round (hy : y ≠ 0) :
    Reaches image (stateAt 3 k memory x y z flag)
      (stateAt 3 (k + 6) memory x (y - 1) (z + x) (some (Flag.compare y 0))) := by
  have hflag : Condition.equal.holds (some (Flag.compare y 0)) = false := by
    rw [Flag.compare, if_neg hy]
    split <;> rfl
  have hbranch : (⟨.branch .equal, [.label "done".toList]⟩ : Instruction).evaluate
      ⟨(program image).labels, 8⟩ ⟨memory, registers x y z (some (Flag.compare y 0))⟩ =
        ⟨[], .ok (.none, .next)⟩ := if_neg (Bool.eq_false_iff.1 hflag)
  calc stateAt 3 k memory x y z flag
    Reaches image _ (stateAt 5 (k + 2) memory x y z (some (Flag.compare y 0))) := reaches_branch
    Reaches image _ (stateAt 6 (k + 3) memory x y z (some (Flag.compare y 0))) :=
      of_slot .none .next rfl rfl hbranch
    Reaches image _ (stateAt 7 (k + 4) memory x y (z + x) (some (Flag.compare y 0))) :=
      of_slot (.setRegister 2 (z + x)) .next rfl rfl rfl
    Reaches image _ (stateAt 8 (k + 5) memory x (y - 1) (z + x) (some (Flag.compare y 0))) :=
      of_slot (.setRegister 1 (y - 1)) .next rfl rfl rfl
    Reaches image _ (stateAt 3 (k + 6) memory x (y - 1) (z + x) (some (Flag.compare y 0))) :=
      of_slot .none (.jump 3) rfl rfl rfl

/-- **The last round**: the accumulator is stored. -/
theorem reaches_end (a b c : Word) :
    Reaches image (stateAt 3 k ⟨#[a, b, c]⟩ x 0 z flag) (halted (k + 6) ⟨#[a, b, z]⟩ x z) :=
  calc stateAt 3 k ⟨#[a, b, c]⟩ x 0 z flag
    Reaches image _ (stateAt 5 (k + 2) ⟨#[a, b, c]⟩ x 0 z (some .equal)) := reaches_branch
    Reaches image _ (stateAt 9 (k + 3) ⟨#[a, b, c]⟩ x 0 z (some .equal)) :=
      of_slot .none (.jump 9) rfl rfl rfl
    Reaches image _ (stateAt 10 (k + 4) ⟨#[a, b, c]⟩ x 0 z (some .equal)) :=
      of_slot .none .next rfl rfl rfl
    Reaches image _ (stateAt 11 (k + 5) ⟨#[a, b, z]⟩ x 0 z (some .equal)) :=
      of_slot (.setWord 2 z) .next rfl rfl rfl
    Reaches image _ (halted (k + 6) ⟨#[a, b, z]⟩ x z) := of_slot .none .halt rfl rfl rfl

/-! ## The loop -/

/-- **The loop adds as often as the counter says**, and as often it goes round. -/
theorem reaches_product {n : Nat} (hn : y.toInt % 2 ^ 32 = n) :
    ∃ flag', Reaches image (stateAt 3 k memory x y z flag)
      (stateAt 3 (k + 6 * n) memory x 0 (z + x * y) flag') := by
  induction n generalizing k y z flag with
  | zero =>
    obtain rfl : y = 0 := Word.eq_of_modEq hn
    have hz : z + x * 0 = z := by grind
    rw [hz]
    exact ⟨flag, .refl _ _⟩
  | succ n ih =>
    have hy : y ≠ 0 := by
      rintro rfl
      cases hn
    have hrest : (y - 1).toInt % 2 ^ 32 = n := by
      have hsub : (y - 1).toInt ≡ y.toInt - 1 [ZMOD 2 ^ 32] := Operation.yields_apply .sub y 1
      unfold Int.ModEq at hsub
      omega
    -- what is added to the accumulator is taken off what is left to be added
    have hsum : z + x + x * (y - 1) = z + x * y := by grind
    obtain ⟨flag', hloop⟩ := @ih (y - 1) (z + x) (some (Flag.compare y 0)) (k + 6) hrest
    rw [hsum, show k + 6 + 6 * n = k + 6 * (n + 1) by omega] at hloop
    exact ⟨flag', (reaches_round hy).trans hloop⟩

/-- **From the start to the end**, for all words. -/
theorem reaches_halt (a b c : Word) :
    let image : Memory := ⟨#[a, b, c]⟩
    Reaches image (.start (program image))
      (halted (9 + 6 * (b.toInt % 2 ^ 32).toNat) ⟨#[a, b, a * b]⟩ a (a * b)) := by
  intro image
  have hn : b.toInt % 2 ^ 32 = (b.toInt % 2 ^ 32).toNat :=
    (Int.toNat_of_nonneg (Int.emod_nonneg _ (by decide))).symm
  generalize (b.toInt % 2 ^ 32).toNat = n at hn ⊢
  obtain ⟨flag, hloop⟩ := @reaches_product image image a b 0 none 3 n hn
  have hzero : 0 + a * b = a * b := by grind
  rw [hzero] at hloop
  have hoperations : 9 + 6 * n = 3 + 6 * n + 6 := by omega
  rw [hoperations]
  exact (reaches_loop a b c).trans (hloop.trans (reaches_end a b c))

/-- **The program multiplies.** Whatever three words its memory holds, a run without a
limit halts. Memory then holds the first two of them as before, and behind them the one
word that is their product, up to a multiple of `2 ^ 32`. The counter is zero, and the
last comparison has found it so. The run has executed nine operations, and six for each
round: there are as many rounds as the second word says, or as it says above `-2 ^ 32`
if it is negative. Nothing is warned of. -/
theorem halts_with_product {σ : Type} {tracer : Tracer σ} (hreliable : tracer.Reliable)
    (trace : σ) (a b c : Word) :
    let image : Memory := ⟨#[a, b, c]⟩
    let loaded := Program.ofSource (source image)
    let outcome : Outcome := ⟨.halted, 9 + 6 * (b.toInt % 2 ^ 32).toNat⟩
    let s := Session.start (program image) trace loaded.events.toArray
    loaded.result = .ok (program image) ∧
      ∃ (ended : Session σ) (p : Word),
        s.run (program image) none tracer = (ended, some (.ok outcome)) ∧
        Run.ofSource (source image) none tracer trace =
          ⟨ended.trace, ended.log, some (.ok outcome)⟩ ∧
        p.toInt ≡ a.toInt * b.toInt [ZMOD 2 ^ 32] ∧
        ended.execution.machine.memory = ⟨#[a, b, p]⟩ ∧
        ended.execution.machine.registers.get? 1 = some 0 ∧
        ended.execution.machine.registers.flag = some .equal ∧
        ∀ event ∈ ended.log.toList, event.isWarning = false := by
  intro image loaded outcome s
  have hload : loaded.result = .ok (program image) := result_ofSource image
  have hquiet : ∀ event ∈ loaded.events.toArray.toList, event.isWarning = false :=
    (Program.loadLog_ofLines _).isWarning_eq_false
  have hfits : outcome.operations ≤ Session.capacity := by
    have hlt := Int.emod_lt_of_pos b.toInt (show (0 : Int) < 2 ^ 32 by decide)
    have hcapacity : Session.capacity = 18446744073709551616 := rfl
    simp only [outcome]
    omega
  have hover : State.halted ≠ .active := by decide
  obtain ⟨hresult, hended, hlog⟩ :=
    Session.run_of_quietlyReaches (s := s) hreliable (reaches_halt a b c) hover hfits hquiet
  have hproduct : (a * b).toInt ≡ a.toInt * b.toInt [ZMOD 2 ^ 32] := by
    rw [Int32.toInt_mul]
    exact Word.bmod_modEq _
  refine ⟨hload, _, a * b, Prod.ext rfl hresult, ?_, hproduct,
    congrArg (·.machine.memory) hended, congrArg (·.machine.registers.get? 1) hended,
    congrArg (·.machine.registers.flag) hended, hlog⟩
  rw [Run.ofSource_of_ok hload]
  exact congrArg (Run.mk _ _) hresult

/-- A negative counter, and a product that does not fit: twenty-five billion operations
come to the word `-2 * 1073741825`, less a multiple of `2 ^ 32`. -/
theorem halts_with_product_negative :
    let image : Memory := ⟨#[1073741825, -2, 7]⟩
    (Tracer.silent : Tracer Unit).Reliable ∧
      ∃ ended : Session Unit, Run.ofSource (source image) none .silent () =
          ⟨(), ended.log, some (.ok ⟨.halted, 25769803773⟩)⟩ ∧
        ended.execution.machine.memory = ⟨#[1073741825, -2, 2147483646]⟩ ∧
        ∀ event ∈ ended.log.toList, event.isWarning = false := by
  intro image
  obtain ⟨-, ended, p, -, hrun, hp, hmemory, -, -, hlog⟩ :=
    halts_with_product Tracer.reliable_silent () 1073741825 (-2) 7
  obtain rfl : p = 2147483646 := Word.eq_of_modEq (hp.trans (by decide))
  exact ⟨Tracer.reliable_silent, ended, hrun, hmemory, hlog⟩

end Multiplication

end TeachAsm
