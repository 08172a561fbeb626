import GoldenRom.Proofs.Dumps
import GoldenRom.Proofs.Timeouts

/-!
# What the output of a test tells

An output is a dump or the text of a program fault, and a dump may be that of a machine that has
halted or of one that has run out of steps.  The text alone tells which it is, and what it is
the text of: a fault does not read as a dump, only a machine that has halted shows the halt
address as its program counter, and the text of a fault names all that the fault is made of.  So
a ROM passes with one expected text at most.
-/

namespace GoldenRom

/-! ## Texts of faults -/

namespace Numeral

/-- Whether a character is written for a digit of an address. -/
def isUpperHex (c : Char) : Bool :=
  (digitOf? upperDigit 16 c).isSome

theorem mapM_hexUpper (width n : Nat) :
    (hexUpper width n).toList.mapM (digitOf? upperDigit 16) = some (digits 16 width n) := by
  have hread : ((digits 16 width n).map upperDigit).mapM (digitOf? upperDigit 16)
      = some ((digits 16 width n).map id) :=
    mapM_map_eq_some fun digit hmem =>
      digitOf?_upperDigit digit (digit_lt_of_mem_digits (by decide) hmem)
  rw [List.map_id] at hread
  rwa [hexUpper, String.toList_ofList]

/-- No two numbers are written alike. -/
theorem hexUpper_inj {width m n : Nat}
    (heq : (hexUpper width m).toList = (hexUpper width n).toList) : m = n := by
  have hread := mapM_hexUpper width m
  rw [heq, mapM_hexUpper] at hread
  have hvalue := congrArg (value 16) (Option.some.inj hread)
  rw [value_digits (by decide), value_digits (by decide)] at hvalue
  exact hvalue.symm

theorem takeWhile_hexUpper_append {n : Nat} {rest : List Char}
    (hrest : rest.takeWhile isUpperHex = []) :
    ((hexUpper 4 n).toList ++ rest).takeWhile isUpperHex = (hexUpper 4 n).toList := by
  rw [List.takeWhile_append_of_pos, hrest, List.append_nil]
  intro c hmem
  rw [hexUpper, String.toList_ofList] at hmem
  obtain ⟨digit, hdigit, rfl⟩ := List.mem_map.1 hmem
  rw [isUpperHex, digitOf?_upperDigit digit (digit_lt_of_mem_digits (by decide) hdigit)]
  rfl

/-- However many digits a number has, they end where the text goes on with another character. -/
theorem hexUpper_append_inj {m n : Nat} {rest rest' : List Char}
    (hrest : rest.takeWhile isUpperHex = []) (hrest' : rest'.takeWhile isUpperHex = [])
    (heq : (hexUpper 4 m).toList ++ rest = (hexUpper 4 n).toList ++ rest') :
    m = n ∧ rest = rest' := by
  have hdigits := congrArg (List.takeWhile isUpperHex) heq
  rw [takeWhile_hexUpper_append hrest, takeWhile_hexUpper_append hrest'] at hdigits
  obtain rfl := hexUpper_inj hdigits
  exact ⟨rfl, List.append_cancel_left heq⟩

end Numeral

namespace ProgramFault

theorem toList_message_unrecognizedOpcode (opcode address : Word) :
    (unrecognizedOpcode opcode address).message.toList =
      "Unrecognized opcode ".toList ++
        ("0x".toList ++ ((Numeral.hexUpper 4 opcode.toNat).toList ++
        (" at address ".toList ++ ("0x".toList ++
          ((Numeral.hexUpper 4 address.toNat).toList ++ []))))) := by
  show ("Unrecognized opcode " ++ ("0x" ++ Numeral.hexUpper 4 opcode.toNat) ++ " at address " ++
    ("0x" ++ Numeral.hexUpper 4 address.toNat)).toList = _
  simp only [String.toList_append, List.append_assoc, List.append_nil]

theorem toList_message_outOfBounds (address : Nat) :
    (outOfBounds address).message.toList =
      "Cannot access address ".toList ++ ("0x".toList ++ ((Numeral.hexUpper 4 address).toList ++
        ": out of bounds".toList)) := by
  show ("Cannot access address " ++ ("0x" ++ Numeral.hexUpper 4 address) ++
    ": out of bounds").toList = _
  simp only [String.toList_append, List.append_assoc]

theorem toList_message_reserved (address : Nat) (reason : String) :
    (reserved address reason).message.toList =
      "Cannot access address ".toList ++ ("0x".toList ++ ((Numeral.hexUpper 4 address).toList ++
        (": reserved: ".toList ++ reason.toList))) := by
  show ("Cannot access address " ++ ("0x" ++ Numeral.hexUpper 4 address) ++ ": reserved: " ++
    reason).toList = _
  simp only [String.toList_append, List.append_assoc]

theorem message_unrecognizedOpcode_ne {opcode address : Word} {rest : List Char} :
    (unrecognizedOpcode opcode address).message.toList ≠ "Cannot access address ".toList ++
      rest := by
  intro heq
  rw [toList_message_unrecognizedOpcode] at heq
  cases congrArg List.head? heq

theorem message_outOfBounds_ne_reserved (address address' : Nat) (reason : String) :
    (outOfBounds address).message ≠ (reserved address' reason).message := by
  intro heq
  have htext := congrArg String.toList heq
  rw [toList_message_outOfBounds, toList_message_reserved, List.append_cancel_left_eq,
    List.append_cancel_left_eq] at htext
  have hrest := (Numeral.hexUpper_append_inj rfl rfl htext).2
  cases congrArg (fun cs => cs[2]?) hrest

/-- **The text of a program fault names all that the fault is made of.** -/
theorem message_injective : Function.Injective message := by
  intro fault other heq
  have htext := congrArg String.toList heq
  cases fault with
  | unrecognizedOpcode opcode address =>
      cases other with
      | unrecognizedOpcode opcode' address' =>
          rw [toList_message_unrecognizedOpcode, toList_message_unrecognizedOpcode,
            List.append_cancel_left_eq, List.append_cancel_left_eq] at htext
          obtain ⟨hopcode, hrest⟩ := Numeral.hexUpper_append_inj rfl rfl htext
          rw [List.append_cancel_left_eq, List.append_cancel_left_eq] at hrest
          obtain ⟨haddress, -⟩ := Numeral.hexUpper_append_inj rfl rfl hrest
          rw [UInt16.toNat_inj.1 hopcode, UInt16.toNat_inj.1 haddress]
      | outOfBounds address' =>
          rw [toList_message_outOfBounds] at htext
          exact absurd htext message_unrecognizedOpcode_ne
      | reserved address' reason' =>
          rw [toList_message_reserved] at htext
          exact absurd htext message_unrecognizedOpcode_ne
  | outOfBounds address =>
      cases other with
      | unrecognizedOpcode opcode' address' =>
          rw [toList_message_outOfBounds] at htext
          exact absurd htext.symm message_unrecognizedOpcode_ne
      | outOfBounds address' =>
          rw [toList_message_outOfBounds, toList_message_outOfBounds,
            List.append_cancel_left_eq, List.append_cancel_left_eq] at htext
          rw [(Numeral.hexUpper_append_inj rfl rfl htext).1]
      | reserved address' reason' =>
          exact absurd heq (message_outOfBounds_ne_reserved address address' reason')
  | reserved address reason =>
      cases other with
      | unrecognizedOpcode opcode' address' =>
          rw [toList_message_reserved] at htext
          exact absurd htext.symm message_unrecognizedOpcode_ne
      | outOfBounds address' =>
          exact absurd heq.symm (message_outOfBounds_ne_reserved address' address reason)
      | reserved address' reason' =>
          rw [toList_message_reserved, toList_message_reserved, List.append_cancel_left_eq,
            List.append_cancel_left_eq] at htext
          obtain ⟨haddress, hrest⟩ := Numeral.hexUpper_append_inj rfl rfl htext
          rw [List.append_cancel_left_eq, String.toList_inj] at hrest
          rw [haddress, hrest]

end ProgramFault

namespace Fault

theorem toList_message_program (cause : ProgramFault) :
    (program cause).message.toList = "Crisp8Error: ".toList ++ cause.message.toList :=
  String.toList_append

theorem toList_message_engine (cause : EngineFault) :
    (engine cause).message.toList = "Crisp8InternalError: ".toList ++ cause.message.toList :=
  String.toList_append

theorem program_eq_of_message_eq {cause other : ProgramFault}
    (heq : (program cause).message = (program other).message) : cause = other := by
  have htext := congrArg String.toList heq
  rw [toList_message_program, toList_message_program] at htext
  exact ProgramFault.message_injective (String.toList_inj.1 (List.append_cancel_left htext))

end Fault

namespace Snapshot

/-- The text of a fault does not begin as a dump does. -/
theorem ofText?_message (fault : Fault) : ofText? fault.message = none := by
  cases fault with
  | program cause =>
      rw [ofText?, Fault.toList_message_program]
      rfl
  | engine cause =>
      rw [ofText?, Fault.toList_message_engine]
      rfl

theorem dump_ne_message (s : State) (fault : Fault) : s.dump ≠ fault.message := by
  intro heq
  have hread := ofText?_dump s
  rw [heq, ofText?_message] at hread
  cases hread

end Snapshot

/-! ## Outputs of tests -/

namespace OutputTest

/-- How the run of a test ends, and with which machine. -/
def ending (test : OutputTest) : EStateM.Result Fault (Machine ChaCha) RunEnd :=
  Machine.runRom test.rom stepLimit (Machine.seeded test.seed)

/-- The text that executing a test captures. -/
def output? (test : OutputTest) : Option String :=
  test.run.actual?

/-- What is captured of an ending: the dump of the machine, or the text of the fault unless it
is the engine's. -/
def outputOf : EStateM.Result Fault (Machine ChaCha) RunEnd → Option String
  | .ok _ machine => some machine.state.dump
  | .error (.program cause) _ => some (Fault.program cause).message
  | .error (.engine _) _ => none

theorem output?_eq (test : OutputTest) : test.output? = outputOf test.ending := by
  rw [output?, run, execute_eq]
  show test.judge.actual? = _
  rw [judge, ending]
  cases Machine.runRom test.rom stepLimit (Machine.seeded test.seed) with
  | ok ending machine => rfl
  | error fault machine => cases fault <;> rfl

/-- Two runs have ended alike: both halted, or both out of steps, in the same state, or both
with the same fault. -/
inductive EndAlike : (first second : EStateM.Result Fault (Machine ChaCha) RunEnd) → Prop
  | halted {cycles cycles' : Nat} {final final' : Machine ChaCha}
      (hstate : final.state = final'.state) (hpc : final.state.pc = 0x111) :
      EndAlike (.ok ⟨cycles, true⟩ final) (.ok ⟨cycles', true⟩ final')
  | timedOut {cycles cycles' : Nat} {final final' : Machine ChaCha}
      (hstate : final.state = final'.state) (hpc : final.state.pc ≠ 0x111) :
      EndAlike (.ok ⟨cycles, false⟩ final) (.ok ⟨cycles', false⟩ final')
  | faulted {cause : ProgramFault} {final final' : Machine ChaCha} :
      EndAlike (.error (.program cause) final) (.error (.program cause) final')

/-- Where the run of a test does not fail, its final machine is one that calls produce, and it
stands at the halt address if and only if the run has halted. -/
theorem of_ending_eq_ok {test : OutputTest} {ending : RunEnd} {final : Machine ChaCha}
    (hending : test.ending = .ok ending final) :
    final.state.InRange ∧ (ending.halted = true ↔ final.state.pc = haltAddress) := by
  rw [OutputTest.ending] at hending
  cases hload : Machine.loadRom test.rom (Machine.seeded test.seed) with
  | error fault after =>
      rw [Machine.runRom_of_error hload] at hending
      cases hending
  | ok result loaded =>
      rw [Machine.runRom_of_ok hload] at hending
      have hloaded := Machine.final_perform_load_of_ok hload
      have hfinal : (Machine.new (ChaCha.ofSeed test.seed)).afterCalls
          [.load test.rom, .run haltAddress stepLimit] = final := by
        rw [Machine.seeded] at hloaded
        rw [Machine.afterCalls_cons, hloaded, Machine.afterCalls_cons,
          Machine.final_perform_run, Transition.final_of_ok hending]
        rfl
      refine ⟨hfinal ▸ Machine.inRange_afterCalls _ _, ?_⟩
      rw [Machine.runUntil_eq_iff] at hending
      cases hending with
      | halted _ _ _ hpc => exact ⟨fun _ => hpc, fun _ => rfl⟩
      | exhausted hlast haway =>
          have hpc := haway stepLimit final (by decide) (Nat.le_refl _) hlast
          exact ⟨nofun, fun hhalted => absurd hhalted hpc⟩

/-- A text is captured from a run that has not failed, or from one that the program's fault has
ended. -/
theorem ending_of_output?_eq {test : OutputTest} {text : String}
    (htext : test.output? = some text) :
    (∃ ending final, test.ending = .ok ending final ∧ final.state.dump = text) ∨
      ∃ cause stopped, test.ending = .error (.program cause) stopped ∧
        (Fault.program cause).message = text := by
  rw [output?_eq] at htext
  cases hending : test.ending with
  | ok ending final =>
      rw [hending] at htext
      exact Or.inl ⟨ending, final, rfl, Option.some.inj htext⟩
  | error fault stopped =>
      rw [hending] at htext
      cases fault with
      | program cause => exact Or.inr ⟨cause, stopped, rfl, Option.some.inj htext⟩
      | engine cause => cases htext

/-- Two dumps are of the same state, and the state tells whether the run has halted. -/
theorem endAlike_of_dump_eq {test other : OutputTest} {ending ending' : RunEnd}
    {final final' : Machine ChaCha} (htest : test.ending = .ok ending final)
    (hother : other.ending = .ok ending' final')
    (hdump : final.state.dump = final'.state.dump) : EndAlike test.ending other.ending := by
  obtain ⟨hrange, hhalted⟩ := of_ending_eq_ok htest
  obtain ⟨hrange', hhalted'⟩ := of_ending_eq_ok hother
  have hstate : final.state = final'.state := (hrange.dump_eq_iff hrange').1 hdump
  have hsame : ending.halted = ending'.halted := by
    rw [Bool.eq_iff_iff, hhalted, hhalted', hstate]
  rw [htest, hother]
  obtain ⟨cycles, halted⟩ := ending
  obtain ⟨cycles', halted'⟩ := ending'
  obtain rfl : halted = halted' := hsame
  cases halted with
  | true => exact .halted hstate (hhalted.1 rfl)
  | false => exact .timedOut hstate fun hpc => Bool.false_ne_true (hhalted.2 hpc)

theorem endAlike_of_output?_eq {test other : OutputTest} {text : String}
    (htest : test.output? = some text) (hother : other.output? = some text) :
    EndAlike test.ending other.ending := by
  rcases ending_of_output?_eq htest
    with ⟨ending, final, hending, rfl⟩ | ⟨cause, stopped, hending, rfl⟩
  · rcases ending_of_output?_eq hother
      with ⟨_, final', hending', hdump⟩ | ⟨cause, _, _, hmessage⟩
    · exact endAlike_of_dump_eq hending hending' hdump.symm
    · exact absurd hmessage.symm (Snapshot.dump_ne_message final.state (.program cause))
  · rcases ending_of_output?_eq hother
      with ⟨_, final, _, hdump⟩ | ⟨cause', _, hending', hmessage⟩
    · exact absurd hdump (Snapshot.dump_ne_message final.state (.program cause))
    · obtain rfl := Fault.program_eq_of_message_eq hmessage
      rw [hending, hending']
      exact .faulted

/-! ## Expected texts -/

/-- A test passes if its output is the expected text and it has not run out of steps. -/
theorem execute_eq_passed_iff {test : OutputTest} :
    test.execute.2 = .passed ↔
      test.output? = some test.expected ∧ ∀ cycles final,
        test.ending ≠ .ok ⟨cycles, false⟩ final := by
  rw [output?_eq, verdict_execute, judge, ending]
  cases Machine.runRom test.rom stepLimit (Machine.seeded test.seed) with
  | ok ending final =>
      obtain ⟨cycles, halted⟩ := ending
      cases halted with
      | true => simp [outputOf, compareOutput_eq_passed_iff]
      | false => simp [outputOf]
  | error fault stopped =>
      cases fault with
      | program cause => simp [outputOf, compareOutput_eq_passed_iff]
      | engine cause => simp [outputOf]

theorem execute_eq_timedOut_iff {test : OutputTest} :
    test.execute.2 = .timedOut ↔ ∃ cycles final, test.ending = .ok ⟨cycles, false⟩ final := by
  rw [verdict_execute, judge, ending]
  cases Machine.runRom test.rom stepLimit (Machine.seeded test.seed) with
  | ok ending final =>
      obtain ⟨cycles, halted⟩ := ending
      cases halted with
      | true => simp [compareOutput_ne_timedOut]
      | false => simp
  | error fault stopped =>
      cases fault with
      | program cause => simp [compareOutput_ne_timedOut]
      | engine cause => simp

/-- The ending of a run is a matter of the ROM and the seed. -/
theorem ending_congr {test other : OutputTest} (hrom : test.rom = other.rom)
    (hseed : test.seed = other.seed) : test.ending = other.ending := by
  rw [ending, ending, hrom, hseed]

/-- **The output of a test tells how its run has ended**, and in which state or with which
fault: two tests that capture the same text have ended alike.  No dump is the text of a fault,
and what a run shows that is out of steps is shown by no run that has halted.  So there is at
most one expected text with which a ROM passes over the words of a seed, and none if it runs out
of steps or does not fit. -/
theorem output_tells_ending :
    (∀ (test other : OutputTest) (text : String), test.output? = some text →
      other.output? = some text →
        EndAlike test.ending other.ending) ∧
      (∀ (s : State) (fault : Fault), s.dump ≠ fault.message) ∧
      (∀ (test other : OutputTest) (cycles cycles' : Nat) (final final' : Machine ChaCha),
        test.ending = .ok ⟨cycles, false⟩ final → other.ending = .ok ⟨cycles', true⟩ final' →
          test.output? ≠ other.output?) ∧
      (∀ test other : OutputTest, test.rom = other.rom → test.seed = other.seed →
        test.execute.2 = .passed → other.execute.2 = .passed → test.expected = other.expected) ∧
      ∀ test other : OutputTest, test.rom = other.rom → test.seed = other.seed →
        test.execute.2 = .timedOut ∨ 0xE00 < test.rom.size → other.execute.2 ≠ .passed := by
  refine ⟨fun test other text => endAlike_of_output?_eq, Snapshot.dump_ne_message, ?_, ?_, ?_⟩
  · intro test other cycles cycles' final final' htest hother heq
    have houtput : test.output? = some final.state.dump := by
      rw [output?_eq, htest]
      rfl
    have halike := endAlike_of_output?_eq houtput (heq ▸ houtput)
    rw [htest, hother] at halike
    cases halike
  · intro test other hrom hseed hpassed hother
    have houtput := (execute_eq_passed_iff.1 hpassed).1
    have houtput' := (execute_eq_passed_iff.1 hother).1
    rw [output?_eq, ending_congr hrom hseed] at houtput
    rw [output?_eq, houtput] at houtput'
    exact Option.some.inj houtput'
  · intro test other hrom hseed hfailed hpassed
    rcases hfailed with htimedOut | hlarge
    · obtain ⟨cycles, final, hending⟩ := execute_eq_timedOut_iff.1 htimedOut
      rw [ending_congr hrom hseed] at hending
      exact (execute_eq_passed_iff.1 hpassed).2 cycles final hending
    · rw [hrom] at hlarge
      have hthrew : other.execute.2 = .threwError :=
        other.verdict_execute.trans (other.verdict_judge_eq_threwError_iff.2 hlarge)
      rw [hpassed] at hthrew
      cases hthrew

/-- The program that is done at once is done in the same state whatever the seed. -/
theorem exists_ending_doneRom :
    ∃ s, ∀ expected seed, ∃ final,
      ending (.new Machine.doneRom expected seed) = .ok ⟨1, true⟩ final ∧ final.state = s := by
  obtain ⟨loaded, hload⟩ :=
    Machine.exists_loadRom_eq_ok (by decide : Machine.doneRom.size ≤ romCapacity)
      (Machine.seeded 0)
  obtain ⟨state, hstate, -⟩ := Machine.loadRom_eq_ok_iff.1 hload
  have hinitial : ∀ seed, (Machine.seeded seed).state = State.initial := fun _ => rfl
  rw [hinitial] at hstate
  refine ⟨Instruction.next 0 state (.jump 0x111), fun expected seed => ?_⟩
  obtain ⟨start, hstart, hsame⟩ :
      ∃ start, Machine.loadRom Machine.doneRom (Machine.seeded seed) = .ok () start ∧
        start.state = state :=
    ⟨_, Machine.loadRom_eq_ok_iff.2 ⟨state, (hinitial seed).symm ▸ hstate, rfl⟩, rfl⟩
  have hstep : Machine.step start = .ok () (start.next (.jump 0x111)) :=
    Machine.step_of_loadRom_doneRom hstart rfl
  have hnext : (start.next (.jump 0x111)).state = Instruction.next 0 state (.jump 0x111) := by
    rw [← hsame]
    rfl
  have hfinal : start.afterSteps 1 = some (start.next (.jump 0x111)) :=
    Machine.afterSteps_succ_eq_some_iff.2 ⟨start, Machine.afterSteps_zero start, hstep⟩
  have hpc : (start.next (.jump 0x111)).state.pc = 0x111 := by
    rw [hnext, Instruction.pc_next]
  exact ⟨_, runRom_of_runsTo hstart
    (.halted (by decide) hfinal (Machine.staysAway_zero start 0x111) hpc), hnext⟩

/-- The program that draws for ever runs out of steps whatever the seed. -/
theorem exists_ending_drawingRom (expected : String) (seed : UInt64) :
    ∃ final, ending (.new drawingRom expected seed) = .ok ⟨10000, false⟩ final := by
  obtain ⟨loaded, hload⟩ :=
    Machine.exists_loadRom_eq_ok (by decide : drawingRom.size ≤ romCapacity)
      (Machine.seeded seed)
  have hkeeps := keepsDrawing_of_loadRom hload
  obtain ⟨final, hfinal, -⟩ := hkeeps.exists_afterSteps 10000
  exact ⟨final, runRom_of_runsTo hload (.exhausted hfinal (hkeeps.staysAway 10000))⟩

theorem output_tells_ending_when_done :
    ∃ text, output? (.new Machine.doneRom text 1) = some text ∧
      output? (.new Machine.doneRom "" 2) = some text ∧
      EndAlike (ending (.new Machine.doneRom text 1)) (ending (.new Machine.doneRom "" 2)) ∧
      output? (.new drawingRom text 1) ≠ output? (.new Machine.doneRom text 1) ∧
      (execute (.new Machine.doneRom text 1)).2 = .passed ∧
      (∀ expected, (execute (.new Machine.doneRom expected 1)).2 = .passed → expected = text) ∧
      (execute (.new drawingRom text 1)).2 = .timedOut ∧
      ∀ expected, (execute (.new drawingRom expected 1)).2 ≠ .passed := by
  obtain ⟨halike, -, hdiffer, honce, hnever⟩ := output_tells_ending
  obtain ⟨s, hdone⟩ := exists_ending_doneRom
  have houtput : ∀ expected seed,
      output? (.new Machine.doneRom expected seed) = some s.dump := by
    intro expected seed
    obtain ⟨final, hending, rfl⟩ := hdone expected seed
    rw [output?_eq, hending]
    rfl
  obtain ⟨final, hhalted, -⟩ := hdone s.dump 1
  obtain ⟨final', htimedOut⟩ := exists_ending_drawingRom s.dump 1
  have hpassed : (execute (.new Machine.doneRom s.dump 1)).2 = .passed :=
    execute_eq_passed_iff.2 ⟨houtput s.dump 1, fun _ _ heq => nomatch hhalted.symm.trans heq⟩
  have hlate : (execute (.new drawingRom s.dump 1)).2 = .timedOut :=
    execute_eq_timedOut_iff.2 ⟨10000, final', htimedOut⟩
  have hsame := halike _ _ _ (houtput s.dump 1) (houtput "" 2)
  have hother := hdiffer _ _ _ _ _ _ htimedOut hhalted
  have honly : ∀ expected, (execute (.new Machine.doneRom expected 1)).2 = .passed →
      expected = s.dump :=
    fun expected hexpected =>
      honce (.new Machine.doneRom expected 1) (.new Machine.doneRom s.dump 1) rfl rfl
      hexpected hpassed
  have hnone : ∀ expected, (execute (.new drawingRom expected 1)).2 ≠ .passed :=
    fun expected =>
      hnever (.new drawingRom s.dump 1) (.new drawingRom expected 1) rfl rfl (Or.inl hlate)
  exact ⟨s.dump, houtput s.dump 1, houtput "" 2, hsame, hother, hpassed, honly, hlate, hnone⟩

end OutputTest

end GoldenRom
