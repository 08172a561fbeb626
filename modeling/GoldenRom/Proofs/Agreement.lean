import GoldenRom.CommandLine.Program
import GoldenRom.Proofs.Endings

/-!
# Agreement of the run command and the tests

The same ROM can be looked at in two ways: the program runs it and prints what happens, or a
test runs it and keeps what it finds.  Both start the same machine, so what the program prints
tells what a test would find, and the other way round.  The exception is what a test leaves out:
the dump behind the text of a fault.

## Main definitions

* `RomEnding.printed`: the lines that the program prints for an ending.
* `IsFaultLine`: the texts that are printed for the fault of a program.
-/

namespace GoldenRom

/-! ## Numbers on a command line -/

namespace Numeral

theorem digits_one_ne_nil (base n : Nat) : digits base 1 n ≠ [] := by
  refine List.ne_nil_of_length_pos ?_
  rw [digits_eq, List.length_leftpad]
  exact Nat.le_max_left 1 _

theorem isDigit_of_mem_decimal {n : Nat} {c : Char} (hmem : c ∈ (decimal n).toList) :
    c.isDigit = true := by
  rw [decimal, String.toList_ofList] at hmem
  obtain ⟨digit, hdigit, rfl⟩ := List.mem_map.1 hmem
  have hall : ∀ digit < 10, (Nat.digitChar digit).isDigit = true := by decide
  exact hall digit (digit_lt_of_mem_digits (by decide) hdigit)

theorem not_mem_decimal {c : Char} (hc : c.isDigit = false) (n : Nat) :
    c ∉ (decimal n).toList := by
  intro hmem
  rw [isDigit_of_mem_decimal hmem] at hc
  cases hc

theorem decimal_ne_nil (n : Nat) : (decimal n).toList ≠ [] := by
  rw [decimal, String.toList_ofList]
  exact fun hnil => digits_one_ne_nil 10 n (List.map_eq_nil_iff.1 hnil)

/-- The digits of a numeral, read one by one, give the number back. -/
theorem readDigits_decimal (n : Nat) : readDigits (decimal n).toList = some n := by
  have hvalues : ∀ digit < 10, (Nat.digitChar digit).toNat - '0'.toNat = digit := by decide
  have hdigits : (decimal n).toList.map (fun c => c.toNat - '0'.toNat) = digits 10 1 n := by
    rw [decimal, String.toList_ofList, List.map_map]
    refine (List.map_congr_left fun digit hmem => ?_).trans (List.map_id _)
    exact hvalues digit (digit_lt_of_mem_digits (by decide) hmem)
  rw [readDigits, if_pos ⟨decimal_ne_nil n, List.all_eq_true.2 fun _ => isDigit_of_mem_decimal⟩,
    hdigits, value_digits (by decide)]

theorem decimal_injective : Function.Injective decimal := by
  intro m n heq
  have hread := readDigits_decimal m
  rw [heq, readDigits_decimal] at hread
  exact (Option.some.inj hread).symm

end Numeral

/-- The numeral of a number that is not too large is read as this number. -/
theorem readNumber_decimal {n : Nat} (hn : n < UInt64.size) :
    readNumber (Numeral.decimal n) = some n := by
  have hplain : '+' ∉ (Numeral.decimal n).toList := Numeral.not_mem_decimal rfl n
  have hread : readNumber (Numeral.decimal n) =
      (readDigits (Numeral.decimal n).toList).filter (· < UInt64.size) := by
    rw [readNumber]
    split
    · rename_i heq
      rw [heq] at hplain
      exact absurd List.mem_cons_self hplain
    · rfl
  rw [hread, Numeral.readDigits_decimal]
  exact Option.filter_some_pos (decide_eq_true hn)

theorem isDetachedValue_decimal (n : Nat) : isDetachedValue (Numeral.decimal n) = true := by
  have hplain : '-' ∉ (Numeral.decimal n).toList := Numeral.not_mem_decimal rfl n
  cases htext : (Numeral.decimal n).toList with
  | nil => exact absurd htext (Numeral.decimal_ne_nil n)
  | cons c rest =>
      rw [htext, List.mem_cons, not_or] at hplain
      simp [isDetachedValue, htext, Ne.symm hplain.1]

/-- What may be a value is an operand where no option awaits a value. -/
theorem readArgument_of_isDetachedValue {known : List Flag} {argument : String}
    (hargument : isDetachedValue argument = true) :
    readArgument known argument = .operand argument := by
  rw [isDetachedValue, Bool.or_eq_true, beq_iff_eq, bne_iff_ne] at hargument
  rcases hargument with rfl | hhead
  · rfl
  · unfold readArgument
    split <;> simp_all

/-- A command line that names a seed and a ROM asks for a run of the ROM with the usual number
of steps. -/
theorem Invocation.ofArguments?_run {path : Path} (hpath : path.text ≠ "")
    (hoperand : isDetachedValue path.text = true) (seed : UInt64) :
    ofArguments? ["run", "--seed", Numeral.decimal seed.toNat, path.text] =
      some ⟨false, seed, .run path stepLimit⟩ := by
  have hleading :
      readLeading generalFlags ["run", "--seed", Numeral.decimal seed.toNat, path.text] =
        some ([], ["run", "--seed", Numeral.decimal seed.toNat, path.text]) := rfl
  have hown : readArguments (generalFlags ++ commandFlags "run")
      ["--seed", Numeral.decimal seed.toNat, path.text] =
        some ([⟨.seed, Numeral.decimal seed.toNat⟩], [path.text]) := by
    have hseed : readArgument (generalFlags ++ commandFlags "run") "--seed" =
        .awaiting [] .seed := by decide
    simp [readArguments, hseed, isDetachedValue_decimal,
      readArgument_of_isDetachedValue hoperand]
  have hsettings : Settings.ofList? [⟨.seed, Numeral.decimal seed.toNat⟩] =
      some { seed? := some seed.toNat } := by
    simp [Settings.ofList?, Settings.insert?, readNumber_decimal seed.toNat_lt]
  have hcommand : readCommand "run" { seed? := some seed.toNat } [path.text] =
      some (.run path stepLimit) := by
    simp [readCommand, Ne.symm hpath]
  have hgeneral : Settings.ofList? [] = some {} := rfl
  simp [ofArguments?, hleading, hgeneral, hown, hsettings, hcommand]

/-! ## First lines -/

theorem toList_unlines_pair (line text : String) :
    (unlines [line, text]).toList = line.toList ++ '\n' :: (text.toList ++ ['\n']) := by
  simp [unlines, String.join]

/-- Where a line ends is seen from the text. -/
theorem append_newline_inj {line other rest rest' : List Char} (hline : '\n' ∉ line)
    (hother : '\n' ∉ other) (heq : line ++ '\n' :: rest = other ++ '\n' :: rest') :
    line = other ∧ rest = rest' := by
  induction line generalizing other with
  | nil =>
      cases other with
      | nil => exact ⟨rfl, List.tail_eq_of_cons_eq heq⟩
      | cons c _ =>
          obtain rfl : '\n' = c := List.head_eq_of_cons_eq heq
          exact absurd List.mem_cons_self hother
  | cons c line ih =>
      cases other with
      | nil =>
          obtain rfl : c = '\n' := List.head_eq_of_cons_eq heq
          exact absurd List.mem_cons_self hline
      | cons d other =>
          obtain rfl : c = d := List.head_eq_of_cons_eq heq
          obtain ⟨rfl, hrest⟩ := ih (fun hmem => hline (List.mem_cons_of_mem c hmem))
            (fun hmem => hother (List.mem_cons_of_mem c hmem)) (List.tail_eq_of_cons_eq heq)
          exact ⟨rfl, hrest⟩

theorem unlines_pair_inj {line other text text' : String} (hline : '\n' ∉ line.toList)
    (hother : '\n' ∉ other.toList) :
    unlines [line, text] = unlines [other, text'] ↔ line = other ∧ text = text' := by
  constructor
  · intro heq
    have hlist := congrArg String.toList heq
    rw [toList_unlines_pair, toList_unlines_pair] at hlist
    obtain ⟨hfirst, hrest⟩ := append_newline_inj hline hother hlist
    exact ⟨String.toList_inj.1 hfirst, String.toList_inj.1 (List.append_cancel_right hrest)⟩
  · rintro ⟨rfl, rfl⟩
    rfl

theorem unlines_pair_ne_empty (line text : String) : unlines [line, text] ≠ "" := by
  intro hempty
  have hlist := congrArg String.toList hempty
  rw [toList_unlines_pair] at hlist
  simp at hlist

theorem newline_not_mem_hexUpper (width n : Nat) :
    '\n' ∉ (Numeral.hexUpper width n).toList := by
  rw [Numeral.hexUpper, String.toList_ofList, List.mem_map]
  rintro ⟨digit, hmem, hnewline⟩
  have hdigit : ∀ digit < 16, Numeral.upperDigit digit ≠ '\n' := by decide
  exact hdigit digit (Numeral.digit_lt_of_mem_digits (by decide) hmem) hnewline

/-- The texts that are printed for the fault of a program: they take up one line. -/
def IsFaultLine (line : String) : Prop :=
  '\n' ∉ line.toList ∧ ∃ cause, line = (Fault.program cause).message

/-- What an access is refused with takes up one line, since the names of the regions do. -/
theorem isFaultLine_of_addressFault? {address : Nat} {cause : ProgramFault}
    (hcause : addressFault? address = some cause) :
    IsFaultLine (Fault.program cause).message := by
  refine ⟨?_, cause, rfl⟩
  rw [Fault.toList_message_program]
  rcases addressFault?_eq_some_iff.1 hcause with ⟨-, rfl⟩ | ⟨region, hregion, -, rfl⟩
  · rw [ProgramFault.toList_message_outOfBounds]
    simp [newline_not_mem_hexUpper]
  · have hreason : ∀ region ∈ reservedRegions, '\n' ∉ region.reason.toList := by decide
    rw [ProgramFault.toList_message_reserved]
    simp [newline_not_mem_hexUpper, hreason region hregion]

/-- **The fault of a step takes up one line.** -/
theorem isFaultLine_of_stepFault? {s : State} {cause : ProgramFault}
    (hcause : s.stepFault? = some cause) : IsFaultLine (Fault.program cause).message := by
  rw [State.stepFault?] at hcause
  cases hnext : s.nextInstruction with
  | ok instruction =>
      rw [hnext] at hcause
      obtain ⟨address, -, hfault⟩ := List.exists_of_findSome?_eq_some hcause
      exact isFaultLine_of_addressFault? hfault
  | error found =>
      rw [hnext] at hcause
      obtain rfl := Option.some.inj hcause
      refine ⟨?_, found, rfl⟩
      rw [Fault.toList_message_program]
      rcases State.nextInstruction_eq_error_iff.1 hnext with ⟨-, rfl⟩ | ⟨-, -, rfl⟩
      · rw [ProgramFault.toList_message_outOfBounds]
        simp [newline_not_mem_hexUpper]
      · rw [ProgramFault.toList_message_unrecognizedOpcode]
        simp [newline_not_mem_hexUpper]

/-! ## What is printed for an ending -/

namespace RomEnding

/-- The lines that the program prints, a line that tells of the ending in front of the dump. -/
def printed : RomEnding → List String
  | halted cycles final =>
      ["Halted after " ++ Numeral.decimal cycles ++ " cycles.", final.state.dump]
  | timedOut final => ["Stopped after 10000 cycles.", final.state.dump]
  | faulted cause last => [(Fault.program cause).message, last.state.dump]
  | tooLarge => []

/-- The exit code of the program. -/
def exitCode : RomEnding → Nat
  | halted .. | timedOut _ | faulted .. => 0
  | tooLarge => 1

theorem head?_message (cause : ProgramFault) :
    (Fault.program cause).message.toList.head? = some 'C' := by
  rw [Fault.toList_message_program]
  rfl

theorem haltedLine_inj {cycles cycles' : Nat}
    (heq : "Halted after " ++ Numeral.decimal cycles ++ " cycles." =
      "Halted after " ++ Numeral.decimal cycles' ++ " cycles.") : cycles = cycles' := by
  have hlist := congrArg String.toList heq
  rw [String.toList_append, String.toList_append, String.toList_append,
    String.toList_append] at hlist
  have hnumeral := List.append_cancel_left (List.append_cancel_right hlist)
  exact Numeral.decimal_injective (String.toList_inj.1 hnumeral)

/-- The letter that a text begins with, in which the three kinds of first lines differ. -/
def firstLetter? (lines : List String) : Option Char :=
  lines.head?.bind fun line => line.toList.head?

theorem printed_eq_halted_iff {ending : RomEnding} {cycles : Nat} {dump : String} :
    ending.printed = ["Halted after " ++ Numeral.decimal cycles ++ " cycles.", dump] ↔
      ∃ final, ending = .halted cycles final ∧ final.state.dump = dump := by
  constructor
  · intro hprinted
    have hhead := congrArg firstLetter? hprinted
    cases ending with
    | halted cycles' final =>
        obtain ⟨hline, hdump⟩ := List.cons_eq_cons.1 hprinted
        obtain rfl := haltedLine_inj hline
        exact ⟨final, rfl, List.head_eq_of_cons_eq hdump⟩
    | timedOut final => simp [printed, firstLetter?] at hhead
    | faulted cause last => simp [printed, firstLetter?, head?_message] at hhead
    | tooLarge => cases hprinted
  · rintro ⟨final, rfl, rfl⟩
    rfl

theorem printed_eq_stopped_iff {ending : RomEnding} {dump : String} :
    ending.printed = ["Stopped after 10000 cycles.", dump] ↔
      ∃ final, ending = .timedOut final ∧ final.state.dump = dump := by
  constructor
  · intro hprinted
    have hhead := congrArg firstLetter? hprinted
    cases ending with
    | halted cycles final => simp [printed, firstLetter?] at hhead
    | timedOut final =>
        exact ⟨final, rfl, List.head_eq_of_cons_eq (List.cons_eq_cons.1 hprinted).2⟩
    | faulted cause last => simp [printed, firstLetter?, head?_message] at hhead
    | tooLarge => cases hprinted
  · rintro ⟨final, rfl, rfl⟩
    rfl

theorem printed_eq_message_iff {ending : RomEnding} {cause : ProgramFault} {dump : String} :
    ending.printed = [(Fault.program cause).message, dump] ↔
      ∃ last, ending = .faulted cause last ∧ last.state.dump = dump := by
  constructor
  · intro hprinted
    have hhead := congrArg firstLetter? hprinted
    cases ending with
    | halted cycles final => simp [printed, firstLetter?, head?_message] at hhead
    | timedOut final => simp [printed, firstLetter?, head?_message] at hhead
    | faulted found last =>
        obtain ⟨hline, hdump⟩ := List.cons_eq_cons.1 hprinted
        obtain rfl := Fault.program_eq_of_message_eq hline
        exact ⟨last, rfl, List.head_eq_of_cons_eq hdump⟩
    | tooLarge => cases hprinted
  · rintro ⟨last, rfl, rfl⟩
    rfl

theorem exitCode_eq_one_iff {ending : RomEnding} :
    ending.exitCode = 1 ↔ ending = .tooLarge := by
  cases ending <;> simp [exitCode]

/-! ## What a test finds for an ending -/

variable {test : OutputTest} {ending : RomEnding}

theorem verdict_outcome_eq_timedOut_iff :
    (ending.outcome test).verdict = .timedOut ↔ ∃ final, ending = .timedOut final := by
  cases ending <;> simp [outcome, OutputTest.compareOutput_ne_timedOut]

/-- No dump is the text of a fault, so a test that has captured such a text has captured a
fault. -/
theorem actual?_outcome_eq_message_iff {cause : ProgramFault} :
    (ending.outcome test).actual? = some (Fault.program cause).message ↔
      ∃ last, ending = .faulted cause last := by
  cases ending with
  | halted cycles final => simp [outcome, Snapshot.dump_ne_message]
  | timedOut final => simp [outcome, Snapshot.dump_ne_message]
  | faulted found last =>
      simp only [outcome, Option.some.injEq, faulted.injEq, exists_and_left,
        exists_eq', and_true]
      exact ⟨Fault.program_eq_of_message_eq,
        congrArg fun cause => (Fault.program cause).message⟩
  | tooLarge => simp [outcome]

theorem verdict_outcome_eq_threwError_iff :
    (ending.outcome test).verdict = .threwError ↔ ending = .tooLarge := by
  cases ending <;> simp [outcome, OutputTest.compareOutput_ne_threwError]

end RomEnding

namespace RomEnds

variable {rom : ByteArray} {seed : UInt64} {ending : RomEnding}

/-- **The command prints the ending**, and its exit code tells whether there was one that a ROM
can bring about. -/
theorem runCommand_eq (hends : RomEnds rom seed ending) (least : LogLevel) {path : Path}
    {fs : FileSystem} (hread : fs.read path = .ok rom) :
    (runCommand least seed path stepLimit fs).stdout = unlines ending.printed ∧
      (runCommand least seed path stepLimit fs).exitCode = ending.exitCode := by
  simp only [runCommand, hread, hends.runRom_eq]
  cases ending with
  | halted cycles final => exact ⟨rfl, rfl⟩
  | timedOut final => exact ⟨rfl, rfl⟩
  | faulted cause last => exact ⟨rfl, rfl⟩
  | tooLarge => exact ⟨rfl, rfl⟩

theorem isFaultLine {cause : ProgramFault} {last : Machine ChaCha}
    (hends : RomEnds rom seed (.faulted cause last)) :
    IsFaultLine (Fault.program cause).message := by
  cases hends with
  | faulted hload hlimit hlast haway hfault =>
      obtain ⟨found, hfound, heq, -⟩ := Machine.step_eq_error_iff.1 hfault
      obtain rfl := Fault.program.inj heq
      exact isFaultLine_of_stepFault? hfound

/-- The line and the dump can be read off what is printed. -/
theorem unlines_printed_eq_iff (hends : RomEnds rom seed ending) {line dump : String}
    (hline : '\n' ∉ line.toList) :
    unlines ending.printed = unlines [line, dump] ↔ ending.printed = [line, dump] := by
  have hfirst : ∀ first text, '\n' ∉ first.toList → ending.printed = [first, text] →
      (unlines ending.printed = unlines [line, dump] ↔ ending.printed = [line, dump]) := by
    intro first text hplain hprinted
    rw [hprinted, unlines_pair_inj hplain hline, List.cons_eq_cons, List.cons_eq_cons,
      and_iff_left rfl]
  cases ending with
  | halted cycles final =>
      refine hfirst _ _ ?_ rfl
      simp [Numeral.not_mem_decimal]
  | timedOut final => exact hfirst _ _ (by decide) rfl
  | faulted cause last => exact hfirst _ _ hends.isFaultLine.1 rfl
  | tooLarge =>
      exact ⟨fun hempty => absurd hempty.symm (unlines_pair_ne_empty line dump), nofun⟩

theorem unlines_printed_eq_halted_iff (hends : RomEnds rom seed ending) {cycles : Nat}
    {dump : String} :
    unlines ending.printed =
        unlines ["Halted after " ++ Numeral.decimal cycles ++ " cycles.", dump] ↔
      ∃ final, ending = .halted cycles final ∧ final.state.dump = dump := by
  have hline : '\n' ∉ ("Halted after " ++ Numeral.decimal cycles ++ " cycles.").toList := by
    simp [Numeral.not_mem_decimal]
  rw [hends.unlines_printed_eq_iff hline, RomEnding.printed_eq_halted_iff]

theorem unlines_printed_eq_stopped_iff (hends : RomEnds rom seed ending) {dump : String} :
    unlines ending.printed = unlines ["Stopped after 10000 cycles.", dump] ↔
      ∃ final, ending = .timedOut final ∧ final.state.dump = dump := by
  rw [hends.unlines_printed_eq_iff (by decide), RomEnding.printed_eq_stopped_iff]

theorem unlines_printed_eq_iff_of_isFaultLine (hends : RomEnds rom seed ending)
    {line dump : String} (hline : IsFaultLine line) :
    unlines ending.printed = unlines [line, dump] ↔
      ∃ cause last, ending = .faulted cause last ∧ (Fault.program cause).message = line ∧
        last.state.dump = dump := by
  obtain ⟨hplain, cause, rfl⟩ := hline
  rw [hends.unlines_printed_eq_iff hplain, RomEnding.printed_eq_message_iff]
  constructor
  · rintro ⟨last, rfl, rfl⟩
    exact ⟨cause, last, rfl, rfl, rfl⟩
  · rintro ⟨found, last, rfl, hmessage, rfl⟩
    obtain rfl := Fault.program_eq_of_message_eq hmessage
    exact ⟨last, rfl, rfl⟩

end RomEnds

/-- The empty text leads to no file. -/
theorem FileSystem.text_ne_empty_of_read {path : Path} {fs : FileSystem} {rom : ByteArray}
    (hread : fs.read path = .ok rom) : path.text ≠ "" := by
  rintro hempty
  obtain rfl : path = ⟨""⟩ := by
    cases path
    exact congrArg Path.mk hempty
  cases hread

/-! ## The agreement -/

/-- **The program and the tests agree.**  Let a command line run the ROM at a path from a seed,
and let a test run the same ROM from the same seed.  The program prints after how many cycles it
has halted if and only if the ROM comes to the halt address in so many, and the test has counted
them and captured the dump that is printed.  It prints that it has stopped if and only if the
test has timed out, with the same dump.  It prints a fault if and only if the test has captured
one, which is the same, and the dump behind it is that of the machine just before the step that
failed.  It prints nothing and fails if and only if the test threw an error. -/
theorem run_agrees_with_test {path : Path} {fs : FileSystem} {rom : ByteArray} (seed : UInt64)
    (hread : fs.read path = .ok rom) (hoperand : isDetachedValue path.text = true)
    (test : OutputTest) (hrom : test.rom = rom) (hseed : test.seed = seed) :
    ∃ result outcome,
      runProgram ["run", "--seed", Numeral.decimal seed.toNat, path.text] fs = result ∧
      test.execute = (test.record outcome, outcome.verdict) ∧
      (∀ cycles,
        (∃ dump, result.stdout =
            unlines ["Halted after " ++ Numeral.decimal cycles ++ " cycles.", dump]) ↔
          ∃ final, RomEnds rom seed (.halted cycles final)) ∧
      (∀ cycles dump,
        result.stdout =
            unlines ["Halted after " ++ Numeral.decimal cycles ++ " cycles.", dump] →
          outcome.cycles = cycles ∧ outcome.actual? = some dump) ∧
      ((∃ dump, result.stdout = unlines ["Stopped after 10000 cycles.", dump]) ↔
        outcome.verdict = .timedOut) ∧
      (∀ dump, result.stdout = unlines ["Stopped after 10000 cycles.", dump] →
        outcome.actual? = some dump) ∧
      ((∃ line dump, IsFaultLine line ∧ result.stdout = unlines [line, dump]) ↔
        ∃ cause, outcome.actual? = some (Fault.program cause).message) ∧
      (∀ line dump, IsFaultLine line → result.stdout = unlines [line, dump] →
        outcome.actual? = some line ∧
          ∃ cause last, RomEnds rom seed (.faulted cause last) ∧ last.state.dump = dump) ∧
      (result.exitCode = 1 ∧ result.stdout = "" ↔ outcome.verdict = .threwError) ∧
      ((∃ line dump, result.stdout = unlines [line, dump]) → result.exitCode = 0) := by
  subst hrom hseed
  obtain ⟨ending, hends⟩ := RomEnds.exists_romEnds test.rom test.seed
  obtain ⟨hstdout, hexitCode⟩ := hends.runCommand_eq .warn hread
  refine ⟨runCommand .warn test.seed path stepLimit fs, ending.outcome test, ?_, ?_, ?_⟩
  · rw [runProgram, Invocation.ofArguments?_run
      (FileSystem.text_ne_empty_of_read hread) hoperand]
    rfl
  · rw [OutputTest.execute_eq, hends.judge_eq]
  rw [hstdout, hexitCode]
  refine ⟨fun cycles => ⟨?_, ?_⟩, fun cycles dump hprinted => ?_, ⟨?_, fun hverdict => ?_⟩,
    fun dump hprinted => ?_, ⟨?_, ?_⟩, fun line dump hline hprinted => ?_, ⟨?_, ?_⟩, ?_⟩
  · rintro ⟨dump, hprinted⟩
    obtain ⟨final, rfl, -⟩ := hends.unlines_printed_eq_halted_iff.1 hprinted
    exact ⟨final, hends⟩
  · rintro ⟨final, hhalted⟩
    obtain rfl := hends.eq hhalted
    exact ⟨final.state.dump, rfl⟩
  · obtain ⟨final, rfl, rfl⟩ := hends.unlines_printed_eq_halted_iff.1 hprinted
    exact ⟨rfl, rfl⟩
  · rintro ⟨dump, hprinted⟩
    obtain ⟨final, rfl, -⟩ := hends.unlines_printed_eq_stopped_iff.1 hprinted
    rfl
  · obtain ⟨final, rfl⟩ := RomEnding.verdict_outcome_eq_timedOut_iff.1 hverdict
    exact ⟨final.state.dump, rfl⟩
  · obtain ⟨final, rfl, rfl⟩ := hends.unlines_printed_eq_stopped_iff.1 hprinted
    rfl
  · rintro ⟨line, dump, hline, hprinted⟩
    obtain ⟨cause, last, rfl, -, -⟩ :=
      (hends.unlines_printed_eq_iff_of_isFaultLine hline).1 hprinted
    exact ⟨cause, rfl⟩
  · rintro ⟨cause, hactual⟩
    obtain ⟨last, rfl⟩ := RomEnding.actual?_outcome_eq_message_iff.1 hactual
    exact ⟨_, last.state.dump, hends.isFaultLine, rfl⟩
  · obtain ⟨cause, last, rfl, rfl, rfl⟩ :=
      (hends.unlines_printed_eq_iff_of_isFaultLine hline).1 hprinted
    exact ⟨rfl, cause, last, hends, rfl⟩
  · rintro ⟨hcode, -⟩
    exact RomEnding.verdict_outcome_eq_threwError_iff.2 (RomEnding.exitCode_eq_one_iff.1 hcode)
  · intro hverdict
    obtain rfl := RomEnding.verdict_outcome_eq_threwError_iff.1 hverdict
    exact ⟨rfl, rfl⟩
  · rintro ⟨line, dump, hprinted⟩
    cases ending with
    | halted cycles final => rfl
    | timedOut final => rfl
    | faulted cause last => rfl
    | tooLarge => exact absurd hprinted.symm (unlines_pair_ne_empty line dump)

theorem run_agrees_with_test_when_done :
    ∃ dump, (runProgram ["run", "--seed", "1", "done.test"] (doneDirectory "")).stdout =
        unlines ["Halted after 1 cycles.", dump] ∧
      (runProgram ["run", "--seed", "1", "done.test"] (doneDirectory "")).exitCode = 0 ∧
      (OutputTest.execute (.new Machine.doneRom "" 1)).1.actual = dump := by
  obtain ⟨result, outcome, hprogram, htest, hprints, hcaptures, -, -, -, -, -, hcode⟩ :=
    run_agrees_with_test 1 (read_doneDirectory "") rfl (.new Machine.doneRom "" 1) rfl rfl
  obtain ⟨dump, hstdout⟩ := (hprints 1).2 (romEnds_doneRom 1)
  refine ⟨dump, ?_, ?_, ?_⟩
  · exact (congrArg ProgramResult.stdout hprogram).trans hstdout
  · exact (congrArg ProgramResult.exitCode hprogram).trans (hcode ⟨_, dump, hstdout⟩)
  · rw [htest, OutputTest.actual]
    exact congrArg (·.getD "") (hcaptures 1 dump hstdout).2

end GoldenRom
