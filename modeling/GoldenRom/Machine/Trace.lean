import GoldenRom.LogLine
import GoldenRom.Machine.Run

/-!
# Traces

A machine tells in a log what it does: resets, loads, and one line for each instruction that it
recognizes.  The line of an instruction is written after the word has been recognized and before
it acts, so an instruction that fails to access memory has its line and a word that is no
instruction has none.

## Main definitions

* `TraceEntry`: what the trace tells about one instruction.
* `State.traceEntry?`: the entry of the next step.
* `Traced`, `Traced.step`, `Traced.runFrom`: a machine with its trace, and steps and runs that
  write it.
* `Machine.traceUntil`: the entries of a run.
* `LogLine.reset`, `LogLine.loading`, `TraceEntry.logLine`: the lines in the log.
-/

namespace GoldenRom

/-- What a trace tells about one instruction. -/
structure TraceEntry where
  address : Word
  word : Word
  mnemonic : String
deriving DecidableEq

namespace State

/-- The instruction at the program counter as a trace tells it; nothing if the next step fails
to fetch or to recognize it. -/
def traceEntry? (s : State) : Option TraceEntry :=
  match s.fetch with
  | .error _ => none
  | .ok word => word.pattern?.map fun pattern => ⟨s.pc, word, pattern.mnemonic⟩

end State

/-- A machine with the trace that it has written. -/
structure Traced (γ : Type) where
  machine : Machine γ
  entries : Array TraceEntry

namespace Traced

variable {γ : Type}

/-- A transition of the machine, which writes nothing. -/
def onMachine {α : Type} (transition : Transition (Machine γ) α) :
    Transition (Traced γ) α := fun ⟨machine, entries⟩ =>
  match transition machine with
  | .ok result machine => .ok result ⟨machine, entries⟩
  | .error fault machine => .error fault ⟨machine, entries⟩

/-- A step that writes its entry: after the word has been recognized, and before it acts. -/
def step [WordSource γ] : Transition (Traced γ) Unit := fun ⟨machine, entries⟩ =>
  let s := machine.state
  match s.fetch with
  | .error fault => .error (.program fault) ⟨machine, entries⟩
  | .ok word => match word.pattern? with
    | none => .error (.program (.unrecognizedOpcode word s.pc)) ⟨machine, entries⟩
    | some pattern =>
        let entries := entries.push ⟨s.pc, word, pattern.mnemonic⟩
        onMachine (Machine.execute (Instruction.ofOperation pattern.operation word))
          ⟨machine, entries⟩

/-- A run of such steps. -/
def runFrom [WordSource γ] (target : Word) (cycles limit : Nat) :
    Transition (Traced γ) RunEnd :=
  Transition.stepUntil step (fun traced => traced.machine.state.pc = target) cycles limit

/-- What a transition writes for a machine that has no trace yet, whether it fails or not. -/
def entriesOf {α : Type} (transition : Transition (Traced γ) α) (machine : Machine γ) :
    List TraceEntry :=
  match transition ⟨machine, #[]⟩ with
  | .ok _ traced | .error _ traced => traced.entries.toList

/-- **A step that writes its entry is a step.**  The entry is the one of the state before, and
it stays whatever the instruction then does. -/
theorem step_eq [WordSource γ] (machine : Machine γ) (entries : Array TraceEntry) :
    step ⟨machine, entries⟩ = onMachine Machine.step ⟨machine,
      entries ++ machine.state.traceEntry?.toArray⟩ := by
  unfold State.traceEntry?
  simp only [step, onMachine, Machine.step, State.nextInstruction, Instruction.ofWord?]
  cases machine.state.fetch with
  | error fault => rw [Option.toArray_none, Array.append_empty]
  | ok word =>
      dsimp only
      cases word.pattern? with
      | none => rw [Option.map_none, Option.map_none, Option.toArray_none, Array.append_empty]
      | some pattern =>
          rw [Option.map_some, Option.map_some, Option.toArray_some, Array.append_singleton]

theorem runFrom_succ [WordSource γ] (target : Word) (cycles limit : Nat) (traced : Traced γ) :
    runFrom target cycles (limit + 1) traced = match step traced with
      | .error fault traced => .error fault traced
      | .ok () traced =>
          if traced.machine.state.pc = target then .ok ⟨cycles + 1, true⟩ traced
          else runFrom target (cycles + 1) limit traced := by
  rw [runFrom, Transition.stepUntil_succ]
  cases step traced <;> rfl

/-- A transition that writes some entries and then goes on like a machine has written these. -/
theorem entriesOf_eq {α : Type} {transition : Transition (Traced γ) α}
    {plain : Transition (Machine γ) α} {machine : Machine γ} {entries : Array TraceEntry}
    (heq : transition ⟨machine, #[]⟩ = onMachine plain ⟨machine, entries⟩) :
    entriesOf transition machine = entries.toList := by
  rw [entriesOf, heq, onMachine]
  cases plain machine <;> rfl

end Traced

/-- The trace of a run: one entry for each attempted step whose instruction was recognized. -/
def Machine.traceUntil {γ : Type} [WordSource γ] (target : Word) (limit : Nat)
    (machine : Machine γ) : List TraceEntry :=
  Traced.entriesOf (Traced.runFrom target 0 limit) machine

/-- The log line of an instruction: its address, the word in four digits, and the mnemonic. -/
def TraceEntry.logLine (entry : TraceEntry) : LogLine :=
  ⟨.trace, Numeral.address entry.address.toNat ++ ": " ++ Numeral.hexUpper 4 entry.word.toNat ++
    " " ++ entry.mnemonic⟩

namespace LogLine

/-- The log line of a reset, which every new machine has had. -/
def reset : LogLine :=
  ⟨.debug, "reset"⟩

/-- The log line of an attempt to load a ROM. -/
def loading (rom : ByteArray) : LogLine :=
  ⟨.debug, "loading " ++ Numeral.decimal rom.size ++ " byte ROM"⟩

/-- The log of a new machine that loads a ROM and runs it; the trace is worked out only for a
reader who wants it. -/
def romRun {γ : Type} [WordSource γ] (least : LogLevel) (machine : Machine γ)
    (rom : ByteArray) (limit : Nat) : List LogLine :=
  let trace := match least, Machine.loadRom rom machine with
    | .trace, .ok () machine => (machine.traceUntil haltAddress limit).map TraceEntry.logLine
    | _, _ => []
  atLeast least [reset, loading rom] ++ trace

end LogLine

end GoldenRom
