import GoldenRom.Machine.ChaCha
import GoldenRom.Machine.Guard
import GoldenRom.Machine.Instruction

/-!
# Execution

A machine is a state together with the source of its random words.  A step fetches the word at
the program counter, recognizes it and lets it act; every instruction but the jump then passes
on to the following word.

## Main definitions

* `Machine`, `Machine.new`, `Machine.seeded`: a machine that has just been reset, over a given
  source.
* `State.fetch`, `State.nextInstruction`: the word and the instruction at the program counter.
* `Instruction.act`: what an instruction does to a state, given the random byte that only one of
  them looks at.
* `Machine.step`, `Machine.reset`, `Machine.loadRom`: the operations on a machine.

### Design notes

Values are computed as natural numbers and pass through `State.guardByte` on their way into a
register or a byte of memory.  Operands are read before anything is written, and the flag is
written last, so an instruction whose destination is the flag register leaves the flag there.  A
block instruction checks the whole span before it touches any part of it.
-/

namespace GoldenRom

/-- A state and the source that random bytes are drawn from. -/
structure Machine (γ : Type) where
  state : State
  source : γ
deriving DecidableEq

namespace State

/-- The word at the program counter.  Fetching is no access of the program, so the guard is not
asked; only the end of memory stops it. -/
def fetch (s : State) : Except ProgramFault Word :=
  if s.pc.toNat + 2 ≤ memorySize then .ok (s.wordAt s.pc.toNat)
  else .error (.outOfBounds (max s.pc.toNat memorySize))

/-- The instruction at the program counter. -/
def nextInstruction (s : State) : Except ProgramFault Instruction :=
  match s.fetch with
  | .error fault => .error fault
  | .ok word => match Instruction.ofWord? word with
    | some instruction => .ok instruction
    | none => .error (.unrecognizedOpcode word s.pc)

/-- Stores a value in a register. -/
def putRegister (x : Register) (value : Nat) : Transition State Unit := do
  let byte ← guardByte value
  modify fun s => s.setRegister x byte

/-- Stores a carry, a borrow or a wrap in the flag register. -/
def putFlag (set : Bool) : Transition State Unit :=
  putRegister flagRegister set.toNat

/-- The value of a register as a number. -/
def getRegister (x : Register) : Transition State Nat := do
  return ((← get).register x).toNat

/-- The addresses of the span of a given length from the index on, all of them checked. -/
def checkSpan (length : Nat) : Transition State (List Nat) := do
  let span := List.range' (← get).index.toNat length
  span.forM guardAddress
  return span

/-- Stores a difference modulo 256 in a register, then the borrow in the flag. -/
def putDifference (x : Register) (minuend subtrahend : Nat) : Transition State Unit := do
  let borrow := decide (minuend < subtrahend)
  putRegister x (if borrow then minuend + 256 - subtrahend else minuend - subtrahend)
  -- Last, so that the borrow stays where the destination is the flag register.
  putFlag borrow

/-- Passes on to the following word. -/
def advance : Transition State Unit :=
  modify fun s => { s with pc := s.pc + 2 }

end State

/-- The registers V0 to VX. -/
def registersThrough (x : Register) : List Register :=
  (List.range (x.val + 1)).map Register.ofNat

namespace Instruction

open State

/-- What an instruction does to a state, apart from passing on to the following word.  The
random byte matters to one instruction only. -/
def effect (random : UInt8) : Instruction → Transition State Unit
  | jump target => modify fun s => { s with pc := target }
  | loadValue x value => putRegister x value.toNat
  | addValue x value => do putRegister x (((← getRegister x) + value.toNat) % 256)
  | move x y => do putRegister x (← getRegister y)
  | or x y => do putRegister x ((← getRegister x) ||| (← getRegister y))
  | and x y => do putRegister x ((← getRegister x) &&& (← getRegister y))
  | xor x y => do putRegister x ((← getRegister x) ^^^ (← getRegister y))
  | add x y => do
      let sum := (← getRegister x) + (← getRegister y)
      putRegister x (sum % 256)
      putFlag (decide (256 ≤ sum))
  | sub x y => do putDifference x (← getRegister x) (← getRegister y)
  | subReversed x y => do putDifference x (← getRegister y) (← getRegister x)
  | shiftRight x y => do putRegister x ((← getRegister y) / 2)
  | shiftLeft x y => do putRegister x (2 * (← getRegister y) % 256)
  | .random x mask => putRegister x (random &&& mask).toNat
  | loadIndex target => modify fun s => { s with index := target }
  | addIndex x => do
      let sum := (← get).index.toNat + (← getRegister x)
      let wraps := decide (memorySize ≤ sum)
      modify fun s => { s with index := (if wraps then sum - memorySize else sum).toUInt16 }
      putFlag wraps
  | storeBcd x => do
      let digits := Numeral.digits 10 3 (← getRegister x)
      let span ← checkSpan digits.length
      (span.zip digits).forM fun (address, digit) => writeByte address digit
  | storeRegisters x => do
      let span ← checkSpan (x.val + 1)
      (span.zip (registersThrough x)).forM fun (address, source) => do
        writeByte address (← getRegister source)
  | loadRegisters x => do
      let span ← checkSpan (x.val + 1)
      (span.zip (registersThrough x)).forM fun (address, destination) => do
        putRegister destination (← readByte address).toNat

/-- Whether an instruction says itself where execution continues. -/
def jumps : Instruction → Bool
  | jump _ => true
  | _ => false

/-- Whether an instruction draws a random byte. -/
def draws : Instruction → Bool
  | .random .. => true
  | _ => false

theorem draws_eq_true_iff {instruction : Instruction} :
    instruction.draws = true ↔ ∃ x mask, instruction = .random x mask := by
  cases instruction <;> simp [draws]

/-- What an instruction does to a state. -/
def act (random : UInt8) (instruction : Instruction) : Transition State Unit := do
  instruction.effect random
  unless instruction.jumps do advance

end Instruction

namespace Machine

variable {γ : Type}

/-- A machine that has just been reset. -/
def new (source : γ) : Machine γ where
  state := State.initial
  source := source

/-- A machine over the random words of a seed. -/
def seeded (seed : UInt64) : Machine ChaCha :=
  new (ChaCha.ofSeed seed)

/-- A transition of the state as a transition of the machine. -/
def onState {α : Type} (transition : Transition State α) :
    Transition (Machine γ) α := fun ⟨state, source⟩ =>
  match transition state with
  | .ok result state => .ok result ⟨state, source⟩
  | .error fault state => .error fault ⟨state, source⟩

/-- Draws a word and keeps its low byte. -/
def drawByte [WordSource γ] : Transition (Machine γ) UInt8 := fun ⟨state, source⟩ =>
  let (word, source) := WordSource.draw source
  .ok word.toUInt8 ⟨state, source⟩

/-- Executes an instruction.  A word is drawn if and only if the instruction asks for one. -/
def execute [WordSource γ] (instruction : Instruction) : Transition (Machine γ) Unit := do
  let random ← if instruction.draws then drawByte else pure 0
  onState (instruction.act random)

/-- Executes the instruction at the program counter. -/
def step [WordSource γ] : Transition (Machine γ) Unit := fun machine =>
  match machine.state.nextInstruction with
  | .ok instruction => execute instruction machine
  | .error fault => .error (.program fault) machine

/-- Puts the state back to the initial one.  The source goes on where it is. -/
def reset (machine : Machine γ) : Machine γ :=
  { machine with state := State.initial }

/-- Copies a ROM to the load address. -/
def loadRom (rom : ByteArray) : Transition (Machine γ) Unit := fun machine =>
  match machine.state.loadRom rom with
  | .ok state => .ok () { machine with state }
  | .error fault => .error (.engine fault) machine

end Machine

end GoldenRom
