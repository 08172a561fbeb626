import GoldenRom.Machine.State

/-!
# Instructions

An instruction is one sixteen-bit word.  Eighteen operations are known; each has a *pattern*, a
mask and the value that the masked word must have, and the catalog lists the patterns in the
order in which they are tried.  A word that fits a pattern is read as an `Instruction`, which
carries the operands that its operation uses and no others.

## Main definitions

* `Operation`, with `Operation.all` in declaration order, which is also the order of comparison.
* `Pattern`, `Operation.pattern`, `catalog`: how words are recognized.
* `Word.x`, `Word.y`, `Word.low`, `Word.target`: the operand fields, which every word has.
* `Instruction.ofWord?`: the instruction that a word stands for.
-/

namespace GoldenRom

/-- What an instruction does, apart from its operands. -/
inductive Operation where
  | jump
  | loadValue
  | addValue
  | move
  | or
  | and
  | xor
  | add
  | sub
  | shiftRight
  | subReversed
  | shiftLeft
  | random
  | loadIndex
  | addIndex
  | storeBcd
  | storeRegisters
  | loadRegisters
deriving DecidableEq, Ord

/-- How the words of one operation are recognized, and how the operation is called in a
trace. -/
structure Pattern where
  operation : Operation
  /-- The bits that are looked at. -/
  mask : Word
  /-- What these bits must be. -/
  value : Word
  mnemonic : String
deriving DecidableEq

/-- Whether a word fits a pattern. -/
def Pattern.covers (pattern : Pattern) (word : Word) : Bool :=
  word &&& pattern.mask == pattern.value

namespace Operation

/-- All operations in declaration order. -/
def all : List Operation :=
  [jump, loadValue, addValue, move, or, and, xor, add, sub, shiftRight, subReversed, shiftLeft,
    random, loadIndex, addIndex, storeBcd, storeRegisters, loadRegisters]

/-- What an operation is called. -/
def name : Operation → String
  | jump => "Jump"
  | loadValue => "LoadValue"
  | addValue => "AddValue"
  | move => "Move"
  | or => "Or"
  | and => "And"
  | xor => "Xor"
  | add => "Add"
  | sub => "Sub"
  | shiftRight => "ShiftRight"
  | subReversed => "SubReversed"
  | shiftLeft => "ShiftLeft"
  | random => "Random"
  | loadIndex => "LoadIndex"
  | addIndex => "AddIndex"
  | storeBcd => "StoreBcd"
  | storeRegisters => "StoreRegisters"
  | loadRegisters => "LoadRegisters"

/-- The pattern that an operation's words fit. -/
def pattern : Operation → Pattern
  | jump => ⟨jump, 0xF000, 0x1000, "jp"⟩
  | loadValue => ⟨loadValue, 0xF000, 0x6000, "ld"⟩
  | addValue => ⟨addValue, 0xF000, 0x7000, "add"⟩
  | move => ⟨move, 0xF00F, 0x8000, "ld"⟩
  | or => ⟨or, 0xF00F, 0x8001, "or"⟩
  | and => ⟨and, 0xF00F, 0x8002, "and"⟩
  | xor => ⟨xor, 0xF00F, 0x8003, "xor"⟩
  | add => ⟨add, 0xF00F, 0x8004, "add"⟩
  | sub => ⟨sub, 0xF00F, 0x8005, "sub"⟩
  | shiftRight => ⟨shiftRight, 0xF00F, 0x8006, "shr"⟩
  | subReversed => ⟨subReversed, 0xF00F, 0x8007, "subn"⟩
  | shiftLeft => ⟨shiftLeft, 0xF00F, 0x800E, "shl"⟩
  | random => ⟨random, 0xF000, 0xC000, "rnd"⟩
  | loadIndex => ⟨loadIndex, 0xF000, 0xA000, "ld i"⟩
  | addIndex => ⟨addIndex, 0xF0FF, 0xF01E, "add i"⟩
  | storeBcd => ⟨storeBcd, 0xF0FF, 0xF033, "bcd"⟩
  | storeRegisters => ⟨storeRegisters, 0xF0FF, 0xF055, "ld [i]"⟩
  | loadRegisters => ⟨loadRegisters, 0xF0FF, 0xF065, "ld v, [i]"⟩

@[simp] theorem operation_pattern (operation : Operation) :
    operation.pattern.operation = operation := by
  cases operation <;> rfl

theorem mem_all (operation : Operation) : operation ∈ all := by
  cases operation <;> decide

end Operation

/-- The patterns in the order in which they are tried. -/
def catalog : List Pattern :=
  [.jump, .loadValue, .addValue, .move, .or, .and, .xor, .add, .sub, .subReversed, .shiftRight,
    .shiftLeft, .random, .loadIndex, .addIndex, .storeBcd, .storeRegisters,
    .loadRegisters].map Operation.pattern

namespace Word

/-- The second nibble, the register that most instructions change. -/
def x (word : Word) : Register :=
  Register.ofNat (word.toNat / 0x100)

/-- The third nibble, the register that most instructions read. -/
def y (word : Word) : Register :=
  Register.ofNat (word.toNat / 0x10)

/-- The low byte, an immediate value. -/
def low (word : Word) : UInt8 :=
  word.toUInt8

/-- The low twelve bits, an address. -/
def target (word : Word) : Word :=
  word % 0x1000

/-- The first pattern of the catalog that a word fits. -/
def pattern? (word : Word) : Option Pattern :=
  catalog.find? (·.covers word)

end Word

/-- An operation together with the operands that it uses. -/
inductive Instruction where
  /-- `1NNN`: continue at the target. -/
  | jump (target : Word)
  /-- `6XNN`: VX becomes the value. -/
  | loadValue (x : Register) (value : UInt8)
  /-- `7XNN`: the value is added to VX; the flag stays. -/
  | addValue (x : Register) (value : UInt8)
  /-- `8XY0`: VX becomes VY. -/
  | move (x y : Register)
  /-- `8XY1`: VX becomes the disjunction of VX and VY. -/
  | or (x y : Register)
  /-- `8XY2`: VX becomes the conjunction of VX and VY. -/
  | and (x y : Register)
  /-- `8XY3`: VX becomes the exclusive disjunction of VX and VY. -/
  | xor (x y : Register)
  /-- `8XY4`: VY is added to VX; the flag is the carry. -/
  | add (x y : Register)
  /-- `8XY5`: VY is subtracted from VX; the flag is the borrow. -/
  | sub (x y : Register)
  /-- `8XY7`: VX becomes VY less VX; the flag is the borrow. -/
  | subReversed (x y : Register)
  /-- `8XY6`: VX becomes half of VY; the flag stays. -/
  | shiftRight (x y : Register)
  /-- `8XYE`: VX becomes the low byte of twice VY; the flag stays. -/
  | shiftLeft (x y : Register)
  /-- `CXNN`: VX becomes a random byte masked by the value. -/
  | random (x : Register) (mask : UInt8)
  /-- `ANNN`: the index register becomes the target. -/
  | loadIndex (target : Word)
  /-- `FX1E`: VX is added to the index register, which wraps at the end of memory; the flag
  tells whether it did. -/
  | addIndex (x : Register)
  /-- `FX33`: the three decimal digits of VX are stored from the index on. -/
  | storeBcd (x : Register)
  /-- `FX55`: V0 to VX are stored from the index on. -/
  | storeRegisters (x : Register)
  /-- `FX65`: V0 to VX are loaded from the index on. -/
  | loadRegisters (x : Register)
deriving DecidableEq

namespace Instruction

/-- An operation with its operands taken from a word. -/
def ofOperation (operation : Operation) (word : Word) : Instruction :=
  match operation with
  | .jump => jump word.target
  | .loadValue => loadValue word.x word.low
  | .addValue => addValue word.x word.low
  | .move => move word.x word.y
  | .or => or word.x word.y
  | .and => and word.x word.y
  | .xor => xor word.x word.y
  | .add => add word.x word.y
  | .sub => sub word.x word.y
  | .subReversed => subReversed word.x word.y
  | .shiftRight => shiftRight word.x word.y
  | .shiftLeft => shiftLeft word.x word.y
  | .random => random word.x word.low
  | .loadIndex => loadIndex word.target
  | .addIndex => addIndex word.x
  | .storeBcd => storeBcd word.x
  | .storeRegisters => storeRegisters word.x
  | .loadRegisters => loadRegisters word.x

/-- The instruction that a word stands for, if it fits a pattern of the catalog. -/
def ofWord? (word : Word) : Option Instruction :=
  word.pattern?.map fun pattern => ofOperation pattern.operation word

theorem ofWord?_eq_none_iff {word : Word} : ofWord? word = none ↔ word.pattern? = none := by
  simp [ofWord?]

end Instruction

end GoldenRom
