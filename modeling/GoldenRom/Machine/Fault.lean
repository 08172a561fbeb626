import GoldenRom.Numeral

/-!
# Faults

A run can stop for two reasons that must never be confused.  A *program fault* is caused by what
a ROM asks for: an unknown instruction word, or an address that no access may touch.  Its text
is a legitimate result, which a test may expect.  An *engine fault* points at a defect outside
the program: a value that fits no byte, or a ROM that fits no memory.

## Main definitions

* `ProgramFault`, `EngineFault`: the causes, each with its own `message`.
* `Fault`: either of the two; its `message` names the kind first.
* `checkByte`: the checked passage from a wide value to a byte.
-/

namespace GoldenRom

/-- An instruction word, or the value of a sixteen-bit register. -/
abbrev Word := UInt16

/-- A failure caused by the content of a ROM. -/
inductive ProgramFault where
  /-- The word at an address is no instruction. -/
  | unrecognizedOpcode (opcode address : Word)
  /-- The address lies behind the last byte of memory. -/
  | outOfBounds (address : Nat)
  /-- The address lies in a region that no access may touch. -/
  | reserved (address : Nat) (reason : String)
deriving DecidableEq

/-- A failure that no program causes. -/
inductive EngineFault where
  /-- A value that was to be stored is larger than a byte. -/
  | invalidByte (value : Nat)
  /-- A ROM is longer than the memory behind the load address. -/
  | romTooLarge (length capacity : Nat)
deriving DecidableEq

/-- Why a step, an access or a load failed. -/
inductive Fault where
  | program (fault : ProgramFault)
  | engine (fault : EngineFault)
deriving DecidableEq

/-- The two kinds of faults. -/
inductive FaultKind where
  | program
  | engine
deriving DecidableEq

namespace ProgramFault

/-- What a program fault says. -/
def message : ProgramFault → String
  | unrecognizedOpcode opcode address =>
      "Unrecognized opcode " ++ Numeral.address opcode.toNat ++ " at address " ++
        Numeral.address address.toNat
  | outOfBounds address =>
      "Cannot access address " ++ Numeral.address address ++ ": out of bounds"
  | reserved address reason =>
      "Cannot access address " ++ Numeral.address address ++ ": reserved: " ++ reason

end ProgramFault

namespace EngineFault

/-- What an engine fault says. -/
def message : EngineFault → String
  | invalidByte value => "Value " ++ Numeral.decimal value ++ " does not fit in a byte"
  | romTooLarge length capacity =>
      "ROM of " ++ Numeral.decimal length ++ " bytes does not fit in " ++
        Numeral.decimal capacity
        ++ " bytes of program memory"

end EngineFault

namespace Fault

/-- Which kind of fault it is. -/
def kind : Fault → FaultKind
  | program _ => .program
  | engine _ => .engine

/-- What a fault says without its kind. -/
def cause : Fault → String
  | program fault => fault.message
  | engine fault => fault.message

/-- What a fault says, the kind first. -/
def message : Fault → String
  | program fault => "Crisp8Error: " ++ fault.message
  | engine fault => "Crisp8InternalError: " ++ fault.message

end Fault

/-- A wide value as a byte, if it is one. -/
def checkByte (value : Nat) : Except EngineFault UInt8 :=
  if value < 256 then .ok value.toUInt8 else .error (.invalidByte value)

theorem checkByte_eq_error_iff {value : Nat} {fault : EngineFault} :
    checkByte value = .error fault ↔ 256 ≤ value ∧ fault = .invalidByte value := by
  unfold checkByte
  grind

end GoldenRom
