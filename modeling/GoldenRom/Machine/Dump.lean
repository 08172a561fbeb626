import GoldenRom.Machine.State

/-!
# Dumps

A dump is the text of a state that tests compare: a line with the program counter and the index
register, two lines with eight registers each, and one line for every block of sixteen bytes of
memory that is not all zero.

## Main definitions

* `State.registersText`, `State.memoryText`: the two parts.
* `State.dump`: the parts with a line break between them.  With an empty memory the dump ends in
  that break.
-/

namespace GoldenRom

/-- The number of bytes that one line of a dump shows. -/
abbrev blockSize : Nat := 16

/-- The number of registers that one line of a dump shows. -/
abbrev registersPerRow : Nat := 8

/-- Whether no byte differs from zero. -/
def allZero (bytes : List UInt8) : Bool :=
  bytes.all (· == 0)

/-- The big-endian words of a list of bytes; a last odd byte is left out. -/
def bigEndianWords : List UInt8 → List Nat
  | high :: low :: rest => (high.toNat * 0x100 + low.toNat) :: bigEndianWords rest
  | _ => []

namespace State

/-- The name of a register and its value in three columns. -/
def registerText (s : State) (x : Register) : String :=
  "V" ++ Numeral.hex 1 x.val ++ ": " ++
    Numeral.alignRight 3 (Numeral.decimal (s.register x).toNat)

/-- Eight registers on one line. -/
def registerRow (s : State) (line : Nat) : String :=
  "  ".intercalate <| (List.range' (line * registersPerRow) registersPerRow).map fun x =>
    s.registerText (Register.ofNat x)

/-- The program counter, the index register and the sixteen registers. -/
def registersText (s : State) : String :=
  "\n".intercalate
    ["PC: " ++ Numeral.address s.pc.toNat ++ "  I: " ++ Numeral.address s.index.toNat,
      s.registerRow 0, s.registerRow 1]

/-- The sixteen bytes of a block of memory. -/
def block (s : State) (line : Nat) : List UInt8 :=
  (List.range' (line * blockSize) blockSize).map s.byteAt

/-- The address of a block and its eight words. -/
def blockText (s : State) (line : Nat) : String :=
  Numeral.hex 4 (line * blockSize) ++ ": " ++
    " ".intercalate ((bigEndianWords (s.block line)).map (Numeral.hex 4))

/-- The blocks of memory that are not all zero, in the order of their addresses. -/
def occupiedBlocks (s : State) : List Nat :=
  (List.range (memorySize / blockSize)).filter fun line => !allZero (s.block line)

/-- One line for every block of memory that is not all zero. -/
def memoryText (s : State) : String :=
  "\n".intercalate (s.occupiedBlocks.map s.blockText)

/-- The whole text of a state. -/
def dump (s : State) : String :=
  s.registersText ++ "\n" ++ s.memoryText

end State

end GoldenRom
