import GoldenRom.Proofs.Steps
import Mathlib.Logic.Function.Basic

/-!
# The table of instructions

Fifteen of the eighteen instructions touch no memory: they compute with registers, set the
index, or jump.  This module gives them as a table of numbers, in which neither bytes nor checks
occur.  A line of the table says what is written to which register, in which order, and where
the index and the program counter stand afterwards.  Operands are those of the state before, and
the flag comes last in its line, so where the destination is the flag register the flag is what
remains.

`Machine.step_follows_table` says that a step on such an instruction succeeds, does what its
line says, and nothing else.

## Main definitions

* `State.values`: the registers as numbers.
* `written`: the values after some writes, the latest of which counts.
* `Instruction.row?`: the table.
-/

namespace GoldenRom

/-- The values of registers after some of them have been written, one after the other. -/
def written (values : Register → Nat) (writes : List (Register × Nat)) : Register → Nat :=
  writes.foldl (fun values write => Function.update values write.1 write.2) values

/-- One line of the table. -/
structure TableRow where
  /-- What is written to which register, in this order. -/
  writes : List (Register × Nat)
  /-- Where the index stands afterwards. -/
  index : Nat
  /-- Where execution continues. -/
  pc : Nat

namespace State

/-- The registers as numbers. -/
def values (s : State) (x : Register) : Nat :=
  (s.register x).toNat

theorem values_setRegister (s : State) (x : Register) (byte : UInt8) :
    (s.setRegister x byte).values = Function.update s.values x byte.toNat := by
  funext y
  rw [values, register_setRegister, Function.update_apply]
  split
  · rfl
  · rfl

theorem values_setFlag (s : State) (condition : Prop) [Decidable condition] :
    (s.setFlag condition).values =
      Function.update s.values flagRegister (if condition then 1 else 0) := by
  rw [setFlag, values_setRegister]
  split
  · rfl
  · rfl

end State

namespace Instruction

open State

/-- The table of the instructions that touch no memory, with no line for the three that do.  The
number `drawn` is the random word, of which the low byte counts. -/
def row? (s : State) (drawn : Nat) (instruction : Instruction) : Option TableRow :=
  let v := s.values
  let i := s.index.toNat
  let following := s.pc.toNat + 2
  match instruction with
  | jump target => some ⟨[], i, target.toNat⟩
  | loadValue x value => some ⟨[(x, value.toNat)], i, following⟩
  | addValue x value => some ⟨[(x, (v x + value.toNat) % 256)], i, following⟩
  | move x y => some ⟨[(x, v y)], i, following⟩
  | or x y => some ⟨[(x, v x ||| v y)], i, following⟩
  | and x y => some ⟨[(x, v x &&& v y)], i, following⟩
  | xor x y => some ⟨[(x, v x ^^^ v y)], i, following⟩
  | add x y =>
      some ⟨[(x, (v x + v y) % 256), (flagRegister, if 256 ≤ v x + v y then 1 else 0)],
        i, following⟩
  | sub x y =>
      some ⟨[(x, (v x + 256 - v y) % 256), (flagRegister, if v x < v y then 1 else 0)],
        i, following⟩
  | subReversed x y =>
      some ⟨[(x, (v y + 256 - v x) % 256), (flagRegister, if v y < v x then 1 else 0)],
        i, following⟩
  | shiftRight x y => some ⟨[(x, v y / 2)], i, following⟩
  | shiftLeft x y => some ⟨[(x, 2 * v y % 256)], i, following⟩
  | .random x mask => some ⟨[(x, drawn % 256 &&& mask.toNat)], i, following⟩
  | loadIndex target => some ⟨[], target.toNat, following⟩
  | addIndex x =>
      some ⟨[(flagRegister, if 0x1000 ≤ i + v x then 1 else 0)], (i + v x) % 0x1000, following⟩
  | storeBcd _ | storeRegisters _ | loadRegisters _ => none

/-! ## The lines of the table -/

theorem span_of_row? {s : State} {drawn : Nat} {instruction : Instruction} {row : TableRow}
    (hrow : instruction.row? s drawn = some row) : instruction.span = 0 := by
  cases instruction <;> cases hrow
  all_goals rfl

/-- The difference of two bytes, as the table has it. -/
theorem toNat_sub_eq_mod (minuend subtrahend : UInt8) :
    (minuend - subtrahend).toNat = (minuend.toNat + 256 - subtrahend.toNat) % 256 := by
  have hminuend : minuend.toNat < 2 ^ 8 := minuend.toNat_lt
  have hsubtrahend : subtrahend.toNat < 2 ^ 8 := subtrahend.toNat_lt
  rw [UInt8.toNat_sub]
  omega

/-- The registers after an instruction are those of its line. -/
theorem values_result {s : State} {drawn : UInt32} {instruction : Instruction} {row : TableRow}
    (hrow : instruction.row? s drawn.toNat = some row) :
    (instruction.result drawn.toUInt8 s).values = written s.values row.writes := by
  -- The instructions without a line drop out; for the others the line takes the place of `row`.
  cases instruction <;> cases hrow
  case jump target => rfl
  case loadIndex target => rfl
  case loadValue x value => exact values_setRegister s x value
  case move x y => exact values_setRegister s x (s.register y)
  case addValue x value =>
    rw [result, values_setRegister, UInt8.toNat_add]
    rfl
  case or x y =>
    rw [result, values_setRegister, UInt8.toNat_or]
    rfl
  case and x y =>
    rw [result, values_setRegister, UInt8.toNat_and]
    rfl
  case xor x y =>
    rw [result, values_setRegister, UInt8.toNat_xor]
    rfl
  case add x y =>
    rw [result, values_setFlag, values_setRegister, UInt8.toNat_add]
    rfl
  case sub x y =>
    rw [result, values_setFlag, values_setRegister, toNat_sub_eq_mod]
    rfl
  case subReversed x y =>
    rw [result, values_setFlag, values_setRegister, toNat_sub_eq_mod]
    rfl
  case shiftRight x y =>
    rw [result, values_setRegister, UInt8.toNat_div]
    rfl
  case shiftLeft x y =>
    rw [result, values_setRegister, UInt8.toNat_mul]
    rfl
  case random x mask =>
    rw [result, values_setRegister, UInt8.toNat_and, UInt32.toNat_toUInt8]
    rfl
  case addIndex x =>
    rw [result, values_setFlag]
    rfl

/-- The index after an instruction is that of its line.  An index of twelve bits and a register
come to less than twice the length of memory, so the sum wraps once at most. -/
theorem index_result {s : State} {random : UInt8} {drawn : Nat} {instruction : Instruction}
    {row : TableRow} (hindex : s.index.toNat ≤ 0xFFF)
    (hrow : instruction.row? s drawn = some row) :
    (instruction.result random s).index.toNat = row.index := by
  cases instruction <;> cases hrow
  case addIndex x =>
    have hregister : (s.register x).toNat < 2 ^ 8 := (s.register x).toNat_lt
    simp only [result, setFlag, index_setRegister, Nat.toUInt16_eq, UInt16.toNat_ofNat', values,
      memorySize]
    split <;> omega
  all_goals rfl

/-- Execution continues where the line says.  No program counter with a whole word behind it
wraps. -/
theorem toNat_pc_next {s : State} {random : UInt8} {drawn : Nat} {instruction : Instruction}
    {row : TableRow} (hpc : s.pc.toNat ≤ 0xFFE) (hrow : instruction.row? s drawn = some row) :
    (instruction.next random s).pc.toNat = row.pc := by
  have hfollowing : (s.pc + 2).toNat = s.pc.toNat + 2 := by
    rw [UInt16.toNat_add]
    exact Nat.mod_eq_of_lt (by show s.pc.toNat + 2 < 65536; omega)
  rw [pc_next]
  cases instruction <;> cases hrow
  case jump target => rfl
  all_goals exact hfollowing

/-- No instruction of the table touches memory. -/
theorem memory_next {s : State} {random : UInt8} {drawn : Nat} {instruction : Instruction}
    {row : TableRow} (hrow : instruction.row? s drawn = some row) :
    (instruction.next random s).memory = s.memory := by
  have hresult : (instruction.result random s).memory = s.memory := by
    cases instruction <;> cases hrow
    all_goals rfl
  rw [next]
  split
  · exact hresult
  · exact hresult

/-- The random byte matters to the one instruction that draws it. -/
theorem next_eq_of_not_draws {instruction : Instruction} (hdraws : instruction.draws = false)
    (first second : UInt8) (s : State) :
    instruction.next first s = instruction.next second s := by
  cases instruction <;> cases hdraws
  all_goals rfl

end Instruction

namespace Machine

variable {γ : Type} [WordSource γ]

/-- An instruction may be handed the next random byte whether it draws or not. -/
theorem next_eq (machine : Machine γ) (instruction : Instruction) :
    machine.next instruction =
      ⟨instruction.next (WordSource.draw machine.source).1.toUInt8 machine.state,
        if instruction.draws then (WordSource.draw machine.source).2 else machine.source⟩ := by
  rw [next]
  cases hdraws : instruction.draws with
  | true => rfl
  | false => rw [Instruction.next_eq_of_not_draws hdraws 0]; rfl

/-! ## Steps -/

/-- **Instructions follow the table.**  A step on an instruction that has a line in the table
succeeds, whatever its operands are and wherever they coincide.  The registers, the index and
the program counter are those of the line, memory and stack stay as they were, and a word is
taken from the source only by the instruction that draws. -/
theorem step_follows_table {machine : Machine γ} {instruction : Instruction} {row : TableRow}
    (hpc : machine.state.pc.toNat ≤ 0xFFE) (hindex : machine.state.index.toNat ≤ 0xFFF)
    (hword : (machine.state.wordAt machine.state.pc.toNat).Encodes instruction)
    (hrow : instruction.row? machine.state (WordSource.draw machine.source).1.toNat =
      some row) :
    ∃ after, step machine = .ok () after ∧
      after.state.values = written machine.state.values row.writes ∧
      after.state.index.toNat = row.index ∧
      after.state.pc.toNat = row.pc ∧ after.state.memory = machine.state.memory ∧
      after.state.stack = machine.state.stack ∧
      after.state.stackIndex = machine.state.stackIndex ∧
      after.source =
        if (machine.state.wordAt machine.state.pc.toNat).Draws then
          (WordSource.draw machine.source).2
        else machine.source := by
  have hfetch : machine.state.pc.toNat + 2 ≤ memorySize := by
    rw [memorySize]
    omega
  have hspan : spanFault? machine.state.index.toNat instruction.span = none :=
    Instruction.spanFault?_of_span_eq_zero (Instruction.span_of_row? hrow) _
  refine ⟨_, step_of_encodes hfetch hword hspan, ?_⟩
  rw [next_eq]
  obtain ⟨hstack, hstackIndex⟩ :=
    Instruction.stack_next (WordSource.draw machine.source).1.toUInt8 machine.state instruction
  refine ⟨?_, ?_, Instruction.toNat_pc_next hpc hrow, Instruction.memory_next hrow, hstack,
    hstackIndex, if_congr hword.draws_iff.symm rfl rfl⟩
  · rw [← Instruction.values_result hrow]
    funext x
    exact congrArg UInt8.toNat (Instruction.register_next _ _ _ x)
  · rw [Instruction.index_next]
    exact Instruction.index_result hindex hrow

/-- A machine that adds the flag register to itself (`8FF4`) while it holds 200. -/
def flagDoubler : Machine SteppingSource where
  state := ((State.initial.setByte 0x200 0x8F).setByte 0x201 0xF4).setRegister flagRegister 200
  source := ⟨7, 1⟩

/-- The sum of 400 leaves 144 in the flag register, and then the carry takes its place. -/
theorem step_follows_table_on_flag :
    ∃ after, step flagDoubler = .ok () after ∧
      after.state.values =
        written flagDoubler.state.values [(flagRegister, 144), (flagRegister, 1)] ∧
      after.state.register flagRegister = 1 ∧ after.state.pc = 0x202 := by
  have hword : (flagDoubler.state.wordAt flagDoubler.state.pc.toNat).Encodes
      (.add flagRegister flagRegister) :=
    ⟨trivial, by decide +kernel⟩
  obtain ⟨after, hstep, hvalues, -, hpc, -⟩ :=
    step_follows_table (by decide +kernel) (by decide +kernel) hword rfl
  refine ⟨after, hstep, hvalues, ?_, UInt16.toNat_inj.1 hpc⟩
  have hflag : after.state.values flagRegister = 1 := by
    rw [hvalues]
    rfl
  exact UInt8.toNat_inj.1 hflag

end Machine

end GoldenRom
