import GoldenRom.Proofs.InstructionTable
import Mathlib.Data.List.Basic

/-!
# The table of blocks

Three instructions move a block between the registers and memory.  This module gives them as a
table of numbers: how many addresses a block takes from the index on, and what every byte of
memory and every register is afterwards.  Whether the block is moved at all is a matter of the
guard, which is asked for the whole block before the first byte moves.  So a block that meets
the instruction itself does no harm to it, and a block that is refused has not been begun.

`Machine.step_moves_block` says when such a step succeeds, which fault it has otherwise, and
what it does.

## Main definitions

* `State.contents`: the bytes of memory as numbers.
* `Instruction.blockRow?`: the table.
* `FirstRejected`: the lowest address of a span that the guard rejects, and its fault.
-/

namespace GoldenRom

/-! ## The lowest rejected address -/

/-- The lowest address of a span that the guard rejects, and the fault that it gives there. -/
structure FirstRejected (start length address : Nat) (fault : ProgramFault) : Prop where
  start_le : start ≤ address
  lt_end : address < start + length
  accepted : ∀ lower, start ≤ lower → lower < address → checkAddress lower = .ok ()
  rejected : checkAddress address = .error fault

theorem checkAddress_eq_ok_iff_addressFault? {address : Nat} :
    checkAddress address = .ok () ↔ addressFault? address = none := by
  rw [checkAddress_eq_ok_iff, addressFault?_eq_none_iff]

/-- The fault of a span is that of its lowest rejected address. -/
theorem exists_firstRejected {start length : Nat} {fault : ProgramFault}
    (hspan : spanFault? start length = some fault) :
    ∃ address, FirstRejected start length address fault := by
  induction length generalizing start with
  | zero => cases hspan
  | succ length ih =>
      rw [spanFault?, List.range'_succ, List.findSome?_cons] at hspan
      cases hstart : addressFault? start with
      | some found =>
          rw [hstart] at hspan
          obtain rfl := Option.some.inj hspan
          exact ⟨start, Nat.le_refl start, by omega, fun lower _ _ => by omega,
            checkAddress_eq_error_iff.2 hstart⟩
      | none =>
          rw [hstart] at hspan
          obtain ⟨address, hfirst⟩ := ih hspan
          have hle := hfirst.start_le
          have hlt := hfirst.lt_end
          refine ⟨address, by omega, by omega, fun lower hlower haddress => ?_, hfirst.rejected⟩
          rcases Nat.eq_or_lt_of_le hlower with rfl | habove
          · exact checkAddress_eq_ok_iff_addressFault?.2 hstart
          · exact hfirst.accepted lower habove haddress

/-- A span is let through if all of its addresses are accepted. -/
theorem spanFault?_eq_none_iff_accepted {start length : Nat} :
    spanFault? start length = none ↔
      ∀ address, start ≤ address → address < start + length →
        checkAddress address = .ok () := by
  rw [spanFault?, List.findSome?_eq_none_iff]
  simp only [List.mem_range'_1, and_imp, checkAddress_eq_ok_iff_addressFault?]

/-! ## The table -/

/-- One line of the table of blocks. -/
structure BlockRow where
  /-- How many addresses the block takes, from the index on. -/
  length : Nat
  /-- What the bytes of memory are afterwards. -/
  contents : Nat → Nat
  /-- What the registers are afterwards. -/
  values : Register → Nat

/-- The bytes of memory as numbers. -/
def State.contents (s : State) (address : Nat) : Nat :=
  (s.byteAt address).toNat

namespace Instruction

open State

/-- The table of the instructions that move a block, with no line for the others. -/
def blockRow? (s : State) (instruction : Instruction) : Option BlockRow :=
  let v := s.values
  let m := s.contents
  let i := s.index.toNat
  match instruction with
  | storeBcd x =>
      some ⟨3, fun address =>
        if address = i then v x / 100
        else if address = i + 1 then v x / 10 % 10
        else if address = i + 2 then v x % 10
        else m address, v⟩
  | storeRegisters x =>
      some ⟨x.val + 1, fun address =>
        if i ≤ address ∧ address ≤ i + x.val then v (Register.ofNat (address - i))
        else m address, v⟩
  | loadRegisters x => some ⟨x.val + 1, m, fun y => if y ≤ x then m (i + y.val) else v y⟩
  | _ => none

/-! ## The lines of the table -/

theorem span_of_blockRow? {s : State} {instruction : Instruction} {row : BlockRow}
    (hrow : instruction.blockRow? s = some row) :
    instruction.span = row.length ∧ 0 < row.length := by
  cases instruction <;> cases hrow
  case storeBcd x => exact ⟨rfl, Nat.succ_pos 2⟩
  case storeRegisters x => exact ⟨rfl, Nat.succ_pos x.val⟩
  case loadRegisters x => exact ⟨rfl, Nat.succ_pos x.val⟩

/-- The three digits of a number below a thousand are its hundreds, its tens and its ones. -/
theorem digits_ten_three {n : Nat} (hn : n < 1000) :
    Numeral.digits 10 3 n = [n / 100, n / 10 % 10, n % 10] := by
  have hlength : (Numeral.digits 10 3 n).length = 3 := Numeral.length_digits_of_lt hn
  have hvalue : Numeral.value 10 (Numeral.digits 10 3 n) = n :=
    Numeral.value_digits (by decide) 3 n
  have hdigit : ∀ digit ∈ Numeral.digits 10 3 n, digit < 10 :=
    fun digit => Numeral.digit_lt_of_mem_digits (by decide)
  obtain ⟨hundreds, tens, ones, hdigits⟩ := List.length_eq_three.1 hlength
  rw [hdigits] at hvalue hdigit ⊢
  have htens : tens < 10 := hdigit tens (by simp)
  have hones : ones < 10 := hdigit ones (by simp)
  have hsum : ((0 * 10 + hundreds) * 10 + tens) * 10 + ones = n := hvalue
  simp only [List.cons.injEq, and_true]
  omega

/-- What a store puts at an address is a byte of its list, if the address lies in the span. -/
theorem contents_storeBytes {s : State} {bytes : List UInt8}
    (hinside : s.index.toNat + bytes.length ≤ memorySize) (address : Nat) :
    (s.storeBytes s.index.toNat bytes).contents address =
      if h : s.index.toNat ≤ address ∧ address - s.index.toNat < bytes.length
        then (bytes[address - s.index.toNat]).toNat
      else s.contents address := by
  by_cases haddress : address < memorySize
  · rw [contents, byteAt_storeBytes _ _ _ haddress]
    split <;> rfl
  · rw [dif_neg (by omega), contents, contents, byteAt, byteAt, dif_neg haddress,
      dif_neg haddress]

/-- The bytes of memory after an instruction that moves a block are those of its line. -/
theorem contents_result (random : UInt8) {s : State} {instruction : Instruction}
    {row : BlockRow} (hrow : instruction.blockRow? s = some row)
    (hinside : s.index.toNat + row.length ≤ memorySize) :
    (instruction.result random s).contents = row.contents := by
  funext address
  cases instruction <;> cases hrow
  case storeBcd x =>
    have hregister : (s.register x).toNat < 2 ^ 8 := (s.register x).toNat_lt
    have hdigits := digits_ten_three (n := (s.register x).toNat) (by omega)
    have hbytes : ∀ digit, digit < 10 → digit.toUInt8.toNat = digit := by
      intro digit hdigit
      rw [Nat.toUInt8_eq, UInt8.toNat_ofNat']
      omega
    rw [result, hdigits, contents_storeBytes hinside]
    simp only [values]
    -- The three addresses of the span, one after the other, and then all others.
    by_cases hfirst : address = s.index.toNat
    · subst hfirst
      rw [dif_pos (by simp), if_pos rfl]
      simpa using hbytes _ (by omega)
    by_cases hsecond : address = s.index.toNat + 1
    · subst hsecond
      rw [dif_pos (by simp), if_neg hfirst, if_pos rfl]
      simpa using hbytes _ (Nat.mod_lt _ (by decide))
    by_cases hthird : address = s.index.toNat + 2
    · subst hthird
      rw [dif_pos (by simp), if_neg hfirst, if_neg hsecond, if_pos rfl]
      simpa using hbytes _ (Nat.mod_lt _ (by decide))
    · rw [if_neg hfirst, if_neg hsecond, if_neg hthird, dif_neg]
      simp only [List.length_map, List.length_cons, List.length_nil]
      omega
  case storeRegisters x =>
    have hlength : ((registersThrough x).map s.register).length = x.val + 1 := by
      rw [List.length_map, length_registersThrough]
    rw [result, contents_storeBytes (by rw [hlength]; exact hinside)]
    dsimp only
    by_cases hspan : s.index.toNat ≤ address ∧ address ≤ s.index.toNat + x.val
    · rw [if_pos hspan, dif_pos (by rw [hlength]; omega)]
      simp only [registersThrough, List.getElem_map, List.getElem_range]
      rfl
    · rw [if_neg hspan, dif_neg (by rw [hlength]; omega)]
  case loadRegisters x => exact congrArg UInt8.toNat (byteAt_loadBytes s _ _ address)

/-- The registers after an instruction that moves a block are those of its line. -/
theorem values_result_of_blockRow? (random : UInt8) {s : State} {instruction : Instruction}
    {row : BlockRow} (hrow : instruction.blockRow? s = some row) :
    (instruction.result random s).values = row.values := by
  funext y
  cases instruction <;> cases hrow
  case storeBcd x => exact congrArg UInt8.toNat (register_storeBytes s _ _ y)
  case storeRegisters x => exact congrArg UInt8.toNat (register_storeBytes s _ _ y)
  case loadRegisters x =>
    have hthrough : y.val < x.val + 1 ↔ y ≤ x := Nat.lt_succ_iff
    rw [result, values, register_loadBytes]
    simp only [hthrough]
    split <;> rfl

/-- No instruction that moves a block touches the index, jumps or draws. -/
theorem frame_of_blockRow? (random : UInt8) {s : State} {instruction : Instruction}
    {row : BlockRow} (hrow : instruction.blockRow? s = some row) :
    (instruction.next random s).index = s.index ∧ (instruction.next random s).pc = s.pc + 2 ∧
      instruction.draws = false := by
  rw [index_next, pc_next]
  cases instruction <;> cases hrow
  case storeBcd x => exact ⟨index_storeBytes s _ _, rfl, rfl⟩
  case storeRegisters x => exact ⟨index_storeBytes s _ _, rfl, rfl⟩
  case loadRegisters x => exact ⟨index_loadBytes s _ _, rfl, rfl⟩

end Instruction

namespace Machine

variable {γ : Type} [WordSource γ]

/-! ## Steps -/

/-- **Instructions move blocks as the table says.**  A step on an instruction that has a line in
the table succeeds if and only if the guard accepts every address of the block, which is to say
that the block lies between the load address and the call stack.  Otherwise it fails with the
fault of the lowest address that is rejected, and the machine is as it was.  A step that
succeeds makes memory and registers what the line says, also where the block meets the
instruction, passes on to the following word, and leaves everything else alone. -/
theorem step_moves_block {machine : Machine γ} {instruction : Instruction} {row : BlockRow}
    (hpc : machine.state.pc.toNat ≤ 0xFFE)
    (hword : (machine.state.wordAt machine.state.pc.toNat).Encodes instruction)
    (hrow : instruction.blockRow? machine.state = some row) :
    ((∃ after, step machine = .ok () after) ↔
        ∀ address, machine.state.index.toNat ≤ address →
          address < machine.state.index.toNat + row.length →
          checkAddress address = .ok ()) ∧
      ((∃ after, step machine = .ok () after) ↔
        0x200 ≤ machine.state.index.toNat ∧ machine.state.index.toNat + row.length ≤ 0xEA0) ∧
      ((¬∃ after, step machine = .ok () after) →
        ∃ address fault, FirstRejected machine.state.index.toNat row.length address fault ∧
          step machine = .error (.program fault) machine) ∧
      ∀ after, step machine = .ok () after →
        after.state.contents = row.contents ∧ after.state.values = row.values ∧
          after.state.index = machine.state.index ∧
          after.state.pc.toNat = machine.state.pc.toNat + 2 ∧
          after.state.stack = machine.state.stack ∧
          after.state.stackIndex = machine.state.stackIndex ∧
          after.source = machine.source := by
  obtain ⟨hlength, hpos⟩ := Instruction.span_of_blockRow? hrow
  have hfetch : machine.state.pc.toNat + 2 ≤ memorySize := by
    rw [memorySize]
    omega
  have hnext : machine.state.nextInstruction = .ok instruction :=
    State.nextInstruction_eq_ok_iff.2 ⟨hfetch, hword⟩
  have hsucceeds : (∃ after, step machine = .ok () after) ↔
      spanFault? machine.state.index.toNat row.length = none := by
    rw [← hlength]
    constructor
    · rintro ⟨after, hafter⟩
      obtain ⟨found, hfound, hspan, -⟩ := step_eq_ok_iff.1 hafter
      obtain rfl : instruction = found := Except.ok.inj (hnext.symm.trans hfound)
      exact hspan
    · intro hspan
      exact ⟨_, step_of_encodes hfetch hword hspan⟩
  refine ⟨hsucceeds.trans spanFault?_eq_none_iff_accepted,
    hsucceeds.trans (spanFault?_eq_none_iff hpos), ?_, ?_⟩
  · intro hfails
    rw [hsucceeds, ← Ne, Option.ne_none_iff_exists'] at hfails
    obtain ⟨fault, hfault⟩ := hfails
    obtain ⟨address, hfirst⟩ := exists_firstRejected hfault
    have hstepFault : machine.state.stepFault? = some fault := by
      rw [State.stepFault?, hnext]
      show spanFault? _ instruction.span = some fault
      rw [hlength, hfault]
    exact ⟨address, fault, hfirst, step_eq_error_iff.2 ⟨fault, hstepFault, rfl, rfl⟩⟩
  · intro after hafter
    have hspan := hsucceeds.1 ⟨after, hafter⟩
    have hinside : machine.state.index.toNat + row.length ≤ memorySize :=
      Nat.le_trans ((spanFault?_eq_none_iff hpos).1 hspan).2 (by decide)
    obtain ⟨found, hfound, -, rfl⟩ := step_eq_ok_iff.1 hafter
    obtain rfl : instruction = found := Except.ok.inj (hnext.symm.trans hfound)
    obtain ⟨random, hstate⟩ := exists_state_next machine instruction
    obtain ⟨hindex, hpcNext, hdraws⟩ := Instruction.frame_of_blockRow? random hrow
    obtain ⟨hstack, hstackIndex⟩ := Instruction.stack_next random machine.state instruction
    rw [hstate]
    refine ⟨?_, ?_, hindex, ?_, hstack, hstackIndex, ?_⟩
    · rw [← Instruction.contents_result random hrow hinside]
      funext address
      exact congrArg UInt8.toNat (Instruction.byteAt_next _ _ _ address)
    · rw [← Instruction.values_result_of_blockRow? random hrow]
      funext x
      exact congrArg UInt8.toNat (Instruction.register_next _ _ _ x)
    · rw [hpcNext, UInt16.toNat_add]
      exact Nat.mod_eq_of_lt (by show machine.state.pc.toNat + 2 < 65536; omega)
    · rw [next, hdraws, if_neg Bool.false_ne_true]

/-- A machine that is about to store two registers (`F155`), which hold 7 and 9, from an index
on. -/
def pairStorer (index : Word) : Machine SteppingSource where
  state :=
    { (State.initial
        |>.setByte 0x200 0xF1 |>.setByte 0x201 0x55
        |>.setRegister (Register.ofNat 0) 7 |>.setRegister (Register.ofNat 1) 9) with
      index }
  source := ⟨7, 1⟩

/-- Over itself the instruction is stored, and over the edge of the call stack it is not, not
even its first byte. -/
theorem step_moves_block_over_itself :
    (∃ after, step (pairStorer 0x200) = .ok () after ∧
      after.state.byteAt 0x200 = 7 ∧ after.state.byteAt 0x201 = 9 ∧
        after.state.pc = 0x202) ∧
      step (pairStorer 0xE9F) =
        .error (.program (.reserved 0xEA0 "call stack / runtime variables"))
          (pairStorer 0xE9F) := by
  have hwordOver : ((pairStorer 0x200).state.wordAt (pairStorer 0x200).state.pc.toNat).Encodes
      (.storeRegisters (Register.ofNat 1)) := ⟨trivial, by decide +kernel⟩
  have hwordEdge : ((pairStorer 0xE9F).state.wordAt (pairStorer 0xE9F).state.pc.toNat).Encodes
      (.storeRegisters (Register.ofNat 1)) := ⟨trivial, by decide +kernel⟩
  have hover := step_moves_block (by decide +kernel) hwordOver rfl
  have hedge := step_moves_block (by decide +kernel) hwordEdge rfl
  constructor
  · obtain ⟨after, hafter⟩ := hover.2.1.2 (by decide +kernel)
    obtain ⟨hcontents, -, -, hpc, -⟩ := hover.2.2.2 after hafter
    have hfirst : after.state.contents 0x200 = 7 := by
      rw [hcontents]
      decide +kernel
    have hsecond : after.state.contents 0x201 = 9 := by
      rw [hcontents]
      decide +kernel
    exact ⟨after, hafter, UInt8.toNat_inj.1 hfirst, UInt8.toNat_inj.1 hsecond,
      UInt16.toNat_inj.1 hpc⟩
  · obtain ⟨address, fault, hfirst, hfails⟩ := hedge.2.2.1 fun hsucceeds =>
      absurd (hedge.2.1.1 hsucceeds) (by decide +kernel)
    have hle : 0xE9F ≤ address := hfirst.start_le
    have hlt : address < 0xEA1 := hfirst.lt_end
    have hne : address ≠ 0xE9F := by
      rintro rfl
      cases hfirst.rejected
    obtain rfl : address = 0xEA0 := by omega
    obtain rfl : ProgramFault.reserved 0xEA0 "call stack / runtime variables" = fault :=
      Except.error.inj hfirst.rejected
    exact hfails

end Machine

end GoldenRom
