import GoldenRom.Proofs.Access
import GoldenRom.Proofs.Encoding
import GoldenRom.Proofs.Numerals

/-!
# Closed forms of the instructions

An instruction is executed as a sequence of reads, checked narrowings and checked accesses, each
of which could fail.  This module shows that only one thing ever does: a block instruction whose
span meets a reserved region.  In every other case the state afterwards is the one that the
table of instructions promises.

## Main definitions

* `Instruction.span`: how many bytes of memory an instruction accesses.
* `Instruction.result`: the table, one line for each instruction, every operand read from the
  state before.
* `Instruction.next`: the state after the instruction has passed on to the following word.

Everything that is proved about steps and runs goes through `act_eq`; no other proof opens an
instruction.
-/

namespace GoldenRom

namespace State

/-- The state with the flag register telling whether a condition holds. -/
def setFlag (s : State) (condition : Prop) [Decidable condition] : State :=
  s.setRegister flagRegister (if condition then 1 else 0)

/-! ## Registers -/

/-- A value that is a byte passes the check on its way into a register. -/
theorem putRegister_toNat (x : Register) (byte : UInt8) (s : State) :
    putRegister x byte.toNat s = .ok () (s.setRegister x byte) := by
  have hbyte : guardByte byte.toNat s = .ok byte s := by
    have hcheck : checkByte byte.toNat = .ok byte := by
      rw [checkByte, if_pos byte.toNat_lt]
      exact congrArg Except.ok UInt8.ofNat_toNat
    rw [guardByte, hcheck]
  rw [putRegister, Transition.bind_of_ok hbyte]
  rfl

theorem putRegister_of_eq {value : Nat} {byte : UInt8} (hvalue : value = byte.toNat)
    (x : Register) (s : State) :
    putRegister x value s = .ok () (s.setRegister x byte) := by
  rw [hvalue, putRegister_toNat]

theorem putFlag_decide (condition : Prop) [Decidable condition] (s : State) :
    putFlag (decide condition) s = .ok () (s.setFlag condition) := by
  rw [putFlag, setFlag]
  by_cases hcondition : condition
  · rw [if_pos hcondition, decide_eq_true hcondition]
    exact putRegister_toNat flagRegister 1 s
  · rw [if_neg hcondition, decide_eq_false hcondition]
    exact putRegister_toNat flagRegister 0 s

/-- The borrow makes up for what the difference of two bytes lacks. -/
theorem toNat_sub_eq_ite (minuend subtrahend : UInt8) :
    (if minuend.toNat < subtrahend.toNat then minuend.toNat + 256 - subtrahend.toNat
      else minuend.toNat - subtrahend.toNat) = (minuend - subtrahend).toNat := by
  have hminuend : minuend.toNat < 2 ^ 8 := minuend.toNat_lt
  have hsubtrahend : subtrahend.toNat < 2 ^ 8 := subtrahend.toNat_lt
  rw [UInt8.toNat_sub]
  split <;> omega

theorem putDifference_eq (x : Register) (minuend subtrahend : UInt8) (s : State) :
    putDifference x minuend.toNat subtrahend.toNat s
      = .ok () ((s.setRegister x (minuend - subtrahend)).setFlag (minuend < subtrahend)) := by
  have hdifference := putRegister_of_eq (toNat_sub_eq_ite minuend subtrahend) x s
  simp only [putDifference, decide_eq_true_eq]
  rw [Transition.bind_of_ok hdifference]
  exact putFlag_decide (minuend < subtrahend) _

theorem getRegister_bind {α : Type} (x : Register) (next : Nat → Transition State α)
    (s : State) :
    (getRegister x >>= next) s = next (s.register x).toNat s := rfl

end State

namespace Instruction

open State

/-- How many bytes of memory an instruction accesses, from the index on. -/
def span : Instruction → Nat
  | storeBcd _ => 3
  | storeRegisters x => x.val + 1
  | loadRegisters x => x.val + 1
  | _ => 0

/-- The state after an instruction whose accesses are let through, apart from passing on to the
following word. -/
def result (random : UInt8) (s : State) : Instruction → State
  | jump target => { s with pc := target }
  | loadValue x value => s.setRegister x value
  | addValue x value => s.setRegister x (s.register x + value)
  | move x y => s.setRegister x (s.register y)
  | or x y => s.setRegister x (s.register x ||| s.register y)
  | and x y => s.setRegister x (s.register x &&& s.register y)
  | xor x y => s.setRegister x (s.register x ^^^ s.register y)
  | add x y =>
      (s.setRegister x (s.register x + s.register y)).setFlag
        (256 ≤ (s.register x).toNat + (s.register y).toNat)
  | sub x y =>
      (s.setRegister x (s.register x - s.register y)).setFlag (s.register x < s.register y)
  | subReversed x y =>
      (s.setRegister x (s.register y - s.register x)).setFlag (s.register y < s.register x)
  | shiftRight x y => s.setRegister x (s.register y / 2)
  | shiftLeft x y => s.setRegister x (2 * s.register y)
  | .random x mask => s.setRegister x (random &&& mask)
  | loadIndex target => { s with index := target }
  | addIndex x =>
      let sum := s.index.toNat + (s.register x).toNat
      { s with index := (if memorySize ≤ sum then sum - memorySize else sum).toUInt16 }.setFlag
        (memorySize ≤ sum)
  | storeBcd x =>
      s.storeBytes s.index.toNat ((Numeral.digits 10 3 (s.register x).toNat).map Nat.toUInt8)
  | storeRegisters x => s.storeBytes s.index.toNat ((registersThrough x).map s.register)
  | loadRegisters x => s.loadBytes s.index.toNat (x.val + 1)

/-! ## Instructions that access no memory -/

theorem spanFault?_of_span_eq_zero {instruction : Instruction} (hspan : instruction.span = 0)
    (start : Nat) :
    spanFault? start instruction.span = none := by
  rw [hspan]
  rfl

/-- An instruction that accesses no memory does what the table says.  Every value that it
computes is a byte, so none of the checks on the way into a register can fail. -/
theorem effect_of_span_eq_zero {instruction : Instruction} (hspan : instruction.span = 0)
    (random : UInt8) (s : State) :
    instruction.effect random s = .ok () (instruction.result random s) := by
  cases instruction with
  | storeBcd x | storeRegisters x | loadRegisters x => cases hspan
  | jump target | loadIndex target => rfl
  | loadValue x value => exact putRegister_toNat x value s
  | addValue x value =>
      rw [effect, getRegister_bind]
      exact putRegister_of_eq (UInt8.toNat_add _ _).symm x s
  | move x y =>
      rw [effect, getRegister_bind]
      exact putRegister_toNat x _ s
  | or x y =>
      rw [effect, getRegister_bind, getRegister_bind]
      exact putRegister_of_eq (UInt8.toNat_or _ _).symm x s
  | and x y =>
      rw [effect, getRegister_bind, getRegister_bind]
      exact putRegister_of_eq (UInt8.toNat_and _ _).symm x s
  | xor x y =>
      rw [effect, getRegister_bind, getRegister_bind]
      exact putRegister_of_eq (UInt8.toNat_xor _ _).symm x s
  | add x y =>
      rw [effect, getRegister_bind, getRegister_bind,
        Transition.bind_of_ok (putRegister_of_eq (UInt8.toNat_add _ _).symm x s)]
      exact putFlag_decide _ _
  | sub x y =>
      rw [effect, getRegister_bind, getRegister_bind]
      exact putDifference_eq x _ _ s
  | subReversed x y =>
      rw [effect, getRegister_bind, getRegister_bind]
      exact putDifference_eq x _ _ s
  | shiftRight x y =>
      rw [effect, getRegister_bind]
      exact putRegister_of_eq (UInt8.toNat_div _ 2).symm x s
  | shiftLeft x y =>
      rw [effect, getRegister_bind]
      exact putRegister_of_eq (UInt8.toNat_mul 2 _).symm x s
  | random x mask => exact putRegister_toNat x (random &&& mask) s
  | addIndex x =>
      simp only [result]
      rw [← putFlag_decide]
      simp only [effect, decide_eq_true_eq]
      rfl

/-! ## Block instructions -/

/-- A byte has three decimal digits, so the span of the instruction that stores them is always
filled. -/
theorem length_digits_toNat (byte : UInt8) : (Numeral.digits 10 3 byte.toNat).length = 3 := by
  have hbyte : byte.toNat < 2 ^ 8 := byte.toNat_lt
  exact Numeral.length_digits_of_lt (by omega)

theorem length_registersThrough (x : Register) : (registersThrough x).length = x.val + 1 := by
  rw [registersThrough, List.length_map, List.length_range]

/-- The three digits of a register lie below the base, so each is stored as it is. -/
theorem effect_storeBcd (random : UInt8) (x : Register) (s : State) :
    (storeBcd x).effect random s = match spanFault? s.index.toNat 3 with
      | none => .ok () ((storeBcd x).result random s)
      | some fault => .error (.program fault) s := by
  have hlength := length_digits_toNat (s.register x)
  rw [effect, getRegister_bind]
  simp only [hlength]
  refine checkSpan_bind_eq fun hspan => ?_
  have hstore : ∀ digit ∈ Numeral.digits 10 3 (s.register x).toNat, ∀ address (t : State),
      addressFault? address = none → t.registers = s.registers →
        writeByte address digit t = .ok () (t.setByte address digit.toUInt8) := by
    intro digit hdigit address t haddress _
    have hbyte : digit < 256 :=
      Nat.lt_trans (Numeral.digit_lt_of_mem_digits (by decide) hdigit) (by decide)
    rw [addressFault?_eq_none_iff, ← checkAddress_eq_ok_iff] at haddress
    rw [writeByte_eq, checkByte, if_pos hbyte, haddress]
  have hloop := forM_store writeByte Nat.toUInt8 (by rw [hlength]; exact hspan) hstore
  rw [hlength] at hloop
  exact hloop

/-- A register holds a byte, so each is stored as it is. -/
theorem effect_storeRegisters (random : UInt8) (x : Register) (s : State) :
    (storeRegisters x).effect random s = match spanFault? s.index.toNat (x.val + 1) with
      | none => .ok () ((storeRegisters x).result random s)
      | some fault => .error (.program fault) s := by
  have hlength := length_registersThrough x
  rw [effect]
  refine checkSpan_bind_eq fun hspan => ?_
  -- The registers are read between the stores, so it matters that no store changes them.
  have hstore : ∀ source ∈ registersThrough x, ∀ address (t : State),
      addressFault? address = none → t.registers = s.registers →
        (do writeByte address (← getRegister source)) t =
          .ok () (t.setByte address (s.register source)) := by
    intro source _ address t haddress hregisters
    have hsource : t.register source = s.register source :=
      register_eq_of_registers_eq hregisters source
    rw [addressFault?_eq_none_iff, ← checkAddress_eq_ok_iff] at haddress
    rw [getRegister_bind, writeByte_eq, checkByte, if_pos (t.register source).toNat_lt,
      haddress, hsource]
    exact congrArg (fun byte => EStateM.Result.ok () (t.setByte address byte)) UInt8.ofNat_toNat
  have hloop := forM_store (fun address source => do
    writeByte address (← getRegister source)) s.register
    (by rw [hlength]; exact hspan) hstore
  rw [hlength] at hloop
  exact hloop

/-- Memory holds bytes, so each is loaded as it is. -/
theorem effect_loadRegisters (random : UInt8) (x : Register) (s : State) :
    (loadRegisters x).effect random s = match spanFault? s.index.toNat (x.val + 1) with
      | none => .ok () ((loadRegisters x).result random s)
      | some fault => .error (.program fault) s := by
  rw [effect]
  refine checkSpan_bind_eq fun hspan => ?_
  have hload : ∀ address destination (t : State), addressFault? address = none →
      (do putRegister destination (← readByte address).toNat) t
        = .ok () (t.setRegister destination (t.byteAt address)) := by
    intro address destination t haddress
    rw [addressFault?_eq_none_iff, ← checkAddress_eq_ok_iff] at haddress
    have hread : readByte address t = .ok (t.byteAt address) t := by rw [readByte_eq, haddress]
    rw [Transition.bind_of_ok hread, putRegister_toNat]
  exact forM_load (fun address destination => do
    putRegister destination (← readByte address).toNat) (by omega) hspan
    hload

/-! ## All instructions -/

/-- **An instruction fails exactly at the first rejected address of its span, with nothing
changed.**  Otherwise it does what the table says. -/
theorem effect_eq (random : UInt8) (instruction : Instruction) (s : State) :
    instruction.effect random s = match spanFault? s.index.toNat instruction.span with
      | none => .ok () (instruction.result random s)
      | some fault => .error (.program fault) s := by
  cases instruction with
  | storeBcd x => exact effect_storeBcd random x s
  | storeRegisters x => exact effect_storeRegisters random x s
  | loadRegisters x => exact effect_loadRegisters random x s
  | _ =>
      rw [spanFault?_of_span_eq_zero rfl]
      exact effect_of_span_eq_zero rfl random s

/-- The state after an instruction whose accesses are let through: the table, and the following
word unless the instruction jumps. -/
def next (random : UInt8) (s : State) (instruction : Instruction) : State :=
  if instruction.jumps then instruction.result random s
  else { instruction.result random s with pc := (instruction.result random s).pc + 2 }

theorem act_eq (random : UInt8) (instruction : Instruction) (s : State) :
    instruction.act random s = match spanFault? s.index.toNat instruction.span with
      | none => .ok () (instruction.next random s)
      | some fault => .error (.program fault) s := by
  have heffect := effect_eq random instruction s
  rw [act]
  cases hspan : spanFault? s.index.toNat instruction.span with
  | some fault =>
      rw [hspan] at heffect
      exact Transition.bind_of_error heffect _
  | none =>
      rw [hspan] at heffect
      rw [Transition.bind_of_ok heffect, next]
      cases instruction.jumps <;> rfl

/-! ## What an instruction leaves alone -/

/-- Whether an instruction writes to memory. -/
def stores : Instruction → Bool
  | storeBcd _ => true
  | storeRegisters _ => true
  | _ => false

/-- Passing on to the following word changes the program counter only. -/
@[simp] theorem byteAt_next (random : UInt8) (s : State) (instruction : Instruction)
    (address : Nat) :
    (instruction.next random s).byteAt address =
      (instruction.result random s).byteAt address := by
  apply byteAt_eq_of_memory_eq
  rw [next]
  split <;> rfl

@[simp] theorem register_next (random : UInt8) (s : State) (instruction : Instruction)
    (x : Register) :
    (instruction.next random s).register x = (instruction.result random s).register x := by
  apply register_eq_of_registers_eq
  rw [next]
  split <;> rfl

@[simp] theorem index_next (random : UInt8) (s : State) (instruction : Instruction) :
    (instruction.next random s).index = (instruction.result random s).index := by
  rw [next]
  split <;> rfl

/-- No instruction touches the stack. -/
theorem stack_next (random : UInt8) (s : State) (instruction : Instruction) :
    (instruction.next random s).stack = s.stack ∧
      (instruction.next random s).stackIndex = s.stackIndex := by
  have hresult : (instruction.result random s).stack = s.stack ∧
      (instruction.result random s).stackIndex = s.stackIndex := by
    cases instruction <;> simp [result, setFlag]
  rw [next]
  split
  · exact hresult
  · exact hresult

/-- A jump continues at its target, every other instruction at the following word. -/
theorem pc_next (random : UInt8) (s : State) (instruction : Instruction) :
    (instruction.next random s).pc = match instruction with
      | jump target => target
      | _ => s.pc + 2 := by
  cases instruction <;> simp [next, jumps, result, setFlag]

/-- An index of twelve bits stays one: a target fits, and a sum wraps at the end of memory. -/
theorem index_next_lt {random : UInt8} {s : State} {instruction : Instruction}
    (hfits : instruction.TargetFits) (hindex : s.index.toNat < memorySize) :
    (instruction.next random s).index.toNat < memorySize := by
  rw [index_next]
  cases instruction with
  | loadIndex target => exact hfits
  | addIndex x =>
      -- A register adds less than memory is long, so the sum wraps once at most.
      have hregister : (s.register x).toNat < 2 ^ 8 := (s.register x).toNat_lt
      simp only [result, setFlag, index_setRegister, Nat.toUInt16_eq, UInt16.toNat_ofNat']
      simp only [memorySize] at hindex ⊢
      split <;> omega
  | _ => simpa [result, setFlag] using hindex

/-- Memory changes only where an instruction that stores has its span. -/
theorem byteAt_next_of_not_stored {random : UInt8} {s : State} {instruction : Instruction}
    {address : Nat}
    (hoff : ¬(instruction.stores ∧ s.index.toNat ≤ address ∧
      address < s.index.toNat + instruction.span)) :
    (instruction.next random s).byteAt address = s.byteAt address := by
  rw [byteAt_next]
  by_cases hinside : address < memorySize
  · cases instruction with
    | storeBcd x =>
        rw [result, byteAt_storeBytes _ _ _ hinside, dif_neg]
        rw [List.length_map, length_digits_toNat]
        simp only [stores, span, true_and] at hoff
        omega
    | storeRegisters x =>
        rw [result, byteAt_storeBytes _ _ _ hinside, dif_neg]
        rw [List.length_map, length_registersThrough]
        simp only [stores, span, true_and] at hoff
        omega
    | _ => exact byteAt_eq_of_memory_eq (by simp [result, setFlag]) address
  · rw [byteAt, byteAt, dif_neg hinside, dif_neg hinside]

/-- An instruction that stores has a span. -/
theorem span_pos_of_stores {instruction : Instruction} (hstores : instruction.stores = true) :
    0 < instruction.span := by
  cases instruction with
  | storeBcd x => exact Nat.succ_pos 2
  | storeRegisters x => exact Nat.succ_pos x.val
  | _ => cases hstores

/-- An instruction whose accesses are let through changes memory between the load address and
the call stack only. -/
theorem byteAt_next_of_reserved {random : UInt8} {s : State} {instruction : Instruction}
    {address : Nat} (hspan : spanFault? s.index.toNat instruction.span = none)
    (hreserved : ¬(0x200 ≤ address ∧ address < 0xEA0)) :
    (instruction.next random s).byteAt address = s.byteAt address := by
  apply byteAt_next_of_not_stored
  rintro ⟨hstores, hfirst, hlast⟩
  have hinside := (spanFault?_eq_none_iff (span_pos_of_stores hstores)).1 hspan
  omega

end Instruction

end GoldenRom
