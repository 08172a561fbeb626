import GoldenRom.Machine.Fault

/-!
# The state of a machine

Four kibibytes of memory, sixteen byte registers, an index register and a program counter.  The
last register is the flag: arithmetic reports carry and borrow there.  Space for a call stack is
part of the state although no instruction calls.

## Main definitions

* `State`: the state as a value, and `State.initial`, the state of a machine that has just been
  reset.
* `State.byteAt`, `State.setByte`: raw memory, total in the address.
* `State.loadRom`: the bulk copy of a ROM to the load address, which passes by the address
  guard.

### Design notes

Raw memory is read as zero and written without effect outside of its bounds.  Nothing observable
rests on this: every access that a program can ask for is checked first, by the guard or by the
fetch.
-/

namespace GoldenRom

/-- The number of bytes of memory. -/
abbrev memorySize : Nat := 0x1000

/-- Where a ROM is loaded and where execution starts. -/
abbrev loadAddress : Nat := 0x200

/-- The largest ROM that fits behind the load address. -/
abbrev romCapacity : Nat := memorySize - loadAddress

/-- The number of bytes set aside for a call stack. -/
abbrev stackSize : Nat := 16

/-- One of the sixteen registers. -/
abbrev Register := Fin 16

theorem Register.mod_lt (n : Nat) : n % 16 < 16 :=
  Nat.mod_lt n (Nat.succ_pos 15)

/-- The register of a number, counted modulo sixteen. -/
def Register.ofNat (n : Nat) : Register :=
  ⟨n % 16, Register.mod_lt n⟩

@[simp] theorem Register.val_ofNat (n : Nat) : (Register.ofNat n).val = n % 16 := rfl

/-- The register that carries and borrows are reported in. -/
def flagRegister : Register := Register.ofNat 0xF

/-- The state of one machine. -/
structure State where
  /-- All of memory, the address as the position. -/
  memory : Vector UInt8 memorySize
  /-- The registers V0 to VF. -/
  registers : Vector UInt8 16
  /-- The index register, the start of every block access. -/
  index : Word
  /-- The program counter, the address of the next instruction. -/
  pc : Word
  /-- Space for return addresses. -/
  stack : Vector UInt8 stackSize
  /-- The top of the stack, -1 while it is empty. -/
  stackIndex : Int8
deriving DecidableEq

namespace State

/-- The state after a reset: all zero, with the program counter at the load address and an empty
stack. -/
def initial : State where
  memory := Vector.replicate memorySize 0
  registers := Vector.replicate 16 0
  index := 0
  pc := loadAddress.toUInt16
  stack := Vector.replicate stackSize 0
  stackIndex := -1

/-- The byte at an address, zero outside of memory. -/
def byteAt (s : State) (address : Nat) : UInt8 :=
  if h : address < memorySize then s.memory[address] else 0

/-- The state with one byte of memory replaced; outside of memory nothing changes. -/
def setByte (s : State) (address : Nat) (byte : UInt8) : State :=
  { s with memory := s.memory.setIfInBounds address byte }

/-- The value of a register. -/
def register (s : State) (x : Register) : UInt8 :=
  s.registers[x]

/-- The state with one register replaced. -/
def setRegister (s : State) (x : Register) (byte : UInt8) : State :=
  { s with registers := s.registers.set x byte }

/-- The big-endian word whose first byte lies at an address. -/
def wordAt (s : State) (address : Nat) : Word :=
  ((s.byteAt address).toNat * 0x100 + (s.byteAt (address + 1)).toNat).toUInt16

/-- The raw bytes of a stretch of memory, cut off at the end of memory. -/
def bytes (s : State) (start length : Nat) : List UInt8 :=
  (List.range' start (min (start + length) memorySize - start)).map s.byteAt

/-- A ROM copied to the load address.  What lies behind its end keeps its content, so a short
ROM loaded after a longer one leaves the tail of that in place. -/
def loadRom (s : State) (rom : ByteArray) : Except EngineFault State :=
  if rom.size ≤ romCapacity then
    .ok { s with
      memory := Vector.ofFn fun address =>
        if h : loadAddress ≤ address.val ∧ address.val - loadAddress < rom.size then
          rom[address.val - loadAddress]
        else s.memory[address] }
  else
    .error (.romTooLarge rom.size romCapacity)

@[simp] theorem byteAt_initial (address : Nat) : initial.byteAt address = 0 := by
  simp [byteAt, initial]

@[simp] theorem register_initial (x : Register) : initial.register x = 0 := by
  simp [register, initial]

theorem byteAt_setByte (s : State) {address : Nat} (other : Nat) (byte : UInt8)
    (h : address < memorySize) :
    (s.setByte address byte).byteAt other =
      if other = address then byte else s.byteAt other := by
  unfold byteAt setByte
  by_cases inside : other < memorySize
  · simp [inside, Vector.getElem_setIfInBounds, eq_comm]
  · have : other ≠ address := by omega
    simp [inside, this]

@[simp] theorem register_setRegister (s : State) (x y : Register) (byte : UInt8) :
    (s.setRegister x byte).register y = if y = x then byte else s.register y := by
  simp [register, setRegister, Vector.getElem_set, Fin.ext_iff, eq_comm]

@[simp] theorem byteAt_setRegister (s : State) (x : Register) (byte : UInt8) (address : Nat) :
    (s.setRegister x byte).byteAt address = s.byteAt address := rfl

@[simp] theorem register_setByte (s : State) (address : Nat) (byte : UInt8) (x : Register) :
    (s.setByte address byte).register x = s.register x := rfl

/-- Only the length of a ROM can keep it from being loaded. -/
theorem loadRom_eq_error_iff {s : State} {rom : ByteArray} {fault : EngineFault} :
    s.loadRom rom = .error fault ↔ romCapacity < rom.size ∧
      fault = .romTooLarge rom.size romCapacity := by
  unfold loadRom
  grind

theorem size_le_of_loadRom {s t : State} {rom : ByteArray} (h : s.loadRom rom = .ok t) :
    rom.size ≤ romCapacity := by
  refine Nat.le_of_not_lt fun large => ?_
  rw [loadRom_eq_error_iff.2 ⟨large, rfl⟩] at h
  cases h

/-- After a load, the bytes of the ROM stand from the load address on and all other bytes are as
they were. -/
theorem byteAt_of_loadRom {s t : State} {rom : ByteArray} (h : s.loadRom rom = .ok t)
    (address : Nat) :
    t.byteAt address =
      if inside : loadAddress ≤ address ∧ address - loadAddress < rom.size then
        rom[address - loadAddress]
      else s.byteAt address := by
  unfold loadRom at h
  split at h
  · rename_i fits
    obtain rfl := Except.ok.inj h
    by_cases inMemory : address < memorySize
    · simp [byteAt, inMemory]
    · have : ¬(loadAddress ≤ address ∧ address - loadAddress < rom.size) := by
        simp only [romCapacity, memorySize, loadAddress] at *
        omega
      simp [byteAt, inMemory, this]
  · cases h

end State

end GoldenRom
