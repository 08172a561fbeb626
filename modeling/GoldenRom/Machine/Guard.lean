import GoldenRom.Machine.State

/-!
# The address guard

A program may read and write the memory between the load address and the call stack.  The rest
is reserved: the interpreter below, the call stack and the display above.  The guard names the
region in its fault, and reads and writes pass through the same check.

## Main definitions

* `Region`, `reservedRegions`: the reserved stretches in the order in which they are tried.
* `checkAddress`: the check itself; behind the end of memory comes first, then the regions.
* `Transition`: a computation on a state that may fail and keeps what it changed before.
* `State.readByte`, `State.writeByte`: guarded access to one byte.
-/

namespace GoldenRom

/-- A stretch of memory, both ends included, that no access may touch. -/
structure Region where
  first : Nat
  last : Nat
  reason : String
deriving DecidableEq

/-- Whether a region contains an address. -/
def Region.covers (region : Region) (address : Nat) : Bool :=
  region.first ≤ address && address ≤ region.last

/-- The reserved regions, in the order in which they are tried. -/
def reservedRegions : List Region :=
  [⟨0x000, 0x1FF, "interpreter"⟩,
   ⟨0xEA0, 0xEFF, "call stack / runtime variables"⟩,
   ⟨0xF00, 0xFFF, "display"⟩]

/-- The reserved region that contains an address. -/
def reservedRegion? (address : Nat) : Option Region :=
  reservedRegions.find? (·.covers address)

/-- Refuses the addresses that no access may touch. -/
def checkAddress (address : Nat) : Except ProgramFault Unit :=
  if memorySize ≤ address then .error (.outOfBounds address)
  else match reservedRegion? address with
    | some region => .error (.reserved address region.reason)
    | none => .ok ()

/-- A computation on a value of type `σ` that may fail.  A failure hands back the value as it
was at that moment, so whatever was changed before remains changed. -/
abbrev Transition (σ : Type) := EStateM Fault σ

namespace State

/-- Refuses the addresses that no access may touch, as a step of a transition. -/
def guardAddress (address : Nat) : Transition State Unit := fun s =>
  match checkAddress address with
  | .ok () => .ok () s
  | .error fault => .error (.program fault) s

/-- A wide value as a byte, as a step of a transition. -/
def guardByte (value : Nat) : Transition State UInt8 := fun s =>
  match checkByte value with
  | .ok byte => .ok byte s
  | .error fault => .error (.engine fault) s

/-- The byte at an address, if it may be read. -/
def readByte (address : Nat) : Transition State UInt8 := do
  guardAddress address
  return (← get).byteAt address

/-- Stores a value at an address.  The value is judged before the address: one that fits no byte
is a defect of the engine wherever it was to go. -/
def writeByte (address value : Nat) : Transition State Unit := do
  let byte ← guardByte value
  guardAddress address
  modify fun s => s.setByte address byte

theorem readByte_eq (s : State) (address : Nat) :
    readByte address s = match checkAddress address with
      | .ok () => .ok (s.byteAt address) s
      | .error fault => .error (.program fault) s := by
  simp only [readByte, guardAddress, bind, EStateM.bind, pure, EStateM.pure]
  cases checkAddress address <;> rfl

theorem writeByte_eq (s : State) (address value : Nat) :
    writeByte address value s = match checkByte value with
      | .error fault => .error (.engine fault) s
      | .ok byte => match checkAddress address with
        | .ok () => .ok () (s.setByte address byte)
        | .error fault => .error (.program fault) s := by
  simp only [writeByte, guardByte, guardAddress, bind, EStateM.bind]
  cases checkByte value with
  | error fault => rfl
  | ok byte => cases checkAddress address <;> rfl

end State

/-- No two regions share an address, so the order in which they are tried does not matter. -/
theorem reservedRegions_pairwise_disjoint :
    reservedRegions.Pairwise fun r t => ∀ address, ¬(r.covers address ∧ t.covers address) := by
  simp only [reservedRegions, Region.covers, List.pairwise_cons, List.mem_cons,
    List.not_mem_nil, or_false, forall_eq_or_imp, forall_eq, Bool.and_eq_true,
    decide_eq_true_eq]
  refine ⟨⟨?_, ?_⟩, ?_, by simp, List.Pairwise.nil⟩ <;> intro address <;> omega

/-- The guard lets through exactly the addresses from the load address up to the call stack. -/
theorem checkAddress_eq_ok_iff {address : Nat} :
    checkAddress address = .ok () ↔ 0x200 ≤ address ∧ address < 0xEA0 := by
  unfold checkAddress reservedRegion? reservedRegions Region.covers
  grind

end GoldenRom
