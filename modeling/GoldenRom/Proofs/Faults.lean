import GoldenRom.Proofs.Protection

/-!
# The faults of a step

A program can go wrong in three ways: it runs off the end of memory, it comes to a word that is
no instruction, or it moves a block that does not lie between the load address and the call
stack.  On every machine that calls can produce these are all the ways in which a step fails,
and each says what the fault is, down to the address and the region that it names.

## Main definitions

* `State.MovesBlock`: the word at the program counter moves a block of a given length.
* `State.StepFault`: the rules for the fault of the next step.
-/

namespace GoldenRom

/-! ## Rejected blocks -/

/-- From an index of twelve bits on, no rejected address lies behind the end of memory, so the
fault names a region. -/
theorem addressFault?_firstRejected_eq_some_iff {start : Nat} (hstart : start ≤ 0xFFF)
    {fault : ProgramFault} :
    addressFault? (firstRejected start) = some fault ↔
      ∃ region ∈ reservedRegions, region.covers (firstRejected start) ∧
        fault = .reserved (firstRejected start) region.reason := by
  have hinside : ¬memorySize ≤ firstRejected start := by
    rw [firstRejected]
    split
    · decide
    · exact Nat.not_le.2 (Nat.lt_succ_of_le hstart)
  rw [addressFault?_eq_some_iff]
  exact or_iff_right fun hbehind => hinside hbehind.1

theorem spanFault?_eq_some_iff {start length : Nat} (hstart : start ≤ 0xFFF)
    (hlength : 0 < length) {fault : ProgramFault} :
    spanFault? start length = some fault ↔
      ¬(0x200 ≤ start ∧ start + length ≤ 0xEA0) ∧
        ∃ region ∈ reservedRegions, region.covers (firstRejected start) ∧
          fault = .reserved (firstRejected start) region.reason := by
  rw [spanFault?_eq hlength, ← addressFault?_firstRejected_eq_some_iff hstart]
  split
  · rename_i hinside
    exact ⟨nofun, fun h => absurd hinside h.1⟩
  · rename_i houtside
    exact ⟨fun hfault => ⟨houtside, hfault⟩, fun h => h.2⟩

namespace State

/-! ## The rules -/

/-- The word at the program counter moves a block of some length, from the index on. -/
inductive MovesBlock (s : State) : Nat → Prop
  /-- `FX33` stores three digits. -/
  | storeBcd {x : Register} (hword : (s.wordAt s.pc.toNat).Encodes (.storeBcd x)) :
      MovesBlock s 3
  /-- `FX55` stores the registers V0 to VX. -/
  | storeRegisters {x : Register} (hword : (s.wordAt s.pc.toNat).Encodes (.storeRegisters x)) :
      MovesBlock s (x.val + 1)
  /-- `FX65` loads them. -/
  | loadRegisters {x : Register} (hword : (s.wordAt s.pc.toNat).Encodes (.loadRegisters x)) :
      MovesBlock s (x.val + 1)

/-- The fault of the next step.  A step to which no rule applies succeeds. -/
inductive StepFault (s : State) : ProgramFault → Prop
  /-- There is no whole word at the program counter. -/
  | fetch (hpc : 0xFFF ≤ s.pc.toNat) : StepFault s (.outOfBounds 0x1000)
  /-- The word at the program counter has none of the eighteen forms. -/
  | unrecognized (hpc : s.pc.toNat < 0xFFF)
      (hword : ∀ instruction, ¬(s.wordAt s.pc.toNat).Encodes instruction) :
      StepFault s (.unrecognizedOpcode (s.wordAt s.pc.toNat) s.pc)
  /-- The block does not lie between the load address and the call stack.  The fault names its
  first rejected address, which is the index or the start of the call stack, and the region that
  contains it. -/
  | access {length : Nat} {region : Region} (hpc : s.pc.toNat < 0xFFF)
      (hblock : s.MovesBlock length)
      (houtside : ¬(0x200 ≤ s.index.toNat ∧ s.index.toNat + length ≤ 0xEA0))
      (hregion : region ∈ reservedRegions)
      (hcovers : region.covers (firstRejected s.index.toNat)) :
      StepFault s (.reserved (firstRejected s.index.toNat) region.reason)

theorem MovesBlock.exists_encodes {s : State} {length : Nat} (hblock : s.MovesBlock length) :
    ∃ instruction, (s.wordAt s.pc.toNat).Encodes instruction := by
  cases hblock with
  | storeBcd hword => exact ⟨_, hword⟩
  | storeRegisters hword => exact ⟨_, hword⟩
  | loadRegisters hword => exact ⟨_, hword⟩

/-- Blocks are moved by the instructions that have a span. -/
theorem movesBlock_iff {s : State} {instruction : Instruction} {length : Nat}
    (hword : (s.wordAt s.pc.toNat).Encodes instruction) :
    s.MovesBlock length ↔ 0 < length ∧ instruction.span = length := by
  constructor
  · intro hblock
    cases hblock with
    | storeBcd hother =>
        obtain rfl := Instruction.eq_of_encodes hword hother
        exact ⟨Nat.succ_pos 2, rfl⟩
    | @storeRegisters x hother =>
        obtain rfl := Instruction.eq_of_encodes hword hother
        exact ⟨Nat.succ_pos x.val, rfl⟩
    | @loadRegisters x hother =>
        obtain rfl := Instruction.eq_of_encodes hword hother
        exact ⟨Nat.succ_pos x.val, rfl⟩
  · rintro ⟨hpos, rfl⟩
    cases instruction with
    | storeBcd x => exact .storeBcd hword
    | storeRegisters x => exact .storeRegisters hword
    | loadRegisters x => exact .loadRegisters hword
    | _ => cases hpos

/-- A whole word lies at every program counter but that of the last byte of memory, and those
behind. -/
theorem pc_add_two_le_iff {s : State} : s.pc.toNat + 2 ≤ memorySize ↔ s.pc.toNat < 0xFFF := by
  rw [memorySize]
  omega

/-- Once an instruction has been recognized, the only fault left is that of its block. -/
theorem stepFault_iff_of_encodes {s : State} {instruction : Instruction}
    (hindex : s.index.toNat ≤ 0xFFF) (hpc : s.pc.toNat < 0xFFF)
    (hword : (s.wordAt s.pc.toNat).Encodes instruction) {fault : ProgramFault} :
    s.StepFault fault ↔ spanFault? s.index.toNat instruction.span = some fault := by
  constructor
  · intro hfault
    cases hfault with
    | fetch hend => exact absurd hpc (Nat.not_lt.2 hend)
    | unrecognized _ hnone => exact absurd hword (hnone instruction)
    | access _ hblock houtside hregion hcovers =>
        obtain ⟨hlength, rfl⟩ := (movesBlock_iff hword).1 hblock
        exact (spanFault?_eq_some_iff hindex hlength).2 ⟨houtside, _, hregion, hcovers, rfl⟩
  · intro hfault
    have hlength : 0 < instruction.span := by
      refine Nat.pos_of_ne_zero fun hzero => ?_
      rw [Instruction.spanFault?_of_span_eq_zero hzero] at hfault
      cases hfault
    obtain ⟨houtside, region, hregion, hcovers, rfl⟩ :=
      (spanFault?_eq_some_iff hindex hlength).1 hfault
    exact .access hpc ((movesBlock_iff hword).2 ⟨hlength, rfl⟩) houtside hregion hcovers

/-- **The meaning of a fault.**  In a state that satisfies the invariant, the rules yield the
fault of the next step and no other. -/
theorem InRange.stepFault?_eq_some_iff {s : State} (hs : s.InRange) {fault : ProgramFault} :
    s.stepFault? = some fault ↔ s.StepFault fault := by
  rw [stepFault?]
  cases hnext : s.nextInstruction with
  | ok instruction =>
      obtain ⟨hfetch, hword⟩ := nextInstruction_eq_ok_iff.1 hnext
      exact (stepFault_iff_of_encodes hs.index_le (pc_add_two_le_iff.1 hfetch) hword).symm
  | error found =>
      rw [Option.some.injEq]
      rcases nextInstruction_eq_error_iff.1 hnext with ⟨hbehind, rfl⟩ | ⟨hfetch, hnone, rfl⟩
      · -- The program counter is at most the end of memory, so the end is the first address
        -- that is missing.
        rw [Nat.max_eq_right hs.pc_le]
        have hend : ¬s.pc.toNat < 0xFFF :=
          fun hpc => Nat.not_lt.2 (pc_add_two_le_iff.2 hpc) hbehind
        constructor
        · rintro rfl
          exact .fetch (Nat.le_of_not_lt hend)
        · intro hfault
          cases hfault with
          | fetch => rfl
          | unrecognized hpc => exact absurd hpc hend
          | access hpc => exact absurd hpc hend
      · have hpc : s.pc.toNat < 0xFFF := pc_add_two_le_iff.1 hfetch
        constructor
        · rintro rfl
          exact .unrecognized hpc hnone
        · intro hfault
          cases hfault with
          | fetch hend => exact absurd hpc (Nat.not_lt.2 hend)
          | unrecognized => rfl
          | access _ hblock =>
              obtain ⟨instruction, hword⟩ := hblock.exists_encodes
              exact absurd hword (hnone instruction)

end State

namespace Machine

variable {γ : Type} [WordSource γ]

/-- **All faults are accounted for.**  On a machine that calls have produced, a step fails with
a fault if and only if it is the program's and a rule yields it.  So the engine never fails, and
an address is out of bounds only where the program counter has come to the end of memory: no
block meets one. -/
theorem step_fails_iff (source : γ) (calls : List Call) (fault : Fault) :
    ((∃ after, step ((new source).afterCalls calls) = .error fault after) ↔
        ∃ cause, fault = .program cause ∧
          ((new source).afterCalls calls).state.StepFault cause) ∧
      ∀ address,
        (∃ after, step ((new source).afterCalls calls) =
          .error (.program (.outOfBounds address)) after) ↔
          0xFFF ≤ ((new source).afterCalls calls).state.pc.toNat ∧ address = 0x1000 := by
  have hinRange := inRange_afterCalls source calls
  have hfails : ∀ fault, (∃ after, step ((new source).afterCalls calls) = .error fault after) ↔
      ∃ cause, fault = .program cause ∧
        ((new source).afterCalls calls).state.StepFault cause := by
    intro fault
    constructor
    · rintro ⟨after, hstep⟩
      obtain ⟨cause, hcause, rfl, -⟩ := step_eq_error_iff.1 hstep
      exact ⟨cause, rfl, hinRange.stepFault?_eq_some_iff.1 hcause⟩
    · rintro ⟨cause, rfl, hcause⟩
      exact ⟨_, step_eq_error_iff.2 ⟨cause, hinRange.stepFault?_eq_some_iff.2 hcause, rfl, rfl⟩⟩
  refine ⟨hfails fault, fun address => ?_⟩
  rw [hfails]
  constructor
  · rintro ⟨cause, hfault, hcause⟩
    obtain rfl := Fault.program.inj hfault
    cases hcause with
    | fetch hpc => exact ⟨hpc, rfl⟩
  · rintro ⟨hpc, rfl⟩
    exact ⟨_, rfl, .fetch hpc⟩

end Machine

end GoldenRom
