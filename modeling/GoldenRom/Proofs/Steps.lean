import GoldenRom.Proofs.Effects
import GoldenRom.Proofs.Encoding

/-!
# Steps

What one step can do, said once.  A step either fails with the fault that `State.stepFault?`
computes and hands the machine back, or it executes the instruction that the word at the program
counter encodes and yields `Machine.next`.  `step_eq_ok_iff` and `step_eq_error_iff` are the two
directions that all proofs about runs use.

## Main definitions

* `State.stepFault?`: the fault of the next step, nothing if the step succeeds.
* `Machine.next`: the machine after an instruction whose accesses are let through.
-/

namespace GoldenRom

/-! ## Fetching and recognizing -/

/-- A word asks for a random byte if and only if its instruction does. -/
theorem Word.Encodes.draws_iff {word : Word} {instruction : Instruction}
    (hword : word.Encodes instruction) :
    word.Draws ↔ instruction.draws = true := by
  rw [Instruction.draws_eq_true_iff]
  constructor
  · rintro ⟨x, mask, hrandom⟩
    exact ⟨x, mask, Instruction.eq_of_encodes hword hrandom⟩
  · rintro ⟨x, mask, rfl⟩
    exact ⟨x, mask, hword⟩

namespace State


/-- An instruction is next if a whole word lies at the program counter and encodes it. -/
theorem nextInstruction_eq_ok_iff {s : State} {instruction : Instruction} :
    s.nextInstruction = .ok instruction ↔
      s.pc.toNat + 2 ≤ memorySize ∧ (s.wordAt s.pc.toNat).Encodes instruction := by
  rw [← Instruction.ofWord?_eq_some_iff, nextInstruction, fetch]
  by_cases hfetch : s.pc.toNat + 2 ≤ memorySize
  · rw [if_pos hfetch]
    cases hword : Instruction.ofWord? (s.wordAt s.pc.toNat) with
    | none => simp [hword]
    | some found => simp [hword, hfetch]
  · rw [if_neg hfetch]
    simp [hfetch]

/-- Fetching fails at the end of memory, and recognizing at a word that encodes nothing. -/
theorem nextInstruction_eq_error_iff {s : State} {fault : ProgramFault} :
    s.nextInstruction = .error fault ↔
      (memorySize < s.pc.toNat + 2 ∧ fault = .outOfBounds (max s.pc.toNat memorySize)) ∨
        (s.pc.toNat + 2 ≤ memorySize ∧
          (∀ instruction, ¬(s.wordAt s.pc.toNat).Encodes instruction) ∧
          fault = .unrecognizedOpcode (s.wordAt s.pc.toNat) s.pc) := by
  rw [← Instruction.ofWord?_eq_none_iff_forall_not, nextInstruction, fetch]
  by_cases hfetch : s.pc.toNat + 2 ≤ memorySize
  · rw [if_pos hfetch]
    have hnot : ¬memorySize < s.pc.toNat + 2 := Nat.not_lt.2 hfetch
    cases hword : Instruction.ofWord? (s.wordAt s.pc.toNat) with
    | none => simp [hword, hfetch, hnot, eq_comm]
    | some found => simp [hword, hnot]
  · rw [if_neg hfetch]
    have hbehind : memorySize < s.pc.toNat + 2 := Nat.lt_of_not_le hfetch
    simp [hfetch, hbehind, eq_comm]

/-- The fault of the next step, nothing if the step succeeds. -/
def stepFault? (s : State) : Option ProgramFault :=
  match s.nextInstruction with
  | .error fault => some fault
  | .ok instruction => spanFault? s.index.toNat instruction.span

end State

namespace Machine

variable {γ : Type} [WordSource γ]

/-! ## Executing -/

omit [WordSource γ] in
theorem onState_of_ok {α : Type} {transition : Transition State α} {before after : State}
    {result : α} (hrun : transition before = .ok result after) (source : γ) :
    onState transition ⟨before, source⟩ = .ok result ⟨after, source⟩ := by
  simp only [onState, hrun]

omit [WordSource γ] in
theorem onState_of_error {α : Type} {transition : Transition State α} {before after : State}
    {fault : Fault} (hrun : transition before = .error fault after) (source : γ) :
    onState transition ⟨before, source⟩ = .error fault ⟨after, source⟩ := by
  simp only [onState, hrun]

/-- The machine after an instruction whose accesses are let through. -/
def next (machine : Machine γ) (instruction : Instruction) : Machine γ :=
  if instruction.draws then
    ⟨instruction.next (WordSource.draw machine.source).1.toUInt8 machine.state,
      (WordSource.draw machine.source).2⟩
  else ⟨instruction.next 0 machine.state, machine.source⟩

/-- What an instruction does to the state of a machine depends on the source by one byte at
most. -/
theorem exists_state_next (machine : Machine γ) (instruction : Instruction) :
    ∃ random, (machine.next instruction).state = instruction.next random machine.state := by
  rw [next]
  split
  · exact ⟨_, rfl⟩
  · exact ⟨_, rfl⟩

/-- The one instruction that draws accesses no memory, so no word is ever drawn in vain. -/
theorem span_of_draws {instruction : Instruction} (hdraws : instruction.draws = true) :
    instruction.span = 0 := by
  obtain ⟨x, mask, rfl⟩ := Instruction.draws_eq_true_iff.1 hdraws
  rfl

theorem execute_of_draws {instruction : Instruction} (hdraws : instruction.draws = true)
    (state : State) (source : γ) :
    execute instruction ⟨state, source⟩ =
      onState (instruction.act (WordSource.draw source).1.toUInt8)
        ⟨state, (WordSource.draw source).2⟩ := by
  rw [execute, if_pos hdraws]
  rfl

theorem execute_of_not_draws {instruction : Instruction} (hdraws : instruction.draws = false)
    (state : State) (source : γ) :
    execute instruction ⟨state, source⟩ = onState (instruction.act 0) ⟨state, source⟩ := by
  rw [execute, hdraws]
  rfl

theorem execute_eq (instruction : Instruction) (machine : Machine γ) :
    execute instruction machine =
      match spanFault? machine.state.index.toNat instruction.span with
      | none => .ok () (machine.next instruction)
      | some fault => .error (.program fault) machine := by
  obtain ⟨state, source⟩ := machine
  cases hdraws : instruction.draws with
  | true =>
      have hact := Instruction.act_eq (WordSource.draw source).1.toUInt8 instruction state
      rw [Instruction.spanFault?_of_span_eq_zero (span_of_draws hdraws)] at hact ⊢
      -- The word is drawn before the span is checked, but there is no span to check.
      rw [execute_of_draws hdraws, onState_of_ok hact, next, if_pos hdraws]
  | false =>
      have hact := Instruction.act_eq 0 instruction state
      rw [execute_of_not_draws hdraws]
      cases hspan : spanFault? state.index.toNat instruction.span with
      | none =>
          rw [hspan] at hact
          rw [onState_of_ok hact, next, hdraws, if_neg Bool.false_ne_true]
      | some fault =>
          rw [hspan] at hact
          rw [onState_of_error hact]

/-! ## What a step can do -/

theorem step_of_nextInstruction_eq_ok {machine : Machine γ} {instruction : Instruction}
    (hnext : machine.state.nextInstruction = .ok instruction) :
    step machine = execute instruction machine := by
  simp only [step, hnext]

theorem step_of_nextInstruction_eq_error {machine : Machine γ} {fault : ProgramFault}
    (hnext : machine.state.nextInstruction = .error fault) :
    step machine = .error (.program fault) machine := by
  simp only [step, hnext]

/-- **A step that succeeds** executes the instruction at the program counter, all of whose
accesses are let through. -/
theorem step_eq_ok_iff {before after : Machine γ} :
    step before = .ok () after ↔
      ∃ instruction, before.state.nextInstruction = .ok instruction ∧
        spanFault? before.state.index.toNat instruction.span = none ∧
          after = before.next instruction := by
  cases hnext : before.state.nextInstruction with
  | error fault => simp [step_of_nextInstruction_eq_error hnext]
  | ok instruction =>
      rw [step_of_nextInstruction_eq_ok hnext, execute_eq]
      cases hspan : spanFault? before.state.index.toNat instruction.span with
      | none => simp [hspan, eq_comm]
      | some fault => simp [hspan]

theorem step_of_encodes {machine : Machine γ} {instruction : Instruction}
    (hfetch : machine.state.pc.toNat + 2 ≤ memorySize)
    (hword : (machine.state.wordAt machine.state.pc.toNat).Encodes instruction)
    (hspan : spanFault? machine.state.index.toNat instruction.span = none) :
    step machine = .ok () (machine.next instruction) :=
  step_eq_ok_iff.2 ⟨instruction, State.nextInstruction_eq_ok_iff.2 ⟨hfetch, hword⟩, hspan, rfl⟩

/-- What a step that succeeds does to the state alone.  Of the source it takes one byte at
most. -/
theorem exists_state_of_step {before after : Machine γ} (hstep : step before = .ok () after) :
    ∃ instruction random, before.state.pc.toNat + 2 ≤ memorySize ∧
      (before.state.wordAt before.state.pc.toNat).Encodes instruction ∧
      spanFault? before.state.index.toNat instruction.span = none ∧
      after.state = Instruction.next random before.state instruction := by
  obtain ⟨instruction, hnext, hspan, rfl⟩ := step_eq_ok_iff.1 hstep
  obtain ⟨hfetch, hword⟩ := State.nextInstruction_eq_ok_iff.1 hnext
  obtain ⟨random, hstate⟩ := exists_state_next before instruction
  exact ⟨instruction, random, hfetch, hword, hspan, hstate⟩

/-- **A step that fails** has the fault of the state, which is the program's, and hands back the
machine as it was. -/
theorem step_eq_error_iff {before after : Machine γ} {fault : Fault} :
    step before = .error fault after ↔
      ∃ cause, before.state.stepFault? = some cause ∧ fault = .program cause ∧
        after = before := by
  rw [State.stepFault?]
  cases hnext : before.state.nextInstruction with
  | error cause => simp [step_of_nextInstruction_eq_error hnext, eq_comm]
  | ok instruction =>
      rw [step_of_nextInstruction_eq_ok hnext, execute_eq]
      cases hspan : spanFault? before.state.index.toNat instruction.span with
      | none => simp [hspan]
      | some cause => simp [hspan, eq_comm]

end Machine

end GoldenRom
