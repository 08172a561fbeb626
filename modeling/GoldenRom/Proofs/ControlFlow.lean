import GoldenRom.Machine.Trace
import GoldenRom.Proofs.Blocks
import GoldenRom.Proofs.Faults
import GoldenRom.Proofs.Outputs
import Mathlib.Data.List.Chain
import Mathlib.Data.List.Forall2

/-!
# The control flow in a trace

A trace has a line for every attempted step whose instruction is recognized, and the line is
written before the instruction acts.  So a step that fails has its line if it fails at its
block, and has none if there was nothing to recognize.  Each line tells where execution goes
next, whatever the instruction does to registers and memory: to the target of a jump, otherwise
to the following word.  Read in order, the lines are therefore the path that the program counter
has taken.

## Main definitions

* `Call.attempts`, `Machine.attempts`: the machines on which steps are attempted.
* `Machine.Attempts`: what it means that steps are attempted one after the other.
* `Call.trace`, `Machine.trace`: what calls add to the trace.
* `TraceEntry.Tells`, `TraceEntry.successor`: what a line tells, and where execution goes from
  there.

### Design notes

What is attempted is listed from the calls alone, without a look at the trace, and
`Machine.attempts_performAll` ties the list to what the calls do.  The trace is what
`Traced.step` and `Traced.runFrom` write, which apart from that are the step and the run
(`Traced.step_eq`, `Machine.tracedRunFrom_eq`).  It is then compared with the list.
-/

namespace GoldenRom

/-! ## Lines -/

namespace TraceEntry

/-- A line tells of the instruction at the program counter of a state. -/
structure Tells (entry : TraceEntry) (s : State) : Prop where
  address_eq : entry.address = s.pc
  word_eq : entry.word = s.wordAt s.pc.toNat
  mnemonic_eq : ∃ operation : Operation, operation.pattern.covers entry.word ∧
    entry.mnemonic = operation.pattern.mnemonic

/-- Where execution goes from a line: a word `1NNN` names its successor, every other one is
followed by the next. -/
def successor (entry : TraceEntry) : Nat :=
  if entry.word.toNat / 0x1000 = 1 then entry.word.toNat % 0x1000 else entry.address.toNat + 2

/-- Where execution stands after the lines of a trace that has begun at a place. -/
def continuesAt (start : Nat) (trace : List TraceEntry) : Nat :=
  match trace.getLast? with
  | some entry => entry.successor
  | none => start

theorem continuesAt_cons (start : Nat) (entry : TraceEntry) (rest : List TraceEntry) :
    continuesAt start (entry :: rest) = continuesAt entry.successor rest := by
  rw [continuesAt, continuesAt, List.getLast?_cons]
  cases rest.getLast? <;> rfl

theorem toList_message_logLine (entry : TraceEntry) :
    entry.logLine.message.toList =
      "0x".toList ++ ((Numeral.hexUpper 4 entry.address.toNat).toList ++
        (": ".toList ++ ((Numeral.hexUpper 4 entry.word.toNat).toList ++
          (" ".toList ++ entry.mnemonic.toList)))) := by
  show ("0x" ++ Numeral.hexUpper 4 entry.address.toNat ++ ": " ++
    Numeral.hexUpper 4 entry.word.toNat ++ " " ++
    entry.mnemonic).toList = _
  simp only [String.toList_append, List.append_assoc]

/-- The address, the word and the mnemonic can be read off a line. -/
theorem logLine_injective : Function.Injective logLine := by
  intro entry other heq
  have htext := congrArg (fun line => line.message.toList) heq
  simp only [toList_message_logLine, List.append_cancel_left_eq] at htext
  obtain ⟨haddress, hrest⟩ := Numeral.hexUpper_append_inj rfl rfl htext
  rw [List.append_cancel_left_eq] at hrest
  obtain ⟨hword, hmnemonic⟩ := Numeral.hexUpper_append_inj rfl rfl hrest
  rw [List.append_cancel_left_eq, String.toList_inj] at hmnemonic
  cases entry
  cases other
  simp only [mk.injEq]
  exact ⟨UInt16.toNat_inj.1 haddress, UInt16.toNat_inj.1 hword, hmnemonic⟩

end TraceEntry

namespace State

/-- Whether a word can be fetched at the program counter and is an instruction. -/
def recognizes (s : State) : Bool :=
  match s.nextInstruction with
  | .ok _ => true
  | .error _ => false

theorem recognizes_iff {s : State} :
    s.recognizes = true ↔ s.pc.toNat + 2 ≤ memorySize ∧
      ∃ instruction, (s.wordAt s.pc.toNat).Encodes instruction := by
  rw [recognizes]
  cases hnext : s.nextInstruction with
  | ok instruction =>
      obtain ⟨hfetch, hword⟩ := nextInstruction_eq_ok_iff.1 hnext
      exact ⟨fun _ => ⟨hfetch, instruction, hword⟩, fun _ => rfl⟩
  | error fault =>
      refine ⟨nofun, fun ⟨hfetch, instruction, hword⟩ => ?_⟩
      rw [nextInstruction_eq_ok_iff.2 ⟨hfetch, hword⟩] at hnext
      cases hnext

/-- The next step is told if its instruction is recognized. -/
theorem exists_traceEntry? {s : State} (hrecognized : s.recognizes = true) :
    ∃ entry, s.traceEntry? = some entry ∧ entry.Tells s := by
  obtain ⟨hfetch, instruction, hword⟩ := recognizes_iff.1 hrecognized
  obtain ⟨pattern, hfound, -⟩ :=
    Option.map_eq_some_iff.1 (Instruction.ofWord?_eq_some_iff.2 hword)
  obtain ⟨operation, -, rfl⟩ := List.mem_map.1 (List.mem_of_find?_eq_some hfound)
  refine ⟨⟨s.pc, s.wordAt s.pc.toNat, operation.pattern.mnemonic⟩, ?_, rfl, rfl,
    operation, ?_, rfl⟩
  · unfold traceEntry?
    simp only [fetch, if_pos hfetch, hfound, Option.map_some]
  · exact Word.covers_of_pattern? hfound

/-- A step whose instruction is not recognized is not told. -/
theorem traceEntry?_eq_none {s : State} (hnot : s.recognizes = false) :
    s.traceEntry? = none := by
  rw [Bool.eq_false_iff, Ne, recognizes_iff, not_and] at hnot
  by_cases hfetch : s.pc.toNat + 2 ≤ memorySize
  · have hnone := hnot hfetch
    rw [not_exists, ← Instruction.ofWord?_eq_none_iff_forall_not,
      Instruction.ofWord?_eq_none_iff] at hnone
    unfold traceEntry?
    simp only [fetch, if_pos hfetch, hnone, Option.map_none]
  · unfold traceEntry?
    simp only [fetch, if_neg hfetch]

theorem tells_of_eq_some {s : State} {entry : TraceEntry}
    (hentry : s.traceEntry? = some entry) : entry.Tells s := by
  cases hrecognized : s.recognizes with
  | false =>
      rw [traceEntry?_eq_none hrecognized] at hentry
      cases hentry
  | true =>
      obtain ⟨other, hother, htells⟩ := exists_traceEntry? hrecognized
      rwa [Option.some.inj (hentry.symm.trans hother)]

/-- The instruction at the program counter moves a block, and the guard refuses an address of
it.  The fault is that of the lowest one. -/
def RejectsBlock (s : State) (fault : Fault) : Prop :=
  s.pc.toNat + 2 ≤ memorySize ∧
    ∃ length address cause, s.MovesBlock length ∧
      FirstRejected s.index.toNat length address cause ∧ fault = .program cause

/-- A step that fails has recognized its instruction if and only if it fails at its block. -/
theorem recognizes_iff_of_stepFault? {s : State} {cause : ProgramFault}
    (hcause : s.stepFault? = some cause) :
    s.recognizes = true ↔ s.RejectsBlock (.program cause) := by
  constructor
  · intro hrecognized
    obtain ⟨hfetch, instruction, hword⟩ := recognizes_iff.1 hrecognized
    rw [stepFault?, nextInstruction_eq_ok_iff.2 ⟨hfetch, hword⟩] at hcause
    dsimp only at hcause
    have hblock : s.MovesBlock instruction.span := by
      refine (movesBlock_iff hword).2 ⟨Nat.pos_of_ne_zero fun hzero => ?_, rfl⟩
      rw [Instruction.spanFault?_of_span_eq_zero hzero] at hcause
      cases hcause
    obtain ⟨address, hfirst⟩ := exists_firstRejected hcause
    exact ⟨hfetch, _, address, cause, hblock, hfirst, rfl⟩
  · rintro ⟨hfetch, length, address, _, hblock, -⟩
    exact recognizes_iff.2 ⟨hfetch, hblock.exists_encodes⟩

end State

/-- The first digit of an instruction tells whether it is a jump. -/
theorem Instruction.encode_div_eq_one_iff {instruction : Instruction}
    (hfits : instruction.TargetFits) :
    instruction.encode / 0x1000 = 1 ↔ instruction.jumps = true := by
  cases instruction with
  | jump target =>
      have htarget : target.toNat < 0x1000 := hfits
      simp only [encode, jumps, iff_true]
      omega
  | _ =>
      simp only [encode, jumps, Bool.false_eq_true, iff_false]
      omega

namespace TraceEntry

/-- The line of a step that succeeds tells where it leads.  No program counter with a whole word
behind it wraps. -/
theorem Tells.toNat_pc_eq {γ : Type} [WordSource γ] {entry : TraceEntry}
    {before after : Machine γ} (htells : entry.Tells before.state)
    (hstep : Machine.step before = .ok () after) :
    after.state.pc.toNat = entry.successor := by
  obtain ⟨instruction, random, hfetch, hword, -, hstate⟩ := Machine.exists_state_of_step hstep
  have hfirst := Instruction.encode_div_eq_one_iff hword.fits
  have hfollowing : (before.state.pc + 2).toNat = before.state.pc.toNat + 2 := by
    rw [memorySize] at hfetch
    rw [UInt16.toNat_add]
    exact Nat.mod_eq_of_lt (by show before.state.pc.toNat + 2 < 65536; omega)
  rw [hstate, Instruction.pc_next, successor, htells.address_eq, htells.word_eq, hword.toNat_eq]
  cases instruction with
  | jump target =>
      have htarget : target.toNat < 0x1000 := hword.fits
      rw [if_pos (hfirst.2 rfl), Instruction.encode]
      dsimp only
      omega
  | _ =>
      rw [if_neg fun hone => Bool.noConfusion (hfirst.1 hone)]
      exact hfollowing

end TraceEntry

/-! ## Attempts -/

namespace Machine

variable {γ : Type} [WordSource γ]

/-- Steps are attempted one after the other, each on the machine that the one before has left
behind.  All of them succeed, except that the last one may fail. -/
inductive Attempts {α : Type} :
    Machine γ → List (Machine γ) → EStateM.Result Fault (Machine γ) α → Prop
  | done (machine : Machine γ) (result : α) : Attempts machine [] (.ok result machine)
  | failed {machine after : Machine γ} {fault : Fault}
      (hstep : step machine = .error fault after) :
      Attempts machine [machine] (.error fault after)
  | succeeded {machine after : Machine γ} {rest : List (Machine γ)}
      {result : EStateM.Result Fault (Machine γ) α} (hstep : step machine = .ok () after)
      (hrest : Attempts after rest result) : Attempts machine (machine :: rest) result

/-- The machines on which a run attempts a step. -/
def runAttempts (target : Word) : Nat → Machine γ → List (Machine γ)
  | 0, _ => []
  | limit + 1, machine =>
      machine :: match step machine with
        | .error _ _ => []
        | .ok () after => if after.state.pc = target then [] else runAttempts target limit after

end Machine

/-- The machines on which a call attempts a step. -/
def Call.attempts {γ : Type} [WordSource γ] : Call → Machine γ → List (Machine γ)
  | step, machine => [machine]
  | run target limit, machine => machine.runAttempts target limit
  | load _, _ | reset, _ => []

/-- What a call adds to the trace. -/
def Call.trace {γ : Type} [WordSource γ] : Call → Machine γ → List TraceEntry
  | step, machine => Traced.entriesOf Traced.step machine
  | run target limit, machine => machine.traceUntil target limit
  | load _, _ | reset, _ => []

/-- Whether a call does nothing but step. -/
def Call.steps : Call → Bool
  | step | run .. => true
  | load _ | reset => false

namespace Machine

variable {γ : Type} [WordSource γ]

/-- Calls one after the other, up to the first that fails. -/
def performAll : List Call → Transition (Machine γ) Unit
  | [] => pure ()
  | call :: rest => do
      let _ ← call.perform
      performAll rest

/-- The machines on which such calls attempt a step. -/
def attempts (machine : Machine γ) : List Call → List (Machine γ)
  | [] => []
  | call :: rest => call.attempts machine ++ match call.perform machine with
      | .ok _ after => after.attempts rest
      | .error _ _ => []

/-- What such calls add to the trace. -/
def trace (machine : Machine γ) : List Call → List TraceEntry
  | [] => []
  | call :: rest => call.trace machine ++ match call.perform machine with
      | .ok _ after => after.trace rest
      | .error _ _ => []

namespace Attempts

variable {α β : Type}

/-- Whatever is made of their result, the attempts are the same. -/
theorem bind_pure {start : Machine γ} {attempts : List (Machine γ)}
    {transition : Transition (Machine γ) α}
    (hattempts : Attempts start attempts (transition start)) (f : α → β) :
    Attempts start attempts ((do return f (← transition)) start) := by
  simp only [bind, EStateM.bind, pure, EStateM.pure]
  generalize transition start = result at hattempts
  induction hattempts with
  | done machine result => exact .done machine (f result)
  | failed hstep => exact .failed hstep
  | succeeded hstep _ ih => exact .succeeded hstep ih

/-- Further attempts on the machine that attempts have left behind. -/
theorem append {start middle : Machine γ} {first second : List (Machine γ)} {value : α}
    {result : EStateM.Result Fault (Machine γ) β}
    (hfirst : Attempts start first (.ok value middle))
    (hsecond : Attempts middle second result) : Attempts start (first ++ second) result := by
  generalize hmiddle : EStateM.Result.ok value middle = ending at hfirst
  induction hfirst with
  | done machine value =>
      obtain ⟨-, rfl⟩ := EStateM.Result.ok.inj hmiddle
      exact hsecond
  | failed hstep => cases hmiddle
  | succeeded hstep _ ih => exact .succeeded hstep (ih hmiddle)

/-- Attempts that end with a failure: all before the last one succeed, and it leaves the machine
as it was. -/
theorem exists_of_error {start final : Machine γ} {attempts : List (Machine γ)}
    {fault : Fault}
    (hattempts : Attempts start attempts
      (.error fault final : EStateM.Result Fault (Machine γ) α)) :
    ∃ earlier, attempts = earlier ++ [final] ∧
      Attempts start earlier (.ok () final : EStateM.Result Fault (Machine γ) Unit) ∧
        step final = .error fault final := by
  generalize hend : (EStateM.Result.error fault final : EStateM.Result Fault (Machine γ) α) =
    result at hattempts
  induction hattempts with
  | done => cases hend
  | @failed machine after _ hstep =>
      obtain ⟨rfl, rfl⟩ := EStateM.Result.error.inj hend
      obtain ⟨_, _, _, rfl⟩ := step_eq_error_iff.1 hstep
      exact ⟨[], rfl, .done final (), hstep⟩
  | @succeeded machine _ _ _ hstep _ ih =>
      obtain ⟨earlier, rfl, hearlier, hlast⟩ := ih hend
      exact ⟨machine :: earlier, rfl, .succeeded hstep hearlier, hlast⟩

end Attempts

/-! ## What calls attempt -/

theorem attempts_runFrom (target : Word) (cycles limit : Nat) (machine : Machine γ) :
    Attempts machine (machine.runAttempts target limit)
      (runFrom target cycles limit machine) := by
  induction limit generalizing cycles machine with
  | zero => exact .done machine (⟨cycles, false⟩ : RunEnd)
  | succ limit ih =>
      rw [runAttempts, runFrom_succ]
      cases hstep : step machine with
      | error fault after => exact .failed hstep
      | ok _ after =>
          refine .succeeded hstep ?_
          dsimp only
          split
          · exact .done after (⟨cycles + 1, true⟩ : RunEnd)
          · exact ih (cycles + 1) after

theorem attempts_perform {call : Call} (hsteps : call.steps = true) (machine : Machine γ) :
    Attempts machine (call.attempts machine) (call.perform machine) := by
  cases call with
  | load rom => cases hsteps
  | reset => cases hsteps
  | run target limit => exact (attempts_runFrom target 0 limit machine).bind_pure some
  | step =>
      have hattempts : Attempts machine [machine] (step machine) := by
        cases hstep : step machine with
        | error fault after => exact .failed hstep
        | ok result after => exact .succeeded hstep (.done after result)
      exact hattempts.bind_pure fun _ => none

/-- **The attempts are those of the calls.**  They lead from the machine that the calls are made
on to the one that they leave behind, and to the fault of the calls, if they have one. -/
theorem attempts_performAll {calls : List Call} (hsteps : ∀ call ∈ calls, call.steps = true)
    (machine : Machine γ) :
    Attempts machine (machine.attempts calls) (performAll calls machine) := by
  induction calls generalizing machine with
  | nil => exact .done machine ()
  | cons call rest ih =>
      have hcall := attempts_perform (hsteps call List.mem_cons_self) machine
      rw [attempts, performAll]
      cases hperform : call.perform machine with
      | error fault after =>
          rw [hperform] at hcall
          obtain ⟨earlier, hearlier, hsucceed, hlast⟩ := hcall.exists_of_error
          rw [Transition.bind_of_error hperform, List.append_nil, hearlier]
          exact hsucceed.append (.failed hlast)
      | ok result after =>
          rw [hperform] at hcall
          rw [Transition.bind_of_ok hperform]
          exact hcall.append (ih (fun other hmem =>
            hsteps other (List.mem_cons_of_mem call hmem)) after)

/-- A run that does not fail attempts as many steps as it counts. -/
theorem cycles_of_runFrom {target : Word} {cycles limit : Nat} {machine final : Machine γ}
    {ending : RunEnd} (hrun : runFrom target cycles limit machine = .ok ending final) :
    ending.cycles = cycles + (machine.runAttempts target limit).length := by
  induction limit generalizing cycles machine with
  | zero =>
      obtain ⟨rfl, -⟩ := EStateM.Result.ok.inj hrun
      rfl
  | succ limit ih =>
      rw [runFrom_succ] at hrun
      rw [runAttempts]
      cases hstep : step machine with
      | error fault after =>
          rw [hstep] at hrun
          cases hrun
      | ok _ after =>
          rw [hstep] at hrun
          dsimp only at hrun ⊢
          by_cases hpc : after.state.pc = target
          · rw [if_pos hpc] at hrun ⊢
            obtain ⟨rfl, -⟩ := EStateM.Result.ok.inj hrun
            rfl
          · rw [if_neg hpc] at hrun ⊢
            rw [ih hrun, List.length_cons]
            omega

/-! ## What calls add to the trace -/

/-- The lines of a list of attempts. -/
def linesOf (attempts : List (Machine γ)) : List TraceEntry :=
  attempts.filterMap fun attempted => attempted.state.traceEntry?

omit [WordSource γ] in
/-- There is one line for each attempt whose instruction is recognized, in order. -/
theorem forall₂_linesOf (attempts : List (Machine γ)) :
    List.Forall₂ (fun entry attempted => entry.Tells attempted.state) (linesOf attempts)
      (attempts.filter (·.state.recognizes)) := by
  induction attempts with
  | nil => exact .nil
  | cons machine rest ih =>
      rw [linesOf, List.filterMap_cons, List.filter_cons]
      cases hrecognized : machine.state.recognizes with
      | false =>
          rw [State.traceEntry?_eq_none hrecognized, if_neg Bool.false_ne_true]
          exact ih
      | true =>
          obtain ⟨entry, hentry, htells⟩ := State.exists_traceEntry? hrecognized
          rw [hentry, if_pos rfl]
          exact .cons htells ih

/-- A step that succeeds is told. -/
theorem exists_traceEntry?_of_step {before after : Machine γ}
    (hstep : step before = .ok () after) :
    ∃ entry, before.state.traceEntry? = some entry ∧ entry.Tells before.state := by
  obtain ⟨instruction, _, hfetch, hword, -⟩ := exists_state_of_step hstep
  exact State.exists_traceEntry? (State.recognizes_iff.2 ⟨hfetch, instruction, hword⟩)

/-- **A run that writes its entries is a run.**  The entries are the lines of its attempts. -/
theorem tracedRunFrom_eq (target : Word) (cycles limit : Nat) (machine : Machine γ)
    (entries : Array TraceEntry) :
    Traced.runFrom target cycles limit ⟨machine, entries⟩ =
      Traced.onMachine (runFrom target cycles limit)
        ⟨machine, entries ++ (linesOf (machine.runAttempts target limit)).toArray⟩ := by
  induction limit generalizing cycles machine entries with
  | zero =>
      rw [runAttempts, linesOf, List.filterMap_nil, Array.append_empty]
      rfl
  | succ limit ih =>
      rw [Traced.runFrom_succ, Traced.step_eq, Traced.onMachine, Traced.onMachine, runFrom_succ,
        runAttempts]
      cases hstep : step machine with
      | error fault after =>
          rw [linesOf, List.filterMap_cons, List.filterMap_nil]
          cases machine.state.traceEntry? <;> simp
      | ok _ after =>
          obtain ⟨entry, hentry, -⟩ := exists_traceEntry?_of_step hstep
          have hlines (rest : List (Machine γ)) :
              entries ++ (linesOf (machine :: rest)).toArray =
                entries.push entry ++ (linesOf rest).toArray := by
            simp [linesOf, hentry]
          rw [hentry, hlines]
          dsimp only
          split
          · simp [linesOf]
          · rw [Option.toArray_some, Array.append_singleton, ih, Traced.onMachine]

theorem traceUntil_eq (target : Word) (limit : Nat) (machine : Machine γ) :
    machine.traceUntil target limit = linesOf (machine.runAttempts target limit) := by
  have hrun := tracedRunFrom_eq target 0 limit machine #[]
  rw [Array.empty_append] at hrun
  rw [traceUntil, Traced.entriesOf_eq hrun]

theorem trace_perform_eq (call : Call) (machine : Machine γ) :
    call.trace machine = linesOf (call.attempts machine) := by
  cases call with
  | load rom => rfl
  | reset => rfl
  | run target limit => exact traceUntil_eq target limit machine
  | step =>
      have hstep := Traced.step_eq machine #[]
      rw [Array.empty_append] at hstep
      rw [Call.trace, Traced.entriesOf_eq hstep, Call.attempts, linesOf, List.filterMap_cons,
        List.filterMap_nil]
      cases machine.state.traceEntry? <;> rfl

theorem trace_eq (calls : List Call) (machine : Machine γ) :
    machine.trace calls = linesOf (machine.attempts calls) := by
  induction calls generalizing machine with
  | nil => rfl
  | cons call rest ih =>
      rw [trace, attempts, linesOf, List.filterMap_append, trace_perform_eq]
      cases call.perform machine with
      | error fault after => rfl
      | ok result after => exact congrArg (linesOf (call.attempts machine) ++ ·) (ih after)

/-! ## Where the lines lead -/

theorem exists_linesOf_cons {before after : Machine γ} (hstep : step before = .ok () after)
    (rest : List (Machine γ)) :
    ∃ entry, entry.Tells before.state ∧ after.state.pc.toNat = entry.successor ∧
      linesOf (before :: rest) = entry :: linesOf rest := by
  obtain ⟨entry, hentry, htells⟩ := exists_traceEntry?_of_step hstep
  refine ⟨entry, htells, htells.toNat_pc_eq hstep, ?_⟩
  rw [linesOf, List.filterMap_cons, hentry]
  rfl

namespace Attempts

variable {α : Type} {start final : Machine γ} {attempts : List (Machine γ)}
  {result : EStateM.Result Fault (Machine γ) α} {value : α}

/-- The first line is that of the machine on which the attempts begin. -/
theorem address_eq_of_mem_head? (hattempts : Attempts start attempts result)
    {entry : TraceEntry} (hentry : entry ∈ (linesOf attempts).head?) :
    entry.address = start.state.pc := by
  cases hattempts with
  | done => cases hentry
  | failed =>
      have hline : start.state.traceEntry? = some entry := by
        rw [linesOf, List.filterMap_cons, List.filterMap_nil] at hentry
        cases hfound : start.state.traceEntry? with
        | none =>
            rw [hfound] at hentry
            cases hentry
        | some found =>
            rw [hfound] at hentry
            exact hentry
      exact (State.tells_of_eq_some hline).address_eq
  | @succeeded _ _ rest _ hstep =>
      obtain ⟨found, htells, -, hlines⟩ := exists_linesOf_cons hstep rest
      rw [hlines] at hentry
      obtain rfl : found = entry := Option.some.inj hentry
      exact htells.address_eq

/-- Each line stands where the one before it leads. -/
theorem isChain_linesOf (hattempts : Attempts start attempts result) :
    (linesOf attempts).IsChain fun entry next => next.address.toNat = entry.successor := by
  induction hattempts with
  | done => exact List.isChain_nil
  | @failed machine =>
      rw [linesOf, List.filterMap_cons, List.filterMap_nil]
      split
      · exact List.isChain_nil
      · exact List.isChain_singleton _
  | @succeeded _ after rest _ hstep hrest ih =>
      obtain ⟨entry, -, hleads, hlines⟩ := exists_linesOf_cons hstep rest
      rw [hlines]
      refine List.isChain_cons.2 ⟨fun next hnext => ?_, ih⟩
      rw [hrest.address_eq_of_mem_head? hnext, hleads]

/-- Attempts that all succeed end where the last line leads, or where they have begun if there
is none. -/
theorem toNat_pc_eq (hattempts : Attempts start attempts (.ok value final)) :
    final.state.pc.toNat = TraceEntry.continuesAt start.state.pc.toNat (linesOf attempts) := by
  generalize hend : EStateM.Result.ok value final = result at hattempts
  induction hattempts with
  | done =>
      obtain ⟨-, rfl⟩ := EStateM.Result.ok.inj hend
      rfl
  | failed => cases hend
  | @succeeded _ after rest _ hstep hrest ih =>
      obtain ⟨entry, -, hleads, hlines⟩ := exists_linesOf_cons hstep rest
      rw [hlines, TraceEntry.continuesAt_cons, ← hleads]
      exact ih hend

/-- Attempts that all succeed have a line each. -/
theorem length_linesOf (hattempts : Attempts start attempts (.ok value final)) :
    (linesOf attempts).length = attempts.length := by
  generalize hend : EStateM.Result.ok value final = result at hattempts
  induction hattempts with
  | done => rfl
  | failed => cases hend
  | @succeeded _ after rest _ hstep hrest ih =>
      obtain ⟨entry, -, -, hlines⟩ := exists_linesOf_cons hstep rest
      rw [hlines, List.length_cons, List.length_cons, ih hend]

/-- Attempts that end with a failure.  The last one has a line if and only if it fails at its
block, and execution still stands where this line tells.  If it has none, execution stands where
the line before it leads. -/
theorem ends_of_error {fault : Fault}
    (hattempts : Attempts start attempts
      (.error fault final : EStateM.Result Fault (Machine γ) α)) :
    attempts.getLast? = some final ∧ step final = .error fault final ∧
      (final.state.recognizes = true ↔ final.state.RejectsBlock fault) ∧
      (final.state.recognizes = true → ∃ entry, (linesOf attempts).getLast? = some entry ∧
        final.state.pc = entry.address) ∧
      (final.state.recognizes = false →
        final.state.pc.toNat =
          TraceEntry.continuesAt start.state.pc.toNat (linesOf attempts)) := by
  obtain ⟨earlier, rfl, hearlier, hlast⟩ := hattempts.exists_of_error
  obtain ⟨cause, hcause, rfl, -⟩ := step_eq_error_iff.1 hlast
  have hlines : linesOf (earlier ++ [final]) = linesOf earlier ++ linesOf [final] :=
    List.filterMap_append
  refine ⟨List.getLast?_concat, hlast, State.recognizes_iff_of_stepFault? hcause,
    fun hrecognized => ?_, fun hnot => ?_⟩
  · obtain ⟨entry, hentry, htells⟩ := State.exists_traceEntry? hrecognized
    have hown : linesOf [final] = [entry] := by
      rw [linesOf, List.filterMap_cons, hentry]
      rfl
    exact ⟨entry, by rw [hlines, hown, List.getLast?_concat], htells.address_eq.symm⟩
  · have hnone : linesOf [final] = [] := by
      rw [linesOf, List.filterMap_cons, State.traceEntry?_eq_none hnot]
      rfl
    rw [hlines, hnone, List.append_nil]
    exact hearlier.toNat_pc_eq

end Attempts

/-! ## The trace as a path -/

/-- **A trace is the path of the program counter.**  Let calls that only step be made one after
the other, up to the first that fails.  The machines on which they attempt a step follow each
other, and the trace has one line for each of them whose instruction is recognized: the address,
the word there at that moment and the mnemonic of the pattern that it fits, which can be read
off the written line.  Each line stands where the one before it leads.  If no call fails,
execution has come to where the last line leads.  If one fails, so did the last attempt; it has
left its line if and only if the guard has refused its block, and then execution still stands at
this line, otherwise where the last line leads.  A run that does not fail has a line for each of
its cycles. -/
theorem trace_follows_control_flow {calls : List Call}
    (hsteps : ∀ call ∈ calls, call.steps = true) (machine : Machine γ) :
    Attempts machine (machine.attempts calls) (performAll calls machine) ∧
      List.Forall₂ (fun entry attempted => entry.Tells attempted.state) (machine.trace calls)
        ((machine.attempts calls).filter (·.state.recognizes)) ∧
      ((∀ entry : TraceEntry, entry.logLine.level = .trace) ∧
        Function.Injective TraceEntry.logLine) ∧
      ((machine.trace calls).IsChain fun entry next => next.address.toNat = entry.successor) ∧
      (∀ final, performAll calls machine = .ok () final →
        final.state.pc.toNat =
          TraceEntry.continuesAt machine.state.pc.toNat (machine.trace calls)) ∧
      (∀ fault final, performAll calls machine = .error fault final →
        (machine.attempts calls).getLast? = some final ∧ step final = .error fault final ∧
          (final.state.recognizes = true ↔ final.state.RejectsBlock fault) ∧
          (final.state.recognizes = true →
            ∃ entry, (machine.trace calls).getLast? = some entry ∧
              final.state.pc = entry.address) ∧
          (final.state.recognizes = false →
            final.state.pc.toNat =
              TraceEntry.continuesAt machine.state.pc.toNat (machine.trace calls))) ∧
      ∀ target limit ending final, runUntil target limit machine = .ok ending final →
        (machine.runAttempts target limit).length = ending.cycles ∧
          (machine.traceUntil target limit).length = ending.cycles := by
  have hattempts := attempts_performAll hsteps machine
  rw [trace_eq]
  refine ⟨hattempts, forall₂_linesOf _, ⟨fun _ => rfl, TraceEntry.logLine_injective⟩,
    hattempts.isChain_linesOf, fun final hfinal => ?_, fun fault final hfinal => ?_,
    fun target limit ending final hrun => ?_⟩
  · rw [hfinal] at hattempts
    exact hattempts.toNat_pc_eq
  · rw [hfinal] at hattempts
    exact hattempts.ends_of_error
  · have hcycles := cycles_of_runFrom hrun
    have hrunAttempts := attempts_runFrom target 0 limit machine
    rw [runUntil] at hrun
    rw [hrun] at hrunAttempts
    rw [Nat.zero_add] at hcycles
    rw [traceUntil_eq, hrunAttempts.length_linesOf, hcycles]
    exact ⟨rfl, rfl⟩

/-- A step on its own and then a run, which stops at the store of three digits over the edge of
the call stack.  The store has left its line, and execution still stands there.  A run of one
cycle leaves one line. -/
theorem trace_follows_control_flow_to_edge :
    performAll [.step, .run haltAddress 5] digitsOverEdge
        = .error (.program (.reserved 0xEA0 "call stack / runtime variables")) stoppedAtEdge ∧
      (digitsOverEdge.attempts [.step, .run haltAddress 5]).getLast? = some stoppedAtEdge ∧
      stoppedAtEdge.state.RejectsBlock
        (.program (.reserved 0xEA0 "call stack / runtime variables")) ∧
      (∃ entry, (digitsOverEdge.trace [.step, .run haltAddress 5]).getLast? = some entry ∧
        entry.address = 0x202) ∧
      (digitsOverEdge.traceUntil haltAddress 1).length = 1 := by
  have hindex : (digitsOverEdge.state.wordAt digitsOverEdge.state.pc.toNat).Encodes
      (.loadIndex 0xE9E) :=
    ⟨(by decide : (0xE9E : Word).toNat < 0x1000), by decide +kernel⟩
  have hfirst : step digitsOverEdge = .ok () stoppedAtEdge :=
    step_of_encodes (by decide +kernel) hindex rfl
  have hlast : step stoppedAtEdge
      = .error (.program (.reserved 0xEA0 "call stack / runtime variables")) stoppedAtEdge :=
    step_eq_error_iff.2 ⟨.reserved 0xEA0 "call stack / runtime variables",
      by decide +kernel, rfl, rfl⟩
  have hrun : runUntil haltAddress 5 stoppedAtEdge
      = .error (.program (.reserved 0xEA0 "call stack / runtime variables")) stoppedAtEdge := by
    rw [runUntil, runFrom_succ, hlast]
  have hperform : performAll [.step, .run haltAddress 5] digitsOverEdge
      = .error (.program (.reserved 0xEA0 "call stack / runtime variables")) stoppedAtEdge := by
    have hstep : Call.step.perform digitsOverEdge = .ok none stoppedAtEdge :=
      Transition.bind_of_ok hfirst _
    rw [performAll, Transition.bind_of_ok hstep, performAll]
    exact Transition.bind_of_error (Transition.bind_of_error hrun _) _
  have hcycle : runUntil haltAddress 1 digitsOverEdge = .ok ⟨1, false⟩ stoppedAtEdge := by
    rw [runUntil, runFrom_succ, hfirst]
    exact if_neg (by decide +kernel)
  have hrecognized : stoppedAtEdge.state.recognizes = true := by decide +kernel
  have hsteps : ∀ call ∈ [Call.step, .run haltAddress 5], call.steps = true := by decide
  obtain ⟨-, -, -, -, -, hfails, hcycles⟩ := trace_follows_control_flow hsteps digitsOverEdge
  obtain ⟨hattempted, -, hblock, hline, -⟩ := hfails _ _ hperform
  obtain ⟨entry, hentry, hpc⟩ := hline hrecognized
  exact ⟨hperform, hattempted, hblock.1 hrecognized,
    ⟨entry, hentry, hpc.symm.trans (by decide +kernel)⟩, (hcycles _ _ _ _ hcycle).2⟩

end Machine

end GoldenRom
