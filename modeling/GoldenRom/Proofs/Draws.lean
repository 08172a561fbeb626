import GoldenRom.Proofs.Protection

/-!
# Accounting of random draws

A machine draws a word for each instruction that asks for a random byte and executes, and for
nothing else: not for a step that fails, not for a load, not for a reset.  So the source of a
machine always tells how many such instructions it has executed in its whole life, and number
`k` of them has had word `k` of the source.  Of each word only the low byte is used.  Two
machines in equal states, over sources whose next words agree in their low bytes, can therefore
not be told apart by any calls that execute no more of these instructions than there are such
words.

## Main definitions

* `Execution`: one instruction that has been executed, with the machines before and after it.
* `Execution.draws`: whether its word has the form `CXNN`.
* `Machine.executions`, `Machine.draws`: what a sequence of calls executes, and what of it
  draws.
* `Machine.answers`: what a sequence of calls returns.
* `Machine.Agrees`: equal states, and sources whose next words agree in their low bytes.

### Design notes

Which instructions a program executes is known only from running it, since it may store into
itself.  Therefore `executions` follows the calls step by step.  It is tied to them by
`leads_executions`: the executions of a step or a run lead from the machine that it was called
on to the one that it leaves behind, without a gap.  Which of them count as draws is read off
the words in memory (`Word.Draws`); that these are the instructions that draw is
`draws_of_execution?`.
-/

namespace GoldenRom

namespace WordSource

variable {γ : Type} [WordSource γ]

/-- Draws add up. -/
theorem after_add (source : γ) (m n : Nat) :
    after (after source m) n = after source (m + n) := by
  induction n with
  | zero => rfl
  | succ n ih => rw [after_succ, ih, ← Nat.add_assoc, after_succ]

/-- The words behind the first `m` are the words of the source that `m` draws leave. -/
theorem word_after (source : γ) (m n : Nat) :
    word (after source m) n = word source (m + n) := by
  rw [word, after_add, word]

end WordSource

/-- What a transition returns: a result, or the fault that stopped it. -/
def Transition.answer {σ α : Type} (transition : Transition σ α) (before : σ) :
    Except Fault α :=
  match transition before with
  | .ok result _ => .ok result
  | .error fault _ => .error fault

/-- One instruction that has been executed. -/
structure Execution (γ : Type) where
  before : Machine γ
  instruction : Instruction
  after : Machine γ

/-- Whether the word that was executed has the form `CXNN`, the one that asks for a random
byte. -/
def Execution.draws {γ : Type} (execution : Execution γ) : Bool :=
  decide (execution.before.state.wordAt execution.before.state.pc.toNat).Draws

namespace Machine

variable {γ : Type} [WordSource γ]

/-! ## What is executed -/

/-- What a step executes, if it succeeds. -/
def execution? (machine : Machine γ) : Option (Execution γ) :=
  match machine.state.nextInstruction, machine.step? with
  | .ok instruction, some after => some ⟨machine, instruction, after⟩
  | _, _ => none

/-- What a run executes. -/
def runExecutions (target : Word) : Nat → Machine γ → List (Execution γ)
  | 0, _ => []
  | limit + 1, machine => match machine.execution? with
    | none => []
    | some execution =>
        execution ::
          if execution.after.state.pc = target then []
          else runExecutions target limit execution.after

end Machine

/-- What a call executes. -/
def Call.executions {γ : Type} [WordSource γ] : Call → Machine γ → List (Execution γ)
  | load _, _ => []
  | step, machine => machine.execution?.toList
  | run target limit, machine => machine.runExecutions target limit
  | reset, _ => []

namespace Machine

variable {γ : Type} [WordSource γ]

/-- What a sequence of calls executes, whatever each of them returns. -/
def executions (machine : Machine γ) : List Call → List (Execution γ)
  | [] => []
  | call :: rest =>
      call.executions machine ++ executions (Transition.final call.perform machine) rest

/-- What a sequence of calls executes of the instructions that ask for a random byte. -/
def draws (machine : Machine γ) (calls : List Call) : List (Execution γ) :=
  (machine.executions calls).filter Execution.draws

/-- What a sequence of calls returns, call by call. -/
def answers (machine : Machine γ) : List Call → List (Except Fault (Option RunEnd))
  | [] => []
  | call :: rest =>
      Transition.answer call.perform machine ::
        answers (Transition.final call.perform machine) rest

theorem draws_cons (machine : Machine γ) (call : Call) (rest : List Call) :
    machine.draws (call :: rest) =
      (call.executions machine).filter Execution.draws ++
        (Transition.final call.perform machine).draws rest :=
  List.filter_append ..

theorem execution?_eq_some_iff {machine : Machine γ} {execution : Execution γ} :
    machine.execution? = some execution ↔
      execution.before = machine ∧ machine.state.nextInstruction = .ok execution.instruction ∧
        step machine = .ok () execution.after := by
  obtain ⟨before, instruction, after⟩ := execution
  rw [execution?, ← step?_eq_some_iff]
  cases machine.state.nextInstruction with
  | error fault => simp
  | ok found => cases machine.step? with
    | none => simp
    | some reached => simp [eq_comm]

theorem execution?_eq_none_iff {machine : Machine γ} :
    machine.execution? = none ↔ ∃ cause, machine.state.stepFault? = some cause := by
  cases hstep : step machine with
  | ok result after =>
      obtain ⟨instruction, hnext, hspan, -⟩ := step_eq_ok_iff.1 hstep
      have hexecution : machine.execution? = some ⟨machine, instruction, after⟩ :=
        execution?_eq_some_iff.2 ⟨rfl, hnext, hstep⟩
      rw [hexecution, State.stepFault?, hnext]
      simp [hspan]
  | error fault after =>
      obtain ⟨cause, hcause, -⟩ := step_eq_error_iff.1 hstep
      refine ⟨fun _ => ⟨cause, hcause⟩, fun _ => ?_⟩
      rw [Option.eq_none_iff_forall_ne_some]
      intro execution hexecution
      have hok := (execution?_eq_some_iff.1 hexecution).2.2
      rw [hstep] at hok
      cases hok

/-- What has been executed leads from the machine before to the one that the table of
instructions promises. -/
theorem after_eq_next_of_execution? {machine : Machine γ} {execution : Execution γ}
    (hexecution : machine.execution? = some execution) :
    execution.after = machine.next execution.instruction := by
  obtain ⟨-, hnext, hstep⟩ := execution?_eq_some_iff.1 hexecution
  obtain ⟨instruction, hnext', -, hafter⟩ := step_eq_ok_iff.1 hstep
  rw [hnext] at hnext'
  rw [hafter, Except.ok.inj hnext']

/-- What the word says of the random byte, the instruction does. -/
theorem draws_of_execution? {machine : Machine γ} {execution : Execution γ}
    (hexecution : machine.execution? = some execution) :
    execution.draws = execution.instruction.draws := by
  obtain ⟨rfl, hnext, -⟩ := execution?_eq_some_iff.1 hexecution
  obtain ⟨-, hword⟩ := State.nextInstruction_eq_ok_iff.1 hnext
  rw [Execution.draws, Bool.eq_iff_iff, decide_eq_true_iff]
  exact hword.draws_iff

/-! ## Executions without a gap -/

/-- Executions that follow each other from one machine to another. -/
inductive Leads : Machine γ → List (Execution γ) → Machine γ → Prop
  | nil (machine : Machine γ) : Leads machine [] machine
  | cons {machine final : Machine γ} {execution : Execution γ} {rest : List (Execution γ)}
      (hexecution : machine.execution? = some execution)
      (hrest : Leads execution.after rest final) :
      Leads machine (execution :: rest) final

/-- One round of a run, told by what it executes. -/
theorem runFrom_succ_of_execution? {machine : Machine γ} {execution : Execution γ}
    (hexecution : machine.execution? = some execution) (target : Word) (cycles limit : Nat) :
    runFrom target cycles (limit + 1) machine =
      if execution.after.state.pc = target then .ok ⟨cycles + 1, true⟩ execution.after
      else runFrom target (cycles + 1) limit execution.after := by
  rw [runFrom_succ, (execution?_eq_some_iff.1 hexecution).2.2]

/-- A run stops where nothing can be executed, with the fault of the state. -/
theorem runFrom_succ_of_stepFault? {machine : Machine γ} {cause : ProgramFault}
    (hcause : machine.state.stepFault? = some cause) (target : Word) (cycles limit : Nat) :
    runFrom target cycles (limit + 1) machine = .error (.program cause) machine := by
  rw [runFrom_succ, step_eq_error_iff.2 ⟨cause, hcause, rfl, rfl⟩]

theorem runExecutions_succ_of_execution? {machine : Machine γ} {execution : Execution γ}
    (hexecution : machine.execution? = some execution) (target : Word) (limit : Nat) :
    machine.runExecutions target (limit + 1) =
      execution ::
        if execution.after.state.pc = target then []
        else execution.after.runExecutions target limit := by
  rw [runExecutions, hexecution]

theorem runExecutions_succ_of_stepFault? {machine : Machine γ} {cause : ProgramFault}
    (hcause : machine.state.stepFault? = some cause) (target : Word) (limit : Nat) :
    machine.runExecutions target (limit + 1) = [] := by
  rw [runExecutions, execution?_eq_none_iff.2 ⟨cause, hcause⟩]

/-- What a run executes leads to the machine that it leaves behind. -/
theorem leads_runExecutions (target : Word) (cycles limit : Nat) (machine : Machine γ) :
    Leads machine (machine.runExecutions target limit)
      (Transition.final (runFrom target cycles limit) machine) := by
  induction limit generalizing cycles machine with
  | zero => exact .nil machine
  | succ limit ih =>
      cases hexecution : machine.execution? with
      | none =>
          obtain ⟨cause, hcause⟩ := execution?_eq_none_iff.1 hexecution
          rw [runExecutions_succ_of_stepFault? hcause,
            Transition.final_of_error (runFrom_succ_of_stepFault? hcause target cycles limit)]
          exact .nil machine
      | some execution =>
          have hround := runFrom_succ_of_execution? hexecution target cycles limit
          rw [runExecutions_succ_of_execution? hexecution]
          refine .cons hexecution ?_
          by_cases hpc : execution.after.state.pc = target
          · rw [if_pos hpc] at hround
            rw [if_pos hpc, Transition.final_of_ok hround]
            exact .nil execution.after
          · rw [if_neg hpc] at hround
            rw [if_neg hpc, Transition.final, hround]
            exact ih (cycles + 1) execution.after

/-- **Nothing is left out.**  What a step or a run executes leads from the machine that it was
called on to the one that it leaves behind.  Loads and resets execute nothing, and leave the
source as it is. -/
theorem leads_executions (call : Call) (machine : Machine γ) :
    ∃ final, Leads machine (call.executions machine) final ∧
      final.source = (Transition.final call.perform machine).source := by
  cases call with
  | load rom =>
      refine ⟨machine, .nil machine, ?_⟩
      rw [final_perform_load]
      split <;> rfl
  | step =>
      rw [final_perform_step]
      refine ⟨_, ?_, rfl⟩
      show Leads machine machine.execution?.toList _
      cases hexecution : machine.execution? with
      | none =>
          obtain ⟨cause, hcause⟩ := execution?_eq_none_iff.1 hexecution
          rw [Transition.final_of_error (step_eq_error_iff.2 ⟨cause, hcause, rfl, rfl⟩)]
          exact .nil machine
      | some execution =>
          rw [Transition.final_of_ok (execution?_eq_some_iff.1 hexecution).2.2]
          exact .cons hexecution (.nil execution.after)
  | run target limit =>
      rw [final_perform_run]
      exact ⟨_, leads_runExecutions target 0 limit machine, rfl⟩
  | reset => exact ⟨machine, .nil machine, rfl⟩

/-! ## The source -/

/-- An execution takes one word from the source if it draws, and none otherwise. -/
theorem source_of_execution? {machine : Machine γ} {execution : Execution γ}
    (hexecution : machine.execution? = some execution) :
    execution.after.source = WordSource.after machine.source execution.draws.toNat := by
  rw [after_eq_next_of_execution? hexecution, next, draws_of_execution? hexecution]
  cases execution.instruction.draws <;> rfl

/-- The instruction that draws stores the low byte of the word, masked. -/
theorem register_of_execution? {machine : Machine γ} {execution : Execution γ}
    (hexecution : machine.execution? = some execution) (hdraws : execution.draws) :
    ∃ x mask, execution.instruction = .random x mask ∧
      execution.after.state.register x =
        (WordSource.word machine.source 0).toUInt8 &&& mask := by
  have hafter := after_eq_next_of_execution? hexecution
  rw [draws_of_execution? hexecution] at hdraws
  obtain ⟨x, mask, hinstruction⟩ := Instruction.draws_eq_true_iff.1 hdraws
  rw [hinstruction] at hafter hdraws
  refine ⟨x, mask, hinstruction, ?_⟩
  rw [hafter, next, if_pos hdraws, Instruction.register_next, Instruction.result,
    State.register_setRegister, if_pos rfl]
  rfl

/-- Executions without a gap take as many words as there are draws among them, and draw number
`k` finds the source after `k` draws. -/
theorem Leads.source_eq {machine final : Machine γ} {executions : List (Execution γ)}
    (hleads : Leads machine executions final) :
    final.source = WordSource.after machine.source (executions.filter Execution.draws).length ∧
      ∀ k execution, (executions.filter Execution.draws)[k]? = some execution →
        execution.before.execution? = some execution ∧
          execution.before.source = WordSource.after machine.source k := by
  induction hleads with
  | nil machine => exact ⟨rfl, nofun⟩
  | @cons machine final head rest hexecution hrest ih =>
      obtain ⟨hfinal, hmembers⟩ := ih
      have hsource := source_of_execution? hexecution
      obtain rfl := (execution?_eq_some_iff.1 hexecution).1
      rw [hsource, WordSource.after_add] at hfinal
      cases hdraws : head.draws with
      | false =>
          rw [hdraws] at hsource hfinal
          rw [List.filter_cons_of_neg (by simp [hdraws])]
          rw [hsource] at hmembers
          exact ⟨by rwa [Bool.toNat_false, Nat.zero_add] at hfinal, hmembers⟩
      | true =>
          rw [hdraws] at hsource hfinal
          rw [List.filter_cons_of_pos hdraws]
          refine ⟨by rwa [Bool.toNat_true, Nat.add_comm] at hfinal, fun k execution hk => ?_⟩
          cases k with
          | zero =>
              obtain rfl := Option.some.inj hk
              exact ⟨hexecution, rfl⟩
          | succ k =>
              obtain ⟨hmember, hbefore⟩ := hmembers k execution hk
              rw [hsource, WordSource.after_add, Nat.add_comm] at hbefore
              exact ⟨hmember, hbefore⟩

/-- The same for a sequence of calls, over the whole life of a machine. -/
theorem source_afterCalls (machine : Machine γ) (calls : List Call) :
    (machine.afterCalls calls).source =
      WordSource.after machine.source (machine.draws calls).length ∧
      ∀ k execution, (machine.draws calls)[k]? = some execution →
        execution.before.execution? = some execution ∧
          execution.before.source = WordSource.after machine.source k := by
  induction calls generalizing machine with
  | nil => exact ⟨rfl, nofun⟩
  | cons call rest ih =>
      obtain ⟨final, hleads, hfinal⟩ := leads_executions call machine
      obtain ⟨hsource, hmembers⟩ := hleads.source_eq
      obtain ⟨hlater, hlaterMembers⟩ := ih (Transition.final call.perform machine)
      rw [← hfinal, hsource] at hlater hlaterMembers
      rw [afterCalls_cons, hlater, WordSource.after_add, draws_cons, List.length_append]
      refine ⟨rfl, fun k execution hk => ?_⟩
      rw [List.getElem?_append] at hk
      split at hk
      · exact hmembers k execution hk
      · obtain ⟨hmember, hbefore⟩ := hlaterMembers _ execution hk
        rw [WordSource.after_add, Nat.add_sub_cancel' (by omega)] at hbefore
        exact ⟨hmember, hbefore⟩

/-! ## Two machines -/

variable {δ : Type} [WordSource δ]

/-- Two machines are in equal states, and the next `k` words of their sources agree in their low
bytes. -/
structure Agrees (k : Nat) (first : Machine γ) (second : Machine δ) : Prop where
  state_eq : first.state = second.state
  byte_eq : ∀ i < k,
    (WordSource.word first.source i).toUInt8 = (WordSource.word second.source i).toUInt8

/-- Sources that have been drawn from equally often agree in what is left. -/
theorem Agrees.of_after {k n : Nat} {first after : Machine γ} {second after' : Machine δ}
    (h : Agrees k first second) (hn : n ≤ k) (hstate : after.state = after'.state)
    (hsource : after.source = WordSource.after first.source n)
    (hsource' : after'.source = WordSource.after second.source n) :
    Agrees (k - n) after after' where
  state_eq := hstate
  byte_eq i hi := by
    rw [hsource, hsource', WordSource.word_after, WordSource.word_after]
    exact h.byte_eq (n + i) (by omega)

/-- **One step of two machines.**  What one machine executes the other executes too, and they
agree afterwards in one word less if a word has been drawn. -/
theorem Agrees.execution? {k : Nat} {first : Machine γ} {second : Machine δ}
    {execution : Execution γ} (h : Agrees k first second)
    (hexecution : first.execution? = some execution) (hdraws : execution.draws.toNat ≤ k) :
    ∃ execution', second.execution? = some execution' ∧
      Agrees (k - execution.draws.toNat) execution.after execution'.after := by
  obtain ⟨-, hnext, hstep⟩ := execution?_eq_some_iff.1 hexecution
  obtain ⟨instruction, hnext', hspan, -⟩ := step_eq_ok_iff.1 hstep
  obtain rfl := Except.ok.inj (hnext.symm.trans hnext')
  rw [h.state_eq] at hnext hspan
  have hexecution' : second.execution? = some ⟨second, execution.instruction,
      second.next execution.instruction⟩ :=
    execution?_eq_some_iff.2 ⟨rfl, hnext, step_eq_ok_iff.2 ⟨_, hnext, hspan, rfl⟩⟩
  refine ⟨_, hexecution', ?_⟩
  have hsource' := source_of_execution? hexecution'
  rw [draws_of_execution? hexecution', ← draws_of_execution? hexecution] at hsource'
  refine h.of_after hdraws ?_ (source_of_execution? hexecution) hsource'
  -- The one byte that the instruction may look at is the same.
  rw [after_eq_next_of_execution? hexecution, next, next]
  cases hinstruction : execution.instruction.draws with
  | false => simp [h.state_eq]
  | true =>
      rw [draws_of_execution? hexecution, hinstruction] at hdraws
      have hbyte := h.byte_eq 0 hdraws
      rw [WordSource.word, WordSource.word, WordSource.after_zero,
        WordSource.after_zero] at hbyte
      simp [h.state_eq, hbyte]

omit [WordSource γ] in
theorem countP_draws_cons (execution : Execution γ) (rest : List (Execution γ)) :
    (execution :: rest).countP Execution.draws =
      execution.draws.toNat + rest.countP Execution.draws := by
  rw [List.countP_cons]
  cases execution.draws <;> simp [Nat.add_comm]

/-- Two results return the same, a value or a fault, and leave machines that agree. -/
inductive ResultsAgree {α : Type} (k : Nat) :
    EStateM.Result Fault (Machine γ) α → EStateM.Result Fault (Machine δ) α → Prop
  | ok {first : Machine γ} {second : Machine δ} (result : α) (h : Agrees k first second) :
      ResultsAgree k (.ok result first) (.ok result second)
  | error {first : Machine γ} {second : Machine δ} (fault : Fault) (h : Agrees k first second) :
      ResultsAgree k (.error fault first) (.error fault second)

theorem ResultsAgree.answer_eq {α : Type} {k : Nat} {transition : Transition (Machine γ) α}
    {transition' : Transition (Machine δ) α} {first : Machine γ} {second : Machine δ}
    (h : ResultsAgree k (transition first) (transition' second)) :
    Transition.answer transition first = Transition.answer transition' second ∧
      Agrees k (Transition.final transition first) (Transition.final transition' second) := by
  rw [Transition.answer, Transition.answer, Transition.final, Transition.final]
  generalize transition first = result, transition' second = result' at h
  cases h with
  | ok result h => exact ⟨rfl, h⟩
  | error fault h => exact ⟨rfl, h⟩

/-- Returning something else leaves the machines that agree. -/
theorem ResultsAgree.bind_pure {α β : Type} {k : Nat} {transition : Transition (Machine γ) α}
    {transition' : Transition (Machine δ) α} {first : Machine γ} {second : Machine δ}
    (h : ResultsAgree k (transition first) (transition' second)) (f : α → β) :
    ResultsAgree k ((do return f (← transition)) first)
      ((do return f (← transition')) second) := by
  simp only [bind, EStateM.bind, pure, EStateM.pure]
  generalize transition first = result, transition' second = result' at h
  cases h with
  | ok result h => exact .ok (f result) h
  | error fault h => exact .error fault h

/-- A step that fails for one machine fails for the other, with the same fault. -/
theorem Agrees.stepFault? {k : Nat} {first : Machine γ} {second : Machine δ}
    {cause : ProgramFault} (h : Agrees k first second)
    (hcause : first.state.stepFault? = some cause) :
    second.state.stepFault? = some cause := by
  rw [← h.state_eq]
  exact hcause

theorem Agrees.step {k : Nat} {first : Machine γ} {second : Machine δ}
    (h : Agrees k first second) (hdraws : first.execution?.toList.countP Execution.draws ≤ k) :
    ResultsAgree (k - first.execution?.toList.countP Execution.draws) (Machine.step first)
      (Machine.step second) := by
  cases hexecution : first.execution? with
  | none =>
      obtain ⟨cause, hcause⟩ := execution?_eq_none_iff.1 hexecution
      have hfirst : Machine.step first = .error (.program cause) first :=
        step_eq_error_iff.2 ⟨cause, hcause, rfl, rfl⟩
      have hsecond : Machine.step second = .error (.program cause) second :=
        step_eq_error_iff.2 ⟨cause, h.stepFault? hcause, rfl, rfl⟩
      rw [hfirst, hsecond]
      exact .error (.program cause) h
  | some execution =>
      rw [hexecution, Option.toList_some, countP_draws_cons] at hdraws
      obtain ⟨execution', hexecution', hafter⟩ := h.execution? hexecution hdraws
      rw [(execution?_eq_some_iff.1 hexecution).2.2, (execution?_eq_some_iff.1 hexecution').2.2,
        Option.toList_some, countP_draws_cons]
      exact .ok () hafter

theorem Agrees.runFrom {k : Nat} {first : Machine γ} {second : Machine δ}
    (h : Agrees k first second) (target : Word) (cycles limit : Nat)
    (hdraws : (first.runExecutions target limit).countP Execution.draws ≤ k) :
    ResultsAgree (k - (first.runExecutions target limit).countP Execution.draws)
      (Machine.runFrom target cycles limit first)
      (Machine.runFrom target cycles limit second) := by
  induction limit generalizing k first second cycles with
  | zero => exact .ok (RunEnd.mk cycles false) h
  | succ limit ih =>
      cases hexecution : first.execution? with
      | none =>
          obtain ⟨cause, hcause⟩ := execution?_eq_none_iff.1 hexecution
          rw [runExecutions_succ_of_stepFault? hcause, runFrom_succ_of_stepFault? hcause,
            runFrom_succ_of_stepFault? (h.stepFault? hcause)]
          exact .error (.program cause) h
      | some execution =>
          rw [runExecutions_succ_of_execution? hexecution, countP_draws_cons] at hdraws ⊢
          obtain ⟨execution', hexecution', hafter⟩ := h.execution? hexecution (by omega)
          rw [runFrom_succ_of_execution? hexecution, runFrom_succ_of_execution? hexecution',
            ← hafter.state_eq, ← Nat.sub_sub]
          by_cases hpc : execution.after.state.pc = target
          · rw [if_pos hpc, if_pos hpc, if_pos hpc]
            exact .ok (RunEnd.mk (cycles + 1) true) hafter
          · rw [if_neg hpc] at hdraws
            rw [if_neg hpc, if_neg hpc, if_neg hpc]
            exact ih hafter (cycles + 1) (by omega)

/-- **One call on two machines.** -/
theorem Agrees.perform {k : Nat} {first : Machine γ} {second : Machine δ}
    (h : Agrees k first second) (call : Call)
    (hdraws : (call.executions first).countP Execution.draws ≤ k) :
    ResultsAgree (k - (call.executions first).countP Execution.draws) (call.perform first)
      (call.perform second) := by
  cases call with
  | load rom =>
      have hload : ResultsAgree k (loadRom rom first) (loadRom rom second) := by
        rw [loadRom, loadRom, ← h.state_eq]
        cases first.state.loadRom rom with
        | ok state => exact .ok () (Agrees.mk rfl h.byte_eq)
        | error fault => exact .error (.engine fault) h
      exact hload.bind_pure fun _ => none
  | step => exact (h.step hdraws).bind_pure fun _ => none
  | run target limit => exact (h.runFrom target 0 limit hdraws).bind_pure some
  | reset => exact .ok none (Agrees.mk rfl h.byte_eq)

/-- **Any calls on two machines.**  They cannot be told apart by calls that draw no more words
than they agree in. -/
theorem Agrees.afterCalls {k : Nat} {first : Machine γ} {second : Machine δ}
    (h : Agrees k first second) (calls : List Call) (hdraws : (first.draws calls).length ≤ k) :
    first.answers calls = second.answers calls ∧
      (first.afterCalls calls).state = (second.afterCalls calls).state := by
  induction calls generalizing k first second with
  | nil => exact ⟨rfl, h.state_eq⟩
  | cons call rest ih =>
      rw [draws_cons, List.length_append, ← List.countP_eq_length_filter] at hdraws
      obtain ⟨hanswer, hfinal⟩ := (h.perform call (by omega)).answer_eq
      obtain ⟨hanswers, hstate⟩ := ih hfinal (by omega)
      exact ⟨congrArg₂ List.cons hanswer hanswers, hstate⟩

/-- **Random draws are accounted for exactly.**  After any calls on a new machine, its source
has been drawn from once for each executed instruction that asks for a random byte, and number
`k` of them has stored the low byte of word `k`, masked; loads, resets, failing calls and all
other instructions draw nothing.  So two machines in equal states, over sources whose next `k`
words agree in their low bytes, return the same and come to equal states by all calls that
execute at most `k` such instructions.  Where none is executed, the seed does not matter. -/
theorem draws_accounted :
    (∀ (source : γ) (calls : List Call),
      ((new source).afterCalls calls).source =
        WordSource.after source ((new source).draws calls).length ∧
        ∀ k execution, ((new source).draws calls)[k]? = some execution →
          step execution.before = .ok () execution.after ∧
            ∃ x mask, (execution.before.state.wordAt execution.before.state.pc.toNat).Encodes
              (.random x mask) ∧
              (execution.after.state.register x).toNat =
                (WordSource.word source k).toNat % 256 &&& mask.toNat) ∧
      (∀ (k : Nat) (first : Machine γ) (second : Machine δ) (calls : List Call),
        first.state = second.state →
        (∀ i < k, (WordSource.word first.source i).toNat % 256 =
          (WordSource.word second.source i).toNat % 256) →
          (first.draws calls).length ≤ k →
            first.answers calls = second.answers calls ∧
              (first.afterCalls calls).state = (second.afterCalls calls).state) ∧
      ∀ (seed seed' : UInt64) (calls : List Call), (seeded seed).draws calls = [] →
        (seeded seed).answers calls = (seeded seed').answers calls ∧
          ((seeded seed).afterCalls calls).state = ((seeded seed').afterCalls calls).state := by
  refine ⟨fun source calls => ?_, fun k first second calls hstate hbyte hdraws => ?_,
    fun seed seed' calls hnone => ?_⟩
  · obtain ⟨hsource, hmembers⟩ := source_afterCalls (new source) calls
    refine ⟨hsource, fun k execution hk => ?_⟩
    obtain ⟨hexecution, hbefore⟩ := hmembers k execution hk
    obtain ⟨-, hnext, hstep⟩ := execution?_eq_some_iff.1 hexecution
    have hdraws : execution.draws = true := (List.mem_filter.1 (List.mem_of_getElem? hk)).2
    obtain ⟨x, mask, hinstruction, hregister⟩ := register_of_execution? hexecution hdraws
    rw [hinstruction] at hnext
    refine ⟨hstep, x, mask, (State.nextInstruction_eq_ok_iff.1 hnext).2, ?_⟩
    rw [hregister, hbefore, WordSource.word_after, UInt8.toNat_and, UInt32.toNat_toUInt8]
    rfl
  · have hagrees : Agrees k first second := by
      refine ⟨hstate, fun i hi => UInt8.toNat_inj.1 ?_⟩
      rw [UInt32.toNat_toUInt8, UInt32.toNat_toUInt8]
      exact hbyte i hi
    exact hagrees.afterCalls calls hdraws
  · have hinitial : ∀ seed, (seeded seed).state = State.initial := fun _ => rfl
    have hagrees : Agrees 0 (seeded seed) (seeded seed') :=
      ⟨(hinitial seed).trans (hinitial seed').symm, fun i hi => absurd hi (Nat.not_lt_zero i)⟩
    exact hagrees.afterCalls calls (by rw [hnone]; exact Nat.le_refl 0)

/-- A program that draws one byte and keeps its low half (`C00F`). -/
def oneDrawRom : ByteArray := ⟨#[0xC0, 0x0F]⟩

/-- Loaded into a machine that has been reset, it draws once with its first step. -/
theorem draws_load_step (machine : Machine γ) (hpc : machine.state.pc = 0x200)
    (rest : List Call) :
    ∃ execution : Execution γ,
      machine.draws (.load oneDrawRom :: .step :: rest) =
        execution :: execution.after.draws rest := by
  obtain ⟨loaded, hload⟩ :=
    exists_loadRom_eq_ok (by decide : oneDrawRom.size ≤ romCapacity) machine
  have hhigh : loadedByte? oneDrawRom 0x200 = some 0xC0 := by decide
  have hlow : loadedByte? oneDrawRom (0x200 + 1) = some 0x0F := by decide
  rw [← pc_loadRom hload] at hpc
  have hfetch : loaded.state.pc.toNat + 2 ≤ memorySize := by
    rw [hpc]
    decide
  have hword : (loaded.state.wordAt loaded.state.pc.toNat).Encodes (.random 0 0x0F) := by
    rw [hpc]
    exact ⟨trivial, toNat_wordAt_of_loadRom hload hhigh hlow⟩
  have hstep : step loaded = .ok () (loaded.next (.random 0 0x0F)) :=
    step_of_encodes hfetch hword rfl
  have hexecution : loaded.execution? = some ⟨loaded, .random 0 0x0F,
      loaded.next (.random 0 0x0F)⟩ :=
    execution?_eq_some_iff.2 ⟨rfl, State.nextInstruction_eq_ok_iff.2 ⟨hfetch, hword⟩, hstep⟩
  have hdraws : Execution.draws ⟨loaded, .random 0 0x0F, loaded.next (.random 0 0x0F)⟩ = true :=
    draws_of_execution? hexecution
  refine ⟨⟨loaded, .random 0 0x0F, loaded.next (.random 0 0x0F)⟩, ?_⟩
  rw [draws_cons, draws_cons, final_perform_load_of_ok hload, final_perform_step,
    Transition.final_of_ok hstep, Call.executions, Call.executions, hexecution,
    Option.toList_some, List.filter_cons_of_pos hdraws]
  rfl

/-- That program twice, with a reset in between. -/
def twoDraws : List Call :=
  [.load oneDrawRom, .step, .reset, .load oneDrawRom, .step]

theorem draws_accounted_across_reset :
    ((new (⟨7, 1⟩ : SteppingSource)).draws twoDraws).length = 2 ∧
      ((new (⟨7, 1⟩ : SteppingSource)).afterCalls twoDraws).source = ⟨9, 1⟩ ∧
      (∃ execution x mask,
        ((new (⟨7, 1⟩ : SteppingSource)).draws twoDraws)[1]? = some execution ∧
        (execution.before.state.wordAt execution.before.state.pc.toNat).Encodes
          (.random x mask) ∧
          (execution.after.state.register x).toNat = 8 &&& mask.toNat) ∧
      (new (⟨7, 1⟩ : SteppingSource)).answers twoDraws =
        (new (⟨0x507, 1⟩ : SteppingSource)).answers twoDraws ∧
      (seeded 1).answers [.reset, .step] = (seeded 2).answers [.reset, .step] := by
  have hlength : ((new (⟨7, 1⟩ : SteppingSource)).draws twoDraws).length = 2 := by
    obtain ⟨first, hfirst⟩ := draws_load_step (new (⟨7, 1⟩ : SteppingSource)) rfl
      [.reset, .load oneDrawRom, .step]
    obtain ⟨second, hsecond⟩ := draws_load_step first.after.reset rfl []
    rw [twoDraws, hfirst, draws_cons, final_perform_reset, hsecond]
    rfl
  obtain ⟨haccounts, hagree, hseedless⟩ := @draws_accounted SteppingSource _ SteppingSource _
  obtain ⟨hsource, hmembers⟩ := haccounts ⟨7, 1⟩ twoDraws
  have hsecond :=
    List.getElem?_eq_getElem (show 1 <
      ((new (⟨7, 1⟩ : SteppingSource)).draws twoDraws).length by omega)
  obtain ⟨-, x, mask, hword, hregister⟩ := hmembers 1 _ hsecond
  have hsame := hagree 2 (new ⟨7, 1⟩) (new ⟨0x507, 1⟩) twoDraws rfl (by decide)
      (Nat.le_of_eq hlength)
  rw [hlength] at hsource
  exact ⟨hlength, hsource, ⟨_, x, mask, hsecond, hword, hregister⟩, hsame.1,
    (hseedless 1 2 [.reset, .step] (by decide +kernel)).1⟩

end Machine

end GoldenRom
