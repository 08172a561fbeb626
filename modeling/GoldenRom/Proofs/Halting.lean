import GoldenRom.Proofs.Protection

/-!
# The interpreter region is terminal

Nothing can be planted below the load address: instructions are kept out by the guard, and a
load starts at the load address.  So the words there have a zero for their first digit, which no
instruction has, and a machine that comes there stays there.  A program says that it is done by
jumping to such a place.  From then on steps and runs fail, and loads change memory only, until
the machine is reset.

## Main definitions

* `State.NothingBelow`: all bytes below the load address are zero.
* `Machine.FailsWith`: every attempt to go on fails with a fault and changes nothing.
* `Call.loads`: the calls that a machine below the load address still obeys, resets apart.

### Design notes

The word at the last address of the region reaches into the loaded ROM, so its low byte is up to
the program.  Only its high byte is used for the whole region; that the word is zero is said of
the addresses before.
-/

namespace GoldenRom

namespace Instruction

/-- The first digit of an instruction is not zero. -/
theorem le_encode (instruction : Instruction) : 0x1000 ≤ instruction.encode := by
  cases instruction <;> simp only [encode] <;> omega

end Instruction

namespace State

/-- All bytes below the load address are zero. -/
def NothingBelow (s : State) : Prop :=
  ∀ address, address < 0x200 → s.byteAt address = 0

theorem nothingBelow_initial : initial.NothingBelow :=
  fun address _ => byteAt_initial address

/-- A load leaves alone what lies below the load address. -/
theorem NothingBelow.loadRom {s t : State} {rom : ByteArray} (hs : s.NothingBelow)
    (hload : s.loadRom rom = .ok t) : t.NothingBelow := by
  intro address hbelow
  rw [byteAt_of_loadRom hload, dif_neg fun hinside => Nat.not_le.2 hbelow hinside.1]
  exact hs address hbelow

/-- The high byte of a word that starts below the load address is zero. -/
theorem NothingBelow.toNat_wordAt_lt {s : State} (hs : s.NothingBelow) {address : Nat}
    (hbelow : address < 0x200) : (s.wordAt address).toNat < 0x100 := by
  have hlow : (s.byteAt (address + 1)).toNat < 2 ^ 8 := (s.byteAt (address + 1)).toNat_lt
  rw [toNat_wordAt, hs address hbelow]
  simpa using hlow

/-- Both bytes of a word that ends below the load address are zero. -/
theorem NothingBelow.wordAt_eq_zero {s : State} (hs : s.NothingBelow) {address : Nat}
    (hbelow : address ≤ 0x1FE) : s.wordAt address = 0 := by
  rw [← UInt16.toNat_inj, toNat_wordAt, hs address (by omega), hs (address + 1) (by omega)]
  rfl

/-- A step below the load address has no instruction to execute. -/
theorem NothingBelow.stepFault?_eq {s : State} (hs : s.NothingBelow)
    (hpc : s.pc.toNat < 0x200) :
    s.stepFault? = some (.unrecognizedOpcode (s.wordAt s.pc.toNat) s.pc) := by
  have hfetch : s.pc.toNat + 2 ≤ memorySize := by
    rw [memorySize]
    omega
  have hnone : ∀ instruction, ¬(s.wordAt s.pc.toNat).Encodes instruction := by
    intro instruction hword
    have hfirst := instruction.le_encode
    have hlow := hs.toNat_wordAt_lt hpc
    rw [← hword.toNat_eq] at hfirst
    omega
  rw [stepFault?, nextInstruction_eq_error_iff.2 (Or.inr ⟨hfetch, hnone, rfl⟩)]

end State

/-- Whether a call asks to load a ROM. -/
def Call.loads : Call → Bool
  | load _ => true
  | _ => false

namespace Machine

variable {γ : Type} [WordSource γ]

/-- Every attempt to go on fails with a fault and changes nothing. -/
def FailsWith (machine : Machine γ) (fault : Fault) : Prop :=
  step machine = .error fault machine ∧
    ∀ target limit, 0 < limit → runUntil target limit machine = .error fault machine

/-- A machine whose next step fails can neither step nor run. -/
theorem failsWith_of_stepFault? {machine : Machine γ} {cause : ProgramFault}
    (hcause : machine.state.stepFault? = some cause) : machine.FailsWith (.program cause) := by
  have hstep : step machine = .error (.program cause) machine :=
    step_eq_error_iff.2 ⟨cause, hcause, rfl, rfl⟩
  refine ⟨hstep, fun target limit hlimit => ?_⟩
  exact runUntil_eq_iff.2 (.faulted hlimit (afterSteps_zero machine)
    (staysAway_zero machine target) hstep)

/-- A machine that can neither step nor run is not changed by an attempt. -/
theorem FailsWith.final_runUntil {machine : Machine γ} {fault : Fault}
    (hfails : machine.FailsWith fault) (target : Word) (limit : Nat) :
    Transition.final (runUntil target limit) machine = machine := by
  cases limit with
  | zero => rfl
  | succ limit =>
      exact Transition.final_of_error (hfails.2 target (limit + 1) (Nat.succ_pos limit))

/-! ## What holds of every machine -/

theorem nothingBelow_of_step {before after : Machine γ} (hbefore : before.state.NothingBelow)
    (hstep : step before = .ok () after) : after.state.NothingBelow := by
  intro address hbelow
  rw [byteAt_of_step hstep (by omega)]
  exact hbefore address hbelow

/-- **Nothing stands below the load address**, whatever is called on a machine. -/
theorem nothingBelow_afterCalls (source : γ) (calls : List Call) :
    ((new source).afterCalls calls).state.NothingBelow :=
  afterCalls_induction (P := fun machine => machine.state.NothingBelow)
    State.nothingBelow_initial
    (fun _ _ _ hmachine hload => hmachine.loadRom hload)
      (fun _ _ hbefore hstep => nothingBelow_of_step hbefore hstep)
    (fun _ _ => State.nothingBelow_initial) calls

/-! ## A machine below the load address -/

/-- A machine stands below the load address, where there is nothing to execute. -/
structure StandsBelow (machine : Machine γ) (pc : Word) : Prop where
  nothingBelow : machine.state.NothingBelow
  pc_eq : machine.state.pc = pc
  pc_lt : pc.toNat < 0x200

theorem StandsBelow.failsWith {machine : Machine γ} {pc : Word}
    (hmachine : machine.StandsBelow pc) :
    machine.FailsWith (.program (.unrecognizedOpcode (machine.state.wordAt pc.toNat) pc)) := by
  obtain ⟨hnothing, rfl, hpc⟩ := hmachine
  exact failsWith_of_stepFault? (hnothing.stepFault?_eq hpc)

/-- Of all calls but a reset, such a machine obeys loads only. -/
theorem StandsBelow.final_perform {machine : Machine γ} {pc : Word}
    (hmachine : machine.StandsBelow pc) {call : Call} (hreset : call ≠ .reset)
    (hloads : call.loads = false) : Transition.final call.perform machine = machine := by
  cases call with
  | load rom => cases hloads
  | step =>
      rw [final_perform_step]
      exact Transition.final_of_error hmachine.failsWith.1
  | run target limit =>
      rw [final_perform_run]
      exact hmachine.failsWith.final_runUntil target limit
  | reset => exact absurd rfl hreset

/-- A load leaves such a machine where it stands. -/
theorem StandsBelow.load {machine : Machine γ} {pc : Word} (hmachine : machine.StandsBelow pc)
    (rom : ByteArray) :
    (Transition.final (Call.load rom).perform machine).StandsBelow pc := by
  rw [final_perform_load]
  cases hload : machine.state.loadRom rom with
  | ok state =>
      exact ⟨hmachine.nothingBelow.loadRom hload, (State.pc_loadRom hload).trans hmachine.pc_eq,
        hmachine.pc_lt⟩
  | error fault => exact hmachine

/-- **A machine below the load address stays there** until it is reset, and the calls that
change it are the loads. -/
theorem StandsBelow.afterCalls {machine : Machine γ} {pc : Word}
    (hmachine : machine.StandsBelow pc) {later : List Call} (hreset : Call.reset ∉ later) :
    (machine.afterCalls later).StandsBelow pc ∧
      machine.afterCalls later = machine.afterCalls (later.filter Call.loads) := by
  induction later generalizing machine with
  | nil => exact ⟨hmachine, rfl⟩
  | cons call rest ih =>
      have hrest : Call.reset ∉ rest := fun hmem => hreset (List.mem_cons_of_mem call hmem)
      cases hloads : call.loads with
      | true =>
          cases call with
          | load rom =>
              rw [List.filter_cons_of_pos hloads, afterCalls_cons, afterCalls_cons]
              exact ih (hmachine.load rom) hrest
          | _ => cases hloads
      | false =>
          have hcall : call ≠ .reset := fun heq => hreset (heq ▸ List.mem_cons_self)
          rw [List.filter_cons_of_neg (by simp [hloads]), afterCalls_cons,
            hmachine.final_perform hcall hloads]
          exact ih hmachine hrest

/-- A run that comes below the load address ends there. -/
theorem StandsBelow.runUntil_eq {start reached : Machine γ} {pc target : Word} {n limit : Nat}
    (hstands : reached.StandsBelow pc) (hreached : start.afterSteps n = some reached)
    (hlimit : n < limit) (haway : start.StaysAway target n) :
    runUntil target limit start
      = .error (.program (.unrecognizedOpcode (reached.state.wordAt pc.toNat) pc)) reached :=
  runUntil_eq_iff.2 (.faulted hlimit hreached haway hstands.failsWith.1)

/-- **The interpreter region is terminal.**  On a machine that calls have produced, all bytes
below the load address are zero.  If its program counter lies there, steps and runs fail because
the word at it is no instruction, and until a reset no call but a load has an effect.  At the
halt address the word is zero, before and after any loads, and a run that comes there on its way
ends with the same fault. -/
theorem terminal_below_load_address {source : γ} {calls : List Call} {machine : Machine γ}
    (hmachine : (new source).afterCalls calls = machine) :
    (∀ address, address < 0x200 → machine.state.byteAt address = 0) ∧
      (machine.state.pc.toNat < 0x200 →
        ∃ opcode, machine.FailsWith (.program (.unrecognizedOpcode opcode machine.state.pc)) ∧
          opcode.toNat < 0x100 ∧ (machine.state.pc.toNat ≤ 0x1FE → opcode = 0)) ∧
      (machine.state.pc.toNat < 0x200 → ∀ later, Call.reset ∉ later →
        (machine.afterCalls later).state.pc = machine.state.pc ∧
          machine.afterCalls later = machine.afterCalls (later.filter Call.loads)) ∧
      (machine.state.pc = 0x111 → ∀ later, Call.reset ∉ later →
        (machine.afterCalls later).state.pc = 0x111 ∧
          (machine.afterCalls later).FailsWith (.program (.unrecognizedOpcode 0 0x111))) ∧
      ∀ n reached target limit, machine.afterSteps n = some reached → reached.state.pc = 0x111 →
        n < limit →
        machine.StaysAway target n →
          runUntil target limit machine =
            .error (.program (.unrecognizedOpcode 0 0x111)) reached := by
  subst hmachine
  have hnothing := nothingBelow_afterCalls source calls
  generalize (new source).afterCalls calls = machine at hnothing
  have hhalt : ∀ {halted : Machine γ}, halted.StandsBelow 0x111 →
      halted.state.wordAt (0x111 : Word).toNat = 0 :=
    fun hhalted => hhalted.nothingBelow.wordAt_eq_zero (by decide)
  refine ⟨hnothing, fun hpc => ?_, fun hpc later hreset => ?_, fun hpc later hreset => ?_, ?_⟩
  · exact ⟨_, StandsBelow.failsWith ⟨hnothing, rfl, hpc⟩, hnothing.toNat_wordAt_lt hpc,
      hnothing.wordAt_eq_zero⟩
  · obtain ⟨hstands, hloads⟩ := StandsBelow.afterCalls ⟨hnothing, rfl, hpc⟩ hreset
    exact ⟨hstands.pc_eq, hloads⟩
  · obtain ⟨hstands, -⟩ := StandsBelow.afterCalls ⟨hnothing, hpc, by decide⟩ hreset
    have hfails := hstands.failsWith
    rw [hhalt hstands] at hfails
    exact ⟨hstands.pc_eq, hfails⟩
  · intro n reached target limit hreached hpc hlimit haway
    have hstands : reached.StandsBelow 0x111 :=
      ⟨afterSteps_induction hnothing (fun _ _ hbefore hstep =>
        nothingBelow_of_step hbefore hstep) hreached, hpc, by decide⟩
    have hrun := hstands.runUntil_eq hreached hlimit haway
    rwa [hhalt hstands] at hrun

/-- A program that says at once that it is done (`1111`). -/
def doneRom : ByteArray := ⟨#[0x11, 0x11]⟩

/-- Its only step ends at the halt address. -/
theorem step_of_loadRom_doneRom {machine loaded : Machine γ}
    (hload : loadRom doneRom machine = .ok () loaded) (hpc : machine.state.pc = 0x200) :
    step loaded = .ok () (loaded.next (.jump 0x111)) := by
  have hhigh : loadedByte? doneRom 0x200 = some 0x11 := by decide
  have hlow : loadedByte? doneRom (0x200 + 1) = some 0x11 := by decide
  have hword : (loaded.state.wordAt 0x200).Encodes (.jump 0x111) :=
    ⟨(by decide : (0x111 : Word).toNat < 0x1000), toNat_wordAt_of_loadRom hload hhigh hlow⟩
  rw [← pc_loadRom hload] at hpc
  exact step_of_encodes (by rw [hpc]; decide) (by rw [hpc]; exact hword) rfl

/-- A machine whose memory has been filled. -/
def filled : Machine SteppingSource :=
  (new ⟨7, 1⟩).afterCalls [.load fullRom]

/-- The same machine with that program on top. -/
def aboutToHalt : Machine SteppingSource :=
  filled.afterCalls [.load doneRom]

/-- The same machine after the only step of the program. -/
def haltedEarly : Machine SteppingSource :=
  aboutToHalt.next (.jump 0x111)

theorem terminal_below_load_address_when_done :
    (new (⟨7, 1⟩ : SteppingSource)).afterCalls [.load fullRom, .load doneRom, .step] =
      haltedEarly ∧
      haltedEarly.state.pc = 0x111 ∧ haltedEarly.state.byteAt 0x1FF = 0 ∧
      haltedEarly.FailsWith (.program (.unrecognizedOpcode 0 0x111)) ∧
      haltedEarly.afterCalls [.step, .load fullRom, .run 0x300 5] =
        haltedEarly.afterCalls [.load fullRom] ∧
      (haltedEarly.afterCalls [.step, .load fullRom, .run 0x300 5]).FailsWith
        (.program (.unrecognizedOpcode 0 0x111)) ∧
      runUntil 0x300 5 aboutToHalt =
        .error (.program (.unrecognizedOpcode 0 0x111)) haltedEarly := by
  have hstep : step aboutToHalt = .ok () haltedEarly := by
    obtain ⟨loaded, hload⟩ :=
      exists_loadRom_eq_ok (by decide : doneRom.size ≤ romCapacity) filled
    have hloaded : aboutToHalt = loaded := by
      rw [aboutToHalt, afterCalls_cons, final_perform_load_of_ok hload]
      rfl
    rw [haltedEarly, hloaded]
    exact step_of_loadRom_doneRom hload (by decide +kernel)
  have hbefore : (new (⟨7, 1⟩ : SteppingSource)).afterCalls [.load fullRom, .load doneRom] =
      aboutToHalt :=
    afterCalls_append (new (⟨7, 1⟩ : SteppingSource)) [.load fullRom] [.load doneRom]
  have hmachine : (new (⟨7, 1⟩ : SteppingSource)).afterCalls [.load fullRom, .load doneRom,
      .step] = haltedEarly := by
    have hconcat :=
      afterCalls_concat (new (⟨7, 1⟩ : SteppingSource)) [.load fullRom, .load doneRom] .step
    rw [hbefore, final_perform_step, Transition.final_of_ok hstep] at hconcat
    exact hconcat
  have hpc : haltedEarly.state.pc = 0x111 := by
    obtain ⟨random, hnext⟩ := exists_state_next aboutToHalt (.jump 0x111)
    rw [haltedEarly, hnext, Instruction.pc_next]
  have hbelow : haltedEarly.state.pc.toNat < 0x200 := by
    rw [hpc]
    decide
  have hreached : aboutToHalt.afterSteps 1 = some haltedEarly :=
    afterSteps_succ_eq_some_iff.2 ⟨aboutToHalt, afterSteps_zero aboutToHalt, hstep⟩
  have haway : aboutToHalt.StaysAway 0x300 1 :=
    (staysAway_zero aboutToHalt 0x300).succ hreached (by rw [hpc]; decide)
  obtain ⟨hnothing, -, hobeys, hhalted, -⟩ := terminal_below_load_address hmachine
  obtain ⟨-, -, -, -, hpasses⟩ := terminal_below_load_address hbefore
  have hreset : Call.reset ∉ [Call.step, .load fullRom, .run 0x300 5] := by simp
  exact ⟨hmachine, hpc, hnothing 0x1FF (by decide), (hhalted hpc [] (by simp)).2,
    (hobeys hbelow _ hreset).2, (hhalted hpc _ hreset).2,
    hpasses 1 haltedEarly 0x300 5 hreached hpc (by decide) haway⟩

end Machine

end GoldenRom
