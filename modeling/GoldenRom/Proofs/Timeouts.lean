import GoldenRom.Proofs.Halting
import GoldenRom.Proofs.Verdicts
import Mathlib.Data.Fintype.Pigeonhole

/-!
# Timeouts of programs that do not store

Where a program goes depends on its words only: no instruction branches on a register, the index
or a random byte.  As long as nothing is stored, the words stay the same, so a machine that
comes to an address for the second time goes round in a circle.  There are fewer addresses than
steps that a test allows.  A program that has used up all of them without storing has therefore
been everywhere that it will ever go, and if the halt address was not among these places, it
never comes there, however long it runs.

## Main definitions

* `State.IsStore`: the word at the program counter is one of the two that store.
* `Machine.StoresNothing`: none of the first steps stores.
* `State.SamePlace`: two states are at the same address of the same program.

### Design notes

The argument needs no function from addresses to successors.  `SamePlace` relates two states,
and one step preserves the relation (`samePlace_of_step`).  A later step may fail, because a
block may lie elsewhere by then, so nothing is said about the steps that succeed, but only about
the places that the machine comes to.
-/

namespace GoldenRom

namespace State

/-- The word at the program counter is one of the two that store. -/
def IsStore (s : State) : Prop :=
  ∃ x, (s.wordAt s.pc.toNat).Encodes (.storeBcd x) ∨
    (s.wordAt s.pc.toNat).Encodes (.storeRegisters x)

/-- Two states are at the same address of the same program.  Their registers and their index may
differ. -/
structure SamePlace (s t : State) : Prop where
  pc_eq : s.pc = t.pc
  byteAt_eq : ∀ address, s.byteAt address = t.byteAt address

theorem SamePlace.refl (s : State) : s.SamePlace s :=
  ⟨rfl, fun _ => rfl⟩

theorem SamePlace.trans {s t u : State} (hst : s.SamePlace t) (htu : t.SamePlace u) :
    s.SamePlace u :=
  ⟨hst.pc_eq.trans htu.pc_eq, fun address =>
    (hst.byteAt_eq address).trans (htu.byteAt_eq address)⟩

/-- The same word is next at the same place. -/
theorem SamePlace.wordAt_pc_eq {s t : State} (h : s.SamePlace t) :
    s.wordAt s.pc.toNat = t.wordAt t.pc.toNat := by
  rw [wordAt, wordAt, h.pc_eq, h.byteAt_eq, h.byteAt_eq]

theorem SamePlace.isStore_iff {s t : State} (h : s.SamePlace t) : s.IsStore ↔ t.IsStore := by
  rw [IsStore, IsStore, h.wordAt_pc_eq]

/-- An instruction that is not to store leaves all of memory alone. -/
theorem byteAt_next_of_not_isStore {random : UInt8} {s : State} {instruction : Instruction}
    (hword : (s.wordAt s.pc.toNat).Encodes instruction) (hquiet : ¬s.IsStore) (address : Nat) :
    (instruction.next random s).byteAt address = s.byteAt address := by
  refine Instruction.byteAt_next_of_not_stored fun hstored => hquiet ?_
  cases instruction with
  | storeBcd x => exact ⟨x, Or.inl hword⟩
  | storeRegisters x => exact ⟨x, Or.inr hword⟩
  | _ => cases hstored.1

/-- The program counter after an instruction does not depend on the rest of the state. -/
theorem pc_next_congr {s t : State} (hpc : s.pc = t.pc) (first second : UInt8)
    (instruction : Instruction) :
    (instruction.next first s).pc = (instruction.next second t).pc := by
  rw [Instruction.pc_next, Instruction.pc_next, hpc]

end State

namespace Machine

variable {γ : Type} [WordSource γ]

/-- None of the first `n` steps executes an instruction that stores. -/
def StoresNothing (start : Machine γ) (n : Nat) : Prop :=
  ∀ k middle, k < n → start.afterSteps k = some middle → ¬middle.state.IsStore

/-! ## One step -/

/-- **Steps from the same place lead to the same place**, whatever the registers, the index and
the random bytes are. -/
theorem samePlace_of_step {before after other follower : Machine γ}
    (hsame : before.state.SamePlace other.state) (hquiet : ¬before.state.IsStore)
    (hstep : step before = .ok () after) (hother : step other = .ok () follower) :
    after.state.SamePlace follower.state := by
  obtain ⟨instruction, random, -, hword, -, hafter⟩ := exists_state_of_step hstep
  obtain ⟨instruction', random', -, hword', -, hfollower⟩ := exists_state_of_step hother
  have hnext : (before.state.wordAt before.state.pc.toNat).Encodes instruction' := by
    rw [hsame.wordAt_pc_eq]
    exact hword'
  obtain rfl : instruction = instruction' := Instruction.eq_of_encodes hword hnext
  rw [hafter, hfollower]
  refine ⟨State.pc_next_congr hsame.pc_eq random random' instruction, fun address => ?_⟩
  rw [State.byteAt_next_of_not_isStore hword hquiet,
    State.byteAt_next_of_not_isStore hword' fun hstore => hquiet (hsame.isStore_iff.2 hstore)]
  exact hsame.byteAt_eq address

theorem byteAt_of_step_of_not_isStore {before after : Machine γ}
    (hstep : step before = .ok () after) (hquiet : ¬before.state.IsStore) (address : Nat) :
    after.state.byteAt address = before.state.byteAt address := by
  obtain ⟨instruction, random, -, hword, -, hafter⟩ := exists_state_of_step hstep
  rw [hafter]
  exact State.byteAt_next_of_not_isStore hword hquiet address

/-! ## Many steps -/

/-- Before a number of steps there were fewer. -/
theorem exists_afterSteps_of_le {start final : Machine γ} {k n : Nat}
    (hfinal : start.afterSteps n = some final) (hle : k ≤ n) :
    ∃ middle, start.afterSteps k = some middle := by
  induction n generalizing final with
  | zero => exact ⟨start, by rw [Nat.le_zero.1 hle, afterSteps_zero]⟩
  | succ n ih =>
      rcases Nat.eq_or_lt_of_le hle with rfl | hlt
      · exact ⟨final, hfinal⟩
      · obtain ⟨last, hlast, -⟩ := afterSteps_succ_eq_some_iff.1 hfinal
        exact ih hlast (Nat.le_of_lt_succ hlt)

/-- A program that stores nothing stays the program that it was. -/
theorem StoresNothing.byteAt_eq {start middle : Machine γ} {k n : Nat}
    (hquiet : start.StoresNothing n) (hle : k ≤ n)
    (hmiddle : start.afterSteps k = some middle) (address : Nat) :
    middle.state.byteAt address = start.state.byteAt address := by
  induction k generalizing middle with
  | zero =>
      obtain rfl := Option.some.inj hmiddle
      rfl
  | succ k ih =>
      obtain ⟨last, hlast, hstep⟩ := afterSteps_succ_eq_some_iff.1 hmiddle
      rw [byteAt_of_step_of_not_isStore hstep (hquiet k last hle hlast),
        ih (Nat.le_of_lt hle) hlast]

/-- A machine whose next step succeeds is at an address of memory. -/
theorem pc_lt_of_afterSteps_succ {start middle after : Machine γ} {k : Nat}
    (hmiddle : start.afterSteps k = some middle)
    (hafter : start.afterSteps (k + 1) = some after) : middle.state.pc.toNat < memorySize := by
  obtain ⟨_, _, hfetch, -⟩ := exists_state_of_step (step_of_afterSteps hmiddle hafter)
  omega

/-- More steps than there are addresses lead to some address twice. -/
theorem exists_pc_eq {start final : Machine γ} {n : Nat} (hn : memorySize < n)
    (hfinal : start.afterSteps n = some final) :
    ∃ i j earlier later, i < j ∧ j < n ∧ start.afterSteps i = some earlier ∧
      start.afterSteps j = some later ∧
      earlier.state.pc = later.state.pc := by
  have hmachine : ∀ k : Fin (memorySize + 1), ∃ middle, start.afterSteps k = some middle :=
    fun k => exists_afterSteps_of_le hfinal (by omega)
  choose middle hmiddle using hmachine
  have hpc : ∀ k, (middle k).state.pc.toNat < memorySize := by
    intro k
    obtain ⟨after, hafter⟩ := exists_afterSteps_of_le hfinal (show k.val + 1 ≤ n by omega)
    exact pc_lt_of_afterSteps_succ (hmiddle k) hafter
  obtain ⟨i, j, hne, heq⟩ := Fintype.exists_ne_map_eq_of_card_lt
    (fun k => (⟨(middle k).state.pc.toNat, hpc k⟩ : Fin memorySize)) (by simp)
  have hsame : (middle i).state.pc = (middle j).state.pc := UInt16.toNat_inj.1 (Fin.mk.inj heq)
  rcases Nat.lt_or_gt_of_ne (Fin.val_ne_of_ne hne) with hlt | hgt
  · exact ⟨i, j, _, _, hlt, by omega, hmiddle i, hmiddle j, hsame⟩
  · exact ⟨j, i, _, _, hgt, by omega, hmiddle j, hmiddle i, hsame.symm⟩

/-- **A program that has gone round in a circle comes to no new place.**  If it stores nothing
for more steps than there are addresses, wherever it is after any number of steps it has been
before that. -/
theorem StoresNothing.exists_samePlace {start final : Machine γ} {n : Nat}
    (hquiet : start.StoresNothing n) (hn : memorySize < n)
    (hfinal : start.afterSteps n = some final) {k : Nat} {later : Machine γ}
    (hlater : start.afterSteps k = some later) :
    ∃ i earlier, i < n ∧ start.afterSteps i = some earlier ∧
      later.state.SamePlace earlier.state := by
  obtain ⟨i, j, first, second, hij, hjn, hfirst, hsecond, hpc⟩ := exists_pc_eq hn hfinal
  have hcircle : second.state.SamePlace first.state :=
    ⟨hpc.symm, fun address => (hquiet.byteAt_eq hjn.le hsecond address).trans
      (hquiet.byteAt_eq (by omega) hfirst address).symm⟩
  -- The places of the first `j` steps are enough: the next one is that after step `i`.
  suffices hplace : ∃ l earlier, l < j ∧ start.afterSteps l = some earlier ∧
      later.state.SamePlace earlier.state by
    obtain ⟨l, earlier, hl, hearlier, hsame⟩ := hplace
    exact ⟨l, earlier, by omega, hearlier, hsame⟩
  induction k generalizing later with
  | zero => exact ⟨0, start, by omega, rfl, Option.some.inj hlater ▸ .refl _⟩
  | succ k ih =>
      obtain ⟨last, hlast, hstep⟩ := afterSteps_succ_eq_some_iff.1 hlater
      obtain ⟨l, earlier, hl, hearlier, hsame⟩ := ih hlast
      obtain ⟨next, hnext⟩ := exists_afterSteps_of_le hfinal (show l + 1 ≤ n by omega)
      have hplace : later.state.SamePlace next.state :=
        samePlace_of_step hsame (fun hstore =>
          hquiet l earlier (by omega) hearlier (hsame.isStore_iff.1 hstore)) hstep
          (step_of_afterSteps hearlier hnext)
      rcases Nat.lt_or_ge (l + 1) j with hlt | hge
      · exact ⟨l + 1, next, hlt, hnext, hplace⟩
      · obtain rfl : l + 1 = j := by omega
        obtain rfl : second = next := Option.some.inj (hsecond.symm.trans hnext)
        exact ⟨i, first, hij, hfirst, hplace.trans hcircle⟩

/-- It also stores nothing later on. -/
theorem StoresNothing.of_circle {start final : Machine γ} {n : Nat}
    (hquiet : start.StoresNothing n) (hn : memorySize < n)
    (hfinal : start.afterSteps n = some final) (k : Nat) : start.StoresNothing k := by
  intro i later _ hlater hstore
  obtain ⟨l, earlier, hl, hearlier, hsame⟩ := hquiet.exists_samePlace hn hfinal hlater
  exact hquiet l earlier hl hearlier (hsame.isStore_iff.1 hstore)

/-- And it stays away from all addresses that it has not come to. -/
theorem StaysAway.of_circle {start final : Machine γ} {target : Word} {n : Nat}
    (haway : start.StaysAway target n) (hstart : start.state.pc ≠ target)
    (hquiet : start.StoresNothing n) (hn : memorySize < n)
    (hfinal : start.afterSteps n = some final) (k : Nat) : start.StaysAway target k := by
  intro i later _ _ hlater
  obtain ⟨l, earlier, hl, hearlier, hsame⟩ := hquiet.exists_samePlace hn hfinal hlater
  rw [hsame.pc_eq]
  rcases Nat.eq_zero_or_pos l with rfl | hpos
  · obtain rfl := Option.some.inj hearlier
    exact hstart
  · exact haway l earlier hpos hl.le hearlier

/-- A run that stays away from its target does not reach it. -/
theorem StaysAway.halted_eq_false {start final : Machine γ} {target : Word} {limit : Nat}
    {ending : RunEnd} (haway : ∀ k, start.StaysAway target k)
    (hrun : runUntil target limit start = .ok ending final) : ending.halted = false := by
  rw [runUntil_eq_iff] at hrun
  cases hrun with
  | @halted n _ _ hfinal _ hpc =>
      exact absurd hpc (haway (n + 1) (n + 1) final (Nat.succ_pos n) (Nat.le_refl _) hfinal)
  | exhausted _ _ => rfl

end Machine

namespace OutputTest

/-- A ROM never halts over the words of a seed: within no limit does a run of it reach the halt
address. -/
def NeverHalts (rom : ByteArray) (seed : UInt64) : Prop :=
  ∀ limit ending final, Machine.runRom rom limit (Machine.seeded seed) = .ok ending final →
    ending.halted = false

theorem neverHalts_of_circle {rom : ByteArray} {seed : UInt64} {loaded final : Machine ChaCha}
    (hload : Machine.loadRom rom (Machine.seeded seed) = .ok () loaded)
    (hfinal : loaded.afterSteps 10000 = some final) (haway : loaded.StaysAway 0x111 10000)
    (hquiet : loaded.StoresNothing 10000) : NeverHalts rom seed := by
  have hstart : loaded.state.pc ≠ 0x111 := by
    rw [Machine.pc_loadRom hload]
    show State.initial.pc ≠ 0x111
    decide
  intro limit ending stopped hrun
  rw [Machine.runRom_of_ok hload] at hrun
  exact Machine.StaysAway.halted_eq_false (haway.of_circle hstart hquiet (by decide) hfinal)
    hrun

/-- **A timeout of a program that does not store is final.**  If the steps that a test allows
all succeed, none of them ends at the halt address and none of them stores, which is to say that
the test has timed out without a store, then no limit lets the program halt, and it never comes
to store anything. -/
theorem timeout_without_store_is_final {rom : ByteArray} (hfits : rom.size ≤ 0xE00)
    (seed : UInt64) :
    ∃ loaded, Machine.loadRom rom (Machine.seeded seed) = .ok () loaded ∧
      (∀ final, loaded.afterSteps 10000 = some final → loaded.StaysAway 0x111 10000 →
        loaded.StoresNothing 10000 →
        NeverHalts rom seed ∧ ∀ n, loaded.StoresNothing n) ∧
      ∀ test : OutputTest, test.rom = rom → test.seed = seed → test.execute.2 = .timedOut →
        loaded.StoresNothing 10000 → NeverHalts rom seed ∧ ∀ n, loaded.StoresNothing n := by
  obtain ⟨loaded, hload⟩ := Machine.exists_loadRom_eq_ok hfits (Machine.seeded seed)
  have hfinally : ∀ final, loaded.afterSteps 10000 = some final → loaded.StaysAway 0x111 10000 →
      loaded.StoresNothing 10000 → NeverHalts rom seed ∧ ∀ n, loaded.StoresNothing n :=
    fun final hfinal haway hquiet =>
      ⟨neverHalts_of_circle hload hfinal haway hquiet, hquiet.of_circle (by decide) hfinal⟩
  refine ⟨loaded, hload, hfinally, ?_⟩
  rintro test rfl rfl htimedOut hquiet
  rw [verdict_execute] at htimedOut
  obtain ⟨loaded', final, hload', hfinal, haway⟩ := exists_afterSteps_of_timedOut htimedOut
  rw [Loads, hload] at hload'
  obtain ⟨-, rfl⟩ := EStateM.Result.ok.inj hload'
  exact hfinally final hfinal haway hquiet

/-- A program that draws random bytes for ever (`C0FF`, `1200`). -/
def drawingRom : ByteArray := ⟨#[0xC0, 0xFF, 0x12, 0x00]⟩

/-- A machine is at one of the two instructions of that program. -/
structure KeepsDrawing (machine : Machine ChaCha) : Prop where
  first : (machine.state.wordAt 0x200).Encodes (.random 0 0xFF)
  second : (machine.state.wordAt 0x202).Encodes (.jump 0x200)
  pc : machine.state.pc = 0x200 ∨ machine.state.pc = 0x202

theorem keepsDrawing_of_loadRom {loaded : Machine ChaCha} {seed : UInt64}
    (hload : Machine.loadRom drawingRom (Machine.seeded seed) = .ok () loaded) :
    KeepsDrawing loaded := by
  have hrandom : loadedByte? drawingRom 0x200 = some 0xC0 ∧
      loadedByte? drawingRom (0x200 + 1) = some 0xFF := by decide
  have hjump : loadedByte? drawingRom 0x202 = some 0x12 ∧
      loadedByte? drawingRom (0x202 + 1) = some 0x00 := by decide
  exact ⟨⟨trivial, Machine.toNat_wordAt_of_loadRom hload hrandom.1 hrandom.2⟩,
    ⟨(by decide : (0x200 : Word).toNat < 0x1000),
      Machine.toNat_wordAt_of_loadRom hload hjump.1 hjump.2⟩,
    Or.inl (Machine.pc_loadRom hload)⟩

theorem KeepsDrawing.not_isStore {machine : Machine ChaCha} (hmachine : KeepsDrawing machine) :
    ¬machine.state.IsStore := by
  rintro ⟨x, hstore⟩
  rcases hmachine.pc with hpc | hpc <;> rw [hpc] at hstore
  · rcases hstore with hword | hword <;> cases Instruction.eq_of_encodes hmachine.first hword
  · rcases hstore with hword | hword <;> cases Instruction.eq_of_encodes hmachine.second hword

theorem KeepsDrawing.step {machine : Machine ChaCha} (hmachine : KeepsDrawing machine) :
    ∃ after, Machine.step machine = .ok () after ∧ KeepsDrawing after := by
  suffices hstep : ∃ after, Machine.step machine = .ok () after ∧
      (after.state.pc = 0x200 ∨ after.state.pc = 0x202) by
    obtain ⟨after, hstep, hpc⟩ := hstep
    have hword : ∀ address, after.state.wordAt address = machine.state.wordAt address := by
      intro address
      rw [State.wordAt, State.wordAt,
        Machine.byteAt_of_step_of_not_isStore hstep hmachine.not_isStore,
        Machine.byteAt_of_step_of_not_isStore hstep hmachine.not_isStore]
    exact ⟨after, hstep, by rw [hword]; exact hmachine.first,
      by rw [hword]; exact hmachine.second, hpc⟩
  rcases hmachine.pc with hpc | hpc
  · obtain ⟨random, hnext⟩ := Machine.exists_state_next machine (.random 0 0xFF)
    refine ⟨_, Machine.step_of_encodes (by rw [hpc]; decide) (by rw [hpc]; exact hmachine.first)
      rfl, Or.inr ?_⟩
    rw [hnext, Instruction.pc_next, hpc]
    rfl
  · obtain ⟨random, hnext⟩ := Machine.exists_state_next machine (.jump 0x200)
    refine ⟨_, Machine.step_of_encodes (by rw [hpc]; decide)
      (by rw [hpc]; exact hmachine.second) rfl, Or.inl ?_⟩
    rw [hnext, Instruction.pc_next]

theorem KeepsDrawing.exists_afterSteps {start : Machine ChaCha} (hstart : KeepsDrawing start)
    (n : Nat) :
    ∃ final, start.afterSteps n = some final ∧ KeepsDrawing final := by
  induction n with
  | zero => exact ⟨start, rfl, hstart⟩
  | succ n ih =>
      obtain ⟨last, hlast, hkeeps⟩ := ih
      obtain ⟨final, hstep, hfinal⟩ := hkeeps.step
      exact ⟨final, Machine.afterSteps_succ_eq_some_iff.2 ⟨last, hlast, hstep⟩, hfinal⟩

theorem KeepsDrawing.of_afterSteps {start middle : Machine ChaCha} {n : Nat}
    (hstart : KeepsDrawing start) (hmiddle : start.afterSteps n = some middle) :
    KeepsDrawing middle := by
  obtain ⟨middle', hmiddle', hkeeps⟩ := hstart.exists_afterSteps n
  obtain rfl : middle = middle' := Option.some.inj (hmiddle.symm.trans hmiddle')
  exact hkeeps

theorem KeepsDrawing.staysAway {start : Machine ChaCha} (hstart : KeepsDrawing start)
    (n : Nat) : start.StaysAway 0x111 n := by
  intro i middle _ _ hmiddle hhalt
  rcases (hstart.of_afterSteps hmiddle).pc with hpc | hpc
  all_goals
    rw [hpc] at hhalt
    exact absurd hhalt (by decide)

theorem timeout_without_store_is_final_when_drawing :
    drawingRom.size ≤ 0xE00 ∧ (new drawingRom "" 0xC8).execute.2 = .timedOut ∧
      NeverHalts drawingRom 0xC8 := by
  have hfits : drawingRom.size ≤ 0xE00 := by decide
  obtain ⟨loaded, hload, -, htimedOut⟩ := timeout_without_store_is_final hfits 0xC8
  have hkeeps := keepsDrawing_of_loadRom hload
  have hquiet : loaded.StoresNothing 10000 := fun n middle _ hmiddle =>
    (hkeeps.of_afterSteps hmiddle).not_isStore
  obtain ⟨final, hfinal, -⟩ := hkeeps.exists_afterSteps 10000
  have hfinds : Finds (.new drawingRom "" 0xC8) _ :=
    .timedOut hload hfinal (hkeeps.staysAway 10000)
  have hverdict : (new drawingRom "" 0xC8).execute.2 = .timedOut := by
    rw [verdict_execute, judge_eq_of_finds hfinds]
  exact ⟨hfits, hverdict, (htimedOut _ rfl rfl hverdict hquiet).1⟩

end OutputTest

end GoldenRom
