import GoldenRom.Proofs.Protection

/-!
# Registers kept in memory

A program that needs its registers for something else stores them in memory and loads them again
later.  What it loads is what it has stored, however long the run in between is and whatever it
does, as long as none of its stores meets the place.  The proof has three parts: a store leaves
the registers at their addresses, a step that stores nothing at an address leaves the byte
there, and a load takes the bytes from the addresses at which the store has left them.

## Main definitions

* `Machine.LeavesAlone`: a run stores nothing between two addresses.

## Main results

* `Machine.byteAt_of_afterSteps`: then the bytes between them stay.
* `Machine.reload_restores`: what is loaded is what was stored.
-/

namespace GoldenRom

namespace Instruction

open State

/-- After V0 to VX have been stored, each of them stands at its address. -/
theorem byteAt_next_storeRegisters {random : UInt8} {s : State} {x : Register}
    (hinside : s.index.toNat + (x.val + 1) ≤ memorySize) {y : Register} (hy : y ≤ x) :
    ((storeRegisters x).next random s).byteAt (s.index.toNat + y.val) = s.register y := by
  have hyx : y.val ≤ x.val := hy
  rw [byteAt_next, result, byteAt_storeBytes s _ _ (by omega), dif_pos]
  · simp only [List.getElem_map, registersThrough, List.getElem_range, Nat.add_sub_cancel_left]
    refine congrArg s.register (Fin.ext ?_)
    exact Nat.mod_eq_of_lt y.isLt
  · rw [List.length_map, length_registersThrough]
    omega

/-- After V0 to VX have been loaded, each of them holds the byte at its address, and the others
are as they were. -/
theorem register_next_loadRegisters (random : UInt8) (s : State) (x y : Register) :
    ((loadRegisters x).next random s).register y =
      if y ≤ x then s.byteAt (s.index.toNat + y.val) else s.register y := by
  have hthrough : y.val < x.val + 1 ↔ y ≤ x := Nat.lt_succ_iff
  rw [register_next, result, register_loadBytes]
  simp only [hthrough]

end Instruction

namespace Machine

variable {γ : Type} [WordSource γ] {start before after spilled reached final : Machine γ}
  {n : Nat} {x z : Register}

/-- None of the first `n` steps stores to an address from the first to the last. -/
def LeavesAlone (start : Machine γ) (n first last : Nat) : Prop :=
  ∀ i middle, i < n → start.afterSteps i = some middle →
    ∀ address, first ≤ address → address ≤ last → ¬middle.state.StoresAt address

/-- A byte stays as long as nothing is stored at its address. -/
theorem byteAt_of_afterSteps {address : Nat} (hfinal : start.afterSteps n = some final)
    (haway : ∀ i middle, i < n → start.afterSteps i = some middle →
      ¬middle.state.StoresAt address) :
    final.state.byteAt address = start.state.byteAt address := by
  induction n generalizing final with
  | zero =>
      obtain rfl := Option.some.inj hfinal
      rfl
  | succ n ih =>
      obtain ⟨last, hlast, hstep⟩ := afterSteps_succ_eq_some_iff.1 hfinal
      have hkept : final.state.byteAt address = last.state.byteAt address :=
        Decidable.byContradiction fun hchanged =>
          haway n last (Nat.lt_succ_self n) hlast (storesAt_of_step hstep hchanged)
      rw [hkept, ih hlast fun i middle hi => haway i middle (Nat.lt_succ_of_lt hi)]

/-- A store of V0 to VX that succeeds has found room for them, and leaves each at its
address. -/
theorem stored_of_step
    (hword : (before.state.wordAt before.state.pc.toNat).Encodes (.storeRegisters x))
    (hspill : step before = .ok () spilled) :
    0x200 ≤ before.state.index.toNat ∧ before.state.index.toNat + (x.val + 1) ≤ 0xEA0 ∧
      ∀ y ≤ x, spilled.state.byteAt (before.state.index.toNat + y.val) =
        before.state.register y := by
  obtain ⟨instruction, random, -, hencodes, hspan, hstate⟩ := exists_state_of_step hspill
  obtain rfl := Instruction.eq_of_encodes hencodes hword
  obtain ⟨hfirst, hlast⟩ := (spanFault?_eq_none_iff (Nat.succ_pos x.val)).1 hspan
  refine ⟨hfirst, hlast, fun y hy => ?_⟩
  rw [hstate]
  exact Instruction.byteAt_next_storeRegisters (Nat.le_trans hlast (by decide)) hy

/-- **What is loaded is what was stored.**  Let a step store V0 to VX, let any number of steps
follow, none of which stores to an address of theirs, and let the index then be what it was at
the store.  A load of V0 to VZ succeeds if no more registers are asked for than were stored.  It
gives back what these registers held at the store, and leaves the others as they have become. -/
theorem reload_restores
    (hword : (before.state.wordAt before.state.pc.toNat).Encodes (.storeRegisters x))
    (hspill : step before = .ok () spilled) (hreached : spilled.afterSteps n = some reached)
    (haway : spilled.LeavesAlone n before.state.index.toNat (before.state.index.toNat + x.val))
    (hindex : reached.state.index = before.state.index) (hpc : reached.state.pc.toNat ≤ 0xFFE)
    (hreload : (reached.state.wordAt reached.state.pc.toNat).Encodes (.loadRegisters z))
    (hz : z ≤ x) :
    ∃ after, step reached = .ok () after ∧
      (∀ y ≤ z, after.state.register y = before.state.register y) ∧
      ∀ y, z < y → after.state.register y = reached.state.register y := by
  obtain ⟨hfirst, hlast, hstored⟩ := stored_of_step hword hspill
  have hzx : z.val ≤ x.val := hz
  have hspan : spanFault? reached.state.index.toNat (Instruction.loadRegisters z).span =
      none := by
    rw [hindex]
    refine (spanFault?_eq_none_iff (Nat.succ_pos z.val)).2 ⟨hfirst, ?_⟩
    show before.state.index.toNat + (z.val + 1) ≤ 0xEA0
    omega
  have hfetch : reached.state.pc.toNat + 2 ≤ memorySize := by
    rw [memorySize]
    omega
  obtain ⟨random, hstate⟩ := exists_state_next reached (.loadRegisters z)
  refine ⟨_, step_of_encodes hfetch hreload hspan, fun y hy => ?_, fun y hy => ?_⟩
  · have hyx : y ≤ x := Nat.le_trans hy hz
    -- The byte that the store has put there is still there when the load comes for it.
    have hkept : reached.state.byteAt (before.state.index.toNat + y.val) =
        spilled.state.byteAt (before.state.index.toNat + y.val) :=
      byteAt_of_afterSteps hreached fun i middle hi hmiddle =>
        haway i middle hi hmiddle _ (Nat.le_add_right _ _) (Nat.add_le_add_left hyx _)
    rw [hstate, Instruction.register_next_loadRegisters, if_pos hy, hindex, hkept,
      hstored y hyx]
  · rw [hstate, Instruction.register_next_loadRegisters]
    exact if_neg (Nat.not_le.2 hy)

/-- A word that is none of the two that store asks to store nothing anywhere. -/
theorem not_storesAt_of_encodes {s : State} {instruction : Instruction}
    (hword : (s.wordAt s.pc.toNat).Encodes instruction) (hstores : instruction.stores = false)
    (address : Nat) : ¬s.StoresAt address := by
  rintro ⟨x, ⟨hother, -⟩ | ⟨hother, -⟩⟩
  · obtain rfl := Instruction.eq_of_encodes hword hother
    cases hstores
  · obtain rfl := Instruction.eq_of_encodes hword hother
    cases hstores

/-- A program that stores V0 and V1 (`F155`), adds V1 to V0 (`8014`) and loads V0 again
(`F065`), on a machine where they hold 7 and 9. -/
def spiller : Machine SteppingSource where
  state :=
    { (State.initial
        |>.setByte 0x200 0xF1 |>.setByte 0x201 0x55 |>.setByte 0x202 0x80 |>.setByte 0x203 0x14
        |>.setByte 0x204 0xF0 |>.setByte 0x205 0x65
        |>.setRegister (Register.ofNat 0) 7 |>.setRegister (Register.ofNat 1) 9) with
      index := 0x300 }
  source := ⟨7, 1⟩

/-- The same machine when it has stored them. -/
def spillerStored : Machine SteppingSource :=
  spiller.next (.storeRegisters (Register.ofNat 1))

/-- The same machine when it has added them. -/
def spillerAdded : Machine SteppingSource :=
  spillerStored.next (.add (Register.ofNat 0) (Register.ofNat 1))

theorem state_spillerStored :
    spillerStored.state =
      (Instruction.storeRegisters (Register.ofNat 1)).next 0 spiller.state := rfl

theorem state_spillerAdded :
    spillerAdded.state =
      (Instruction.add (Register.ofNat 0) (Register.ofNat 1)).next 0 spillerStored.state := rfl

theorem encodes_spiller :
    (spiller.state.wordAt spiller.state.pc.toNat).Encodes
      (.storeRegisters (Register.ofNat 1)) :=
  ⟨trivial, by decide +kernel⟩

theorem step_spiller : step spiller = .ok () spillerStored := by
  have hindex : spiller.state.index.toNat = 0x300 := rfl
  exact step_of_encodes (by decide +kernel) encodes_spiller
    ((spanFault?_eq_none_iff (by decide)).2 ⟨by rw [hindex]; decide, by rw [hindex]; decide⟩)

/-- The program lies below what it stores, so that it can still be read afterwards. -/
theorem byteAt_spillerStored {address : Nat} (haddress : address < 0x300) :
    spillerStored.state.byteAt address = spiller.state.byteAt address := by
  have hindex : spiller.state.index.toNat = 0x300 := rfl
  rw [state_spillerStored]
  refine Instruction.byteAt_next_of_not_stored fun hstored => ?_
  rw [hindex] at hstored
  omega

theorem pc_spillerStored : spillerStored.state.pc = 0x202 := by
  rw [state_spillerStored, Instruction.pc_next]
  rfl

theorem encodes_spillerStored :
    (spillerStored.state.wordAt spillerStored.state.pc.toNat).Encodes
      (.add (Register.ofNat 0) (Register.ofNat 1)) := by
  rw [pc_spillerStored, State.wordAt, byteAt_spillerStored (by decide),
    byteAt_spillerStored (by decide)]
  exact ⟨trivial, by decide +kernel⟩

theorem step_spillerStored : step spillerStored = .ok () spillerAdded :=
  step_of_encodes (by rw [pc_spillerStored]; decide) encodes_spillerStored rfl

theorem pc_spillerAdded : spillerAdded.state.pc = 0x204 := by
  rw [state_spillerAdded, Instruction.pc_next, pc_spillerStored]
  rfl

theorem index_spillerAdded : spillerAdded.state.index = spiller.state.index := by
  rw [state_spillerAdded, Instruction.index_next, Instruction.result, State.setFlag,
    State.index_setRegister, State.index_setRegister, state_spillerStored,
    Instruction.index_next]
  rfl

theorem register_spillerAdded : spillerAdded.state.register (Register.ofNat 0) = 16 := by
  have hregister : ∀ y, spillerStored.state.register y = spiller.state.register y := by
    intro y
    rw [state_spillerStored, Instruction.register_next, Instruction.result,
      State.register_storeBytes]
  rw [state_spillerAdded, Instruction.register_next, Instruction.result, hregister, hregister,
    State.setFlag, State.register_setRegister, State.register_setRegister,
    if_neg (by decide), if_pos rfl]
  decide +kernel

theorem encodes_spillerAdded :
    (spillerAdded.state.wordAt spillerAdded.state.pc.toNat).Encodes
      (.loadRegisters (Register.ofNat 0)) := by
  have hbyte : ∀ address,
      spillerAdded.state.byteAt address = spillerStored.state.byteAt address := by
    rw [state_spillerAdded]
    generalize spillerStored.state = before
    exact fun address => rfl
  rw [pc_spillerAdded, State.wordAt, hbyte, hbyte, byteAt_spillerStored (by decide),
    byteAt_spillerStored (by decide)]
  exact ⟨trivial, by decide +kernel⟩

/-- The sum has taken the place of the 7 in the meantime. -/
theorem reload_restores_below_sum :
    ∃ spilled reached after, step spiller = .ok () spilled ∧ step spilled = .ok () reached ∧
      reached.state.register (Register.ofNat 0) = 16 ∧ step reached = .ok () after ∧
      after.state.register (Register.ofNat 0) = 7 := by
  have haway : spillerStored.LeavesAlone 1 0x300 0x301 := by
    intro i middle hi hmiddle address _ _
    obtain rfl : i = 0 := Nat.lt_one_iff.1 hi
    obtain rfl := Option.some.inj hmiddle
    exact not_storesAt_of_encodes encodes_spillerStored rfl address
  obtain ⟨after, hafter, hrestored, -⟩ :=
    reload_restores (z := Register.ofNat 0) encodes_spiller step_spiller
      (afterSteps_succ_eq_some_iff.2 ⟨_, afterSteps_zero _, step_spillerStored⟩) haway
      index_spillerAdded (by rw [pc_spillerAdded]; decide) encodes_spillerAdded (by decide)
  exact ⟨spillerStored, spillerAdded, after, step_spiller, step_spillerStored,
    register_spillerAdded, hafter, hrestored _ (Nat.le_refl _)⟩

end Machine

end GoldenRom
