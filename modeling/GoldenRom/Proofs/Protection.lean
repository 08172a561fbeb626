import GoldenRom.Proofs.Calls

/-!
# Protection of reserved memory

Whatever is called on a machine, the index stays a twelve-bit address, the program counter does
not pass the end of memory, and the stack stays empty.  The memory below the load address and
from the call stack on is beyond the reach of instructions: only a load, which asks no guard,
puts anything there.

## Main definitions

* `State.InRange`: the invariant of the index, the program counter and the stack.
* `State.StoresAt`: whether the word at the program counter asks to store a byte at an address.
* `lastLoaded`: what the calls made so far say about a byte that no instruction can store to.
-/

namespace GoldenRom

namespace State

/-- What holds of every state that a machine can come to. -/
structure InRange (s : State) : Prop where
  /-- The index is an address. -/
  index_le : s.index.toNat ≤ 0xFFF
  /-- The program counter is an address, or the end of memory. -/
  pc_le : s.pc.toNat ≤ 0x1000
  /-- The stack is as it was after the reset. -/
  stack_eq : s.stack = Vector.replicate stackSize 0
  stackIndex_eq : s.stackIndex = -1

theorem inRange_initial : initial.InRange where
  index_le := Nat.zero_le 0xFFF
  pc_le := by decide
  stack_eq := rfl
  stackIndex_eq := rfl

/-- A load changes memory only. -/
theorem InRange.loadRom {s t : State} {rom : ByteArray} (hs : s.InRange)
    (hload : s.loadRom rom = .ok t) : t.InRange := by
  rw [State.loadRom] at hload
  split at hload
  · obtain rfl := Except.ok.inj hload
    exact ⟨hs.index_le, hs.pc_le, hs.stack_eq, hs.stackIndex_eq⟩
  · cases hload

/-- An instruction that lies in memory leads back into memory, or to its end if it was the last
one. -/
theorem InRange.next {random : UInt8} {s : State} {instruction : Instruction} (hs : s.InRange)
    (hfetch : s.pc.toNat + 2 ≤ memorySize) (hfits : instruction.TargetFits) :
    (instruction.next random s).InRange where
  index_le := Nat.le_of_lt_succ (Instruction.index_next_lt hfits
    (Nat.lt_succ_of_le hs.index_le))
  pc_le := by
    rw [Instruction.pc_next]
    cases instruction with
    | jump target => exact Nat.le_of_lt hfits
    | _ =>
        show (s.pc + 2).toNat ≤ 0x1000
        rw [UInt16.toNat_add]
        exact Nat.le_trans (Nat.mod_le _ _) hfetch
  stack_eq := (Instruction.stack_next random s instruction).1.trans hs.stack_eq
  stackIndex_eq := (Instruction.stack_next random s instruction).2.trans hs.stackIndex_eq

/-- Whether the word at the program counter is one of the two that store, with an address in the
span that it stores to. -/
def StoresAt (s : State) (address : Nat) : Prop :=
  ∃ x, ((s.wordAt s.pc.toNat).Encodes (.storeBcd x) ∧
        s.index.toNat ≤ address ∧ address < s.index.toNat + 3) ∨
      ((s.wordAt s.pc.toNat).Encodes (.storeRegisters x) ∧
        s.index.toNat ≤ address ∧ address < s.index.toNat + (x.val + 1))

end State

/-- The byte that a load puts at an address, if the ROM fits into memory and reaches so far. -/
def loadedByte? (rom : ByteArray) (address : Nat) : Option UInt8 :=
  if h : rom.size ≤ 0xE00 ∧ 0x200 ≤ address ∧ address - 0x200 < rom.size then
    some rom[address - 0x200]
  else none

/-- A ROM that does not fit puts no byte anywhere. -/
theorem loadedByte?_of_large {rom : ByteArray} (hlarge : romCapacity < rom.size)
    (address : Nat) : loadedByte? rom address = none :=
  dif_neg fun h => Nat.not_lt.2 h.1 hlarge

/-- A load that fits changes the bytes that it puts somewhere, and no others. -/
theorem State.byteAt_eq_getD_of_loadRom {s t : State} {rom : ByteArray}
    (hload : s.loadRom rom = .ok t) (address : Nat) :
    t.byteAt address = (loadedByte? rom address).getD (s.byteAt address) := by
  have hfits : rom.size ≤ 0xE00 := size_le_of_loadRom hload
  rw [byteAt_of_loadRom hload address, loadedByte?]
  by_cases hinside : 0x200 ≤ address ∧ address - 0x200 < rom.size
  · rw [dif_pos hinside, dif_pos ⟨hfits, hinside⟩, Option.getD_some]
  · rw [dif_neg hinside, dif_neg fun h => hinside h.2, Option.getD_none]

/-- What the calls made so far, the latest first, say about a byte that no instruction can store
to: the byte of the latest load since the last reset that put one there, or zero. -/
def lastLoaded (address : Nat) : List Call → UInt8
  | [] => 0
  | .reset :: _ => 0
  | .load rom :: earlier => (loadedByte? rom address).getD (lastLoaded address earlier)
  | .step :: earlier => lastLoaded address earlier
  | .run _ _ :: earlier => lastLoaded address earlier

namespace Machine

variable {γ : Type} [WordSource γ]

/-! ## What a step and a run leave alone -/

theorem byteAt_of_step {before after : Machine γ} {address : Nat}
    (hstep : step before = .ok () after) (hreserved : ¬(0x200 ≤ address ∧ address < 0xEA0)) :
    after.state.byteAt address = before.state.byteAt address := by
  obtain ⟨instruction, random, -, -, hspan, hstate⟩ := exists_state_of_step hstep
  rw [hstate]
  exact Instruction.byteAt_next_of_reserved hspan hreserved

/-- A byte that a step changes lies in the span of the instruction that was executed. -/
theorem storesAt_of_step {before after : Machine γ} {address : Nat}
    (hstep : step before = .ok () after)
    (hchanged : after.state.byteAt address ≠ before.state.byteAt address) :
    before.state.StoresAt address := by
  obtain ⟨instruction, random, -, hword, -, hstate⟩ := exists_state_of_step hstep
  rw [hstate] at hchanged
  have hstored : instruction.stores ∧ before.state.index.toNat ≤ address ∧
      address < before.state.index.toNat + instruction.span :=
    Decidable.byContradiction fun hoff => hchanged (Instruction.byteAt_next_of_not_stored hoff)
  obtain ⟨hstores, hrange⟩ := hstored
  cases instruction with
  | storeBcd x => exact ⟨x, Or.inl ⟨hword, hrange⟩⟩
  | storeRegisters x => exact ⟨x, Or.inr ⟨hword, hrange⟩⟩
  | _ => cases hstores

theorem byteAt_final_step (machine : Machine γ) {address : Nat}
    (hreserved : ¬(0x200 ≤ address ∧ address < 0xEA0)) :
    (Transition.final step machine).state.byteAt address = machine.state.byteAt address := by
  rcases final_step machine with hok | hsame
  · exact byteAt_of_step hok hreserved
  · rw [hsame]

theorem storesAt_of_final_step (machine : Machine γ) {address : Nat}
    (hchanged : (Transition.final step machine).state.byteAt address ≠
      machine.state.byteAt address) :
    machine.state.StoresAt address := by
  rcases final_step machine with hok | hsame
  · exact storesAt_of_step hok hchanged
  · rw [hsame] at hchanged
    exact absurd rfl hchanged

/-- A run is a sequence of steps, each of which leaves reserved memory alone. -/
theorem byteAt_final_runUntil (target : Word) (limit : Nat) (machine : Machine γ)
    {address : Nat} (hreserved : ¬(0x200 ≤ address ∧ address < 0xEA0)) :
    (Transition.final (runUntil target limit) machine).state.byteAt address =
      machine.state.byteAt address := by
  obtain ⟨n, hfinal⟩ := exists_afterSteps_final_runUntil target limit machine
  refine afterSteps_induction (P := fun reached => reached.state.byteAt address =
    machine.state.byteAt address) rfl ?_
    hfinal
  intro before after hbefore hstep
  rw [byteAt_of_step hstep hreserved, hbefore]

/-! ## What holds after any calls -/

/-- **The invariant of a machine.**  Every call preserves the ranges of the index and the
program counter, and an empty stack. -/
theorem inRange_afterCalls (source : γ) (calls : List Call) :
    ((new source).afterCalls calls).state.InRange := by
  refine afterCalls_induction (P := fun machine => machine.state.InRange) State.inRange_initial
    ?_ ?_ ?_ calls
  · intro machine rom state hmachine hload
    exact hmachine.loadRom hload
  · intro before after hbefore hstep
    obtain ⟨instruction, random, hfetch, hword, -, hstate⟩ := exists_state_of_step hstep
    rw [hstate]
    exact hbefore.next hfetch hword.fits
  · intro machine _
    exact State.inRange_initial

/-- A load puts its bytes behind the load address, whatever region they fall into, unless it
does not fit. -/
theorem byteAt_final_load (rom : ByteArray) (machine : Machine γ) (address : Nat) :
    (Transition.final (Call.load rom).perform machine).state.byteAt address
      = (loadedByte? rom address).getD (machine.state.byteAt address) := by
  rw [final_perform_load]
  cases hload : machine.state.loadRom rom with
  | ok state => exact State.byteAt_eq_getD_of_loadRom hload address
  | error fault =>
      rw [loadedByte?_of_large (State.loadRom_eq_error_iff.1 hload).1, Option.getD_none]

theorem byteAt_of_loadRom_eq_ok {machine loaded : Machine γ} {rom : ByteArray}
    (hload : loadRom rom machine = .ok () loaded) (address : Nat) :
    loaded.state.byteAt address = (loadedByte? rom address).getD
      (machine.state.byteAt address) := by
  rw [← byteAt_final_load, final_perform_load_of_ok hload]

/-- A word of a loaded ROM is the number that its two bytes stand for. -/
theorem toNat_wordAt_of_loadRom {machine loaded : Machine γ} {rom : ByteArray} {address : Nat}
    {high low : UInt8} (hload : loadRom rom machine = .ok () loaded)
    (hhigh : loadedByte? rom address = some high)
    (hlow : loadedByte? rom (address + 1) = some low) :
    (loaded.state.wordAt address).toNat = high.toNat * 0x100 + low.toNat := by
  rw [State.toNat_wordAt, byteAt_of_loadRom_eq_ok hload, byteAt_of_loadRom_eq_ok hload, hhigh,
    hlow, Option.getD_some, Option.getD_some]

/-- **Reserved memory is a matter of loads.**  A byte that no instruction can store to is the
one that the calls made so far, the latest first, tell. -/
theorem byteAt_afterCalls_reverse (source : γ) (history : List Call) {address : Nat}
    (hreserved : ¬(0x200 ≤ address ∧ address < 0xEA0)) :
    ((new source).afterCalls history.reverse).state.byteAt address =
      lastLoaded address history := by
  induction history with
  | nil => exact State.byteAt_initial address
  | cons call earlier ih =>
      -- The latest call stands first, so the induction hypothesis is about the machine that it
      -- was made on.
      rw [List.reverse_cons, afterCalls_concat]
      cases call with
      | load rom => rw [byteAt_final_load, ih, lastLoaded]
      | step => rw [final_perform_step, byteAt_final_step _ hreserved, ih, lastLoaded]
      | run target limit =>
          rw [final_perform_run, byteAt_final_runUntil target limit _ hreserved, ih, lastLoaded]
      | reset =>
          rw [final_perform_reset, lastLoaded]
          exact State.byteAt_initial address

/-- **Protection of reserved memory.**  After any calls on a new machine the invariant holds,
and from the call stack on each byte is the one that the latest load put there since the last
reset.  Steps and runs leave all bytes alone that lie below the load address or from the call
stack on, and a byte that a step changes lies in the span of the instruction, one of the two
that store, that was executed.  What is said about steps and runs holds of every machine, hence
also on the way through a run. -/
theorem memory_protected :
    (∀ (source : γ) (calls : List Call),
      ((new source).afterCalls calls).state.InRange ∧
        ∀ address, 0xEA0 ≤ address → address < 0x1000 →
          ((new source).afterCalls calls).state.byteAt address =
            lastLoaded address calls.reverse) ∧
      (∀ (machine : Machine γ) (address : Nat), ¬(0x200 ≤ address ∧ address < 0xEA0) →
        (Transition.final step machine).state.byteAt address = machine.state.byteAt address ∧
          ∀ target limit,
            (Transition.final (runUntil target limit) machine).state.byteAt address =
              machine.state.byteAt address) ∧
      ∀ (machine : Machine γ) (address : Nat),
        (Transition.final step machine).state.byteAt address ≠ machine.state.byteAt address →
          machine.state.StoresAt address := by
  refine ⟨?_, ?_, ?_⟩
  · intro source calls
    refine ⟨inRange_afterCalls source calls, ?_⟩
    intro address hfirst _
    have hreserved : ¬(0x200 ≤ address ∧ address < 0xEA0) := by omega
    have hbyte := byteAt_afterCalls_reverse source calls.reverse hreserved
    rwa [List.reverse_reverse] at hbyte
  · intro machine address hreserved
    refine ⟨byteAt_final_step machine hreserved, ?_⟩
    intro target limit
    exact byteAt_final_runUntil target limit machine hreserved
  · intro machine address hchanged
    exact storesAt_of_final_step machine hchanged

/-- A ROM that fills all of the memory behind the load address. -/
def fullRom : ByteArray := ⟨Array.replicate 0xE00 0xAA⟩

/-- A machine that is about to store two registers (`F155`) in the last two bytes below the call
stack. -/
def storingToEdge : Machine SteppingSource where
  state := { ((State.initial.setByte 0x200 0xF1).setByte 0x201 0x55).setRegister (Register.ofNat
    0) 7 with index := 0xE9E }
  source := ⟨7, 1⟩

theorem memory_protected_at_edge :
    ((new (⟨7, 1⟩ : SteppingSource)).afterCalls
        [.load fullRom, .load ⟨#[0x12, 0x00]⟩, .run 0x111 5, .step]).state.byteAt 0xEA0 =
      0xAA ∧
      (Transition.final step storingToEdge).state.byteAt 0xEA0 =
        storingToEdge.state.byteAt 0xEA0 ∧
      (Transition.final step storingToEdge).state.byteAt 0xE9E ≠
        storingToEdge.state.byteAt 0xE9E ∧
      storingToEdge.state.StoresAt 0xE9E := by
  have hloaded := (memory_protected.1 (⟨7, 1⟩ : SteppingSource)
    [.load fullRom, .load ⟨#[0x12, 0x00]⟩, .run 0x111 5, .step]).2 0xEA0 (by decide) (by decide)
  have hlast : lastLoaded 0xEA0 [.step, .run 0x111 5, .load ⟨#[0x12, 0x00]⟩, .load fullRom] =
      0xAA := by
    decide +kernel
  have hchanged : (Transition.final step storingToEdge).state.byteAt 0xE9E ≠
      storingToEdge.state.byteAt 0xE9E := by
    decide +kernel
  exact ⟨hloaded.trans hlast, (memory_protected.2.1 storingToEdge 0xEA0 (by decide)).1,
    hchanged, memory_protected.2.2 storingToEdge 0xE9E hchanged⟩

end Machine

end GoldenRom
