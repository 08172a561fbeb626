import GoldenRom.Proofs.Protection

/-!
# Memory as a store of bytes

Memory can be changed in three ways: by the copy of a ROM, which asks no guard, by a guarded
write, and by a reset.  After any number of these, in any order and whatever came of each, a
byte is what the latest one that meant it has made of it.  Reads and writes are refused alike,
and whatever is refused changes nothing.

## Main definitions

* `MemoryCall`: the three ways, with `MemoryCall.perform`, what they do, and
  `MemoryCall.effect?`, what they mean for one byte.
* `lastEffect?`: the effect of the latest call that has one.
* `Refusal`: the faults of an access, as rules.

## Main results

* `State.byteAt_afterMemoryCalls_reverse`: every byte is what the latest effect has made of it.
* `State.memory_refines_last_effect`: the same, together with what is refused.
-/

namespace GoldenRom

open State

/-- A call that changes memory and is not an instruction. -/
inductive MemoryCall where
  /-- Copy a ROM to the load address. -/
  | load (rom : ByteArray)
  /-- Store a value at an address. -/
  | write (address value : Nat)
  /-- Put the state back to the initial one. -/
  | reset

namespace MemoryCall

/-- The call as a transition of the state. -/
def perform : MemoryCall → Transition State Unit
  | load rom => fun s =>
      match s.loadRom rom with
      | .ok loaded => .ok () loaded
      | .error fault => .error (.engine fault) s
  | write address value => writeByte address value
  | reset => modify fun _ => initial

/-- What a call makes of the byte at an address, if it takes effect there. -/
def effect? (address : Nat) : MemoryCall → Option UInt8
  | load rom => loadedByte? rom address
  | write target value =>
      if target = address ∧ value ≤ 255 ∧ 0x200 ≤ address ∧ address < 0xEA0 then
        some value.toUInt8
      else none
  | reset => some 0

end MemoryCall

/-- What the latest call that takes effect at an address makes of the byte there.  The latest
call stands first. -/
def lastEffect? (address : Nat) (history : List MemoryCall) : Option UInt8 :=
  history.findSome? (·.effect? address)

/-- The state after a sequence of calls, whatever comes of each of them. -/
def State.afterMemoryCalls (s : State) (calls : List MemoryCall) : State :=
  calls.foldl (fun s call => Transition.final call.perform s) s

/-- The faults of an access to an address: it lies behind the end of memory, or a region
reserves it. -/
inductive Refusal (address : Nat) : ProgramFault → Prop
  | outOfBounds (hbeyond : 0x1000 ≤ address) : Refusal address (.outOfBounds address)
  | reserved {region : Region} (hregion : region ∈ reservedRegions)
      (hcovers : region.covers address) :
      Refusal address (.reserved address region.reason)

theorem checkAddress_eq_error_iff_refusal {address : Nat} {fault : ProgramFault} :
    checkAddress address = .error fault ↔ Refusal address fault := by
  rw [checkAddress_eq_error_iff, addressFault?_eq_some_iff]
  constructor
  · rintro (⟨hbeyond, rfl⟩ | ⟨region, hregion, hcovers, rfl⟩)
    · exact .outOfBounds hbeyond
    · exact .reserved hregion hcovers
  · rintro (hbeyond | ⟨hregion, hcovers⟩)
    · exact Or.inl ⟨hbeyond, rfl⟩
    · exact Or.inr ⟨_, hregion, hcovers, rfl⟩

namespace State

theorem afterMemoryCalls_concat (s : State) (calls : List MemoryCall) (call : MemoryCall) :
    s.afterMemoryCalls (calls ++ [call]) =
      Transition.final call.perform (s.afterMemoryCalls calls) :=
  List.foldl_append

/-! ## Reads and writes -/

theorem readByte_eq_ok_iff {s after : State} {address : Nat} {byte : UInt8} :
    readByte address s = .ok byte after ↔ 0x200 ≤ address ∧ address < 0xEA0 ∧
      byte = s.byteAt address ∧ after = s := by
  rw [← and_assoc, ← checkAddress_eq_ok_iff, readByte_eq]
  cases checkAddress address with
  | ok => simp [eq_comm]
  | error fault => simp

theorem readByte_eq_error_iff {s after : State} {address : Nat} {fault : Fault} :
    readByte address s = .error fault after ↔
      (∃ cause, Refusal address cause ∧ fault = .program cause) ∧ after = s := by
  simp only [← checkAddress_eq_error_iff_refusal, readByte_eq]
  cases checkAddress address with
  | ok => simp
  | error cause => simp [eq_comm]

/-- A value that fits no byte is refused wherever it is to go. -/
theorem writeByte_of_large {value : Nat} (hvalue : 255 < value) (address : Nat) (s : State) :
    writeByte address value s = .error (.engine (.invalidByte value)) s := by
  rw [writeByte_eq, checkByte_eq_error_iff.2 ⟨hvalue, rfl⟩]

/-- Any other value is judged by its address. -/
theorem writeByte_of_le {value : Nat} (hvalue : value ≤ 255) {address : Nat} {s : State} :
    (checkAddress address = .ok () →
      writeByte address value s = .ok () (s.setByte address value.toUInt8)) ∧
      ∀ fault, checkAddress address = .error fault →
        writeByte address value s = .error (.program fault) s := by
  have hbyte : checkByte value = .ok value.toUInt8 := if_pos (Nat.lt_succ_of_le hvalue)
  constructor
  · intro haccepted
    rw [writeByte_eq, hbyte, haccepted]
  · intro fault hrefused
    rw [writeByte_eq, hbyte, hrefused]

/-- It is refused where and how a read is. -/
theorem writeByte_eq_error_iff_readByte {value : Nat} (hvalue : value ≤ 255) {address : Nat}
    {s after : State} {fault : Fault} :
    writeByte address value s = .error fault after ↔
      readByte address s = .error fault after := by
  cases hcheck : checkAddress address with
  | ok => simp [(writeByte_of_le hvalue).1 hcheck, readByte_eq, hcheck]
  | error cause => simp [(writeByte_of_le hvalue).2 cause hcheck, readByte_eq, hcheck]

/-! ## One call -/

/-- A call that fails changes nothing. -/
theorem eq_of_perform_eq_error {call : MemoryCall} {s after : State} {fault : Fault}
    (hfails : call.perform s = .error fault after) : after = s := by
  cases call with
  | load rom =>
      simp only [MemoryCall.perform] at hfails
      cases hload : s.loadRom rom with
      | ok loaded =>
          rw [hload] at hfails
          cases hfails
      | error cause =>
          rw [hload] at hfails
          cases hfails
          rfl
  | write address value =>
      rw [MemoryCall.perform] at hfails
      rcases Nat.lt_or_ge 255 value with hlarge | hsmall
      · rw [writeByte_of_large hlarge] at hfails
        cases hfails
        rfl
      · exact (readByte_eq_error_iff.1 ((writeByte_eq_error_iff_readByte hsmall).1 hfails)).2
  | reset => cases hfails

theorem byteAt_final_writeByte (target value : Nat) (s : State) (address : Nat) :
    (Transition.final (writeByte target value) s).byteAt address
      = ((MemoryCall.write target value).effect? address).getD (s.byteAt address) := by
  rw [MemoryCall.effect?]
  rcases Nat.lt_or_ge 255 value with hlarge | hsmall
  · rw [Transition.final_of_error (writeByte_of_large hlarge target s), if_neg (by omega),
      Option.getD_none]
  · cases hcheck : checkAddress target with
    | error fault =>
        have hrefused : ¬(0x200 ≤ target ∧ target < 0xEA0) := by
          rw [← checkAddress_eq_ok_iff, hcheck]
          nofun
        rw [Transition.final_of_error ((writeByte_of_le hsmall).2 fault hcheck),
          if_neg (by omega), Option.getD_none]
    | ok =>
        have haccepted := checkAddress_eq_ok_iff.1 hcheck
        rw [Transition.final_of_ok ((writeByte_of_le hsmall).1 hcheck),
          byteAt_setByte s address _ (Nat.lt_trans haccepted.2 (by decide))]
        grind

/-- A call makes of a byte what its effect says, and leaves it alone if it has none there. -/
theorem byteAt_final_memoryCall (call : MemoryCall) (s : State) (address : Nat) :
    (Transition.final call.perform s).byteAt address =
      (call.effect? address).getD (s.byteAt address) := by
  cases call with
  | load rom =>
      simp only [Transition.final, MemoryCall.perform]
      cases hload : s.loadRom rom with
      | ok loaded => exact byteAt_eq_getD_of_loadRom hload address
      | error fault =>
          rw [MemoryCall.effect?, loadedByte?_of_large (loadRom_eq_error_iff.1 hload).1,
            Option.getD_none]
  | write target value => exact byteAt_final_writeByte target value s address
  | reset => exact byteAt_initial address

/-! ## Any number of calls -/

/-- A byte is what the latest call that takes effect there, the latest first, has made of it. -/
theorem byteAt_afterMemoryCalls_reverse (s : State) (history : List MemoryCall)
    (address : Nat) :
    (s.afterMemoryCalls history.reverse).byteAt address =
      (lastEffect? address history).getD (s.byteAt address) := by
  induction history with
  | nil => rfl
  | cons call earlier ih =>
      rw [List.reverse_cons, afterMemoryCalls_concat, byteAt_final_memoryCall, ih, lastEffect?,
        lastEffect?, List.findSome?_cons]
      cases call.effect? address <;> rfl

/-- **Memory is a store in which the latest write wins.**  After any calls on any state, each
byte is what the latest call that took effect there has made of it, or what it was before all of
them.  A read gives the byte between the load address and the call stack, and is refused
everywhere else, in the name of the end of memory or of the region.  A write of a value that
fits no byte is refused for that, whatever the address; any other is refused if and only if a
read is, and in the same way.  A load is refused if and only if the ROM does not fit.  Whatever
is refused leaves the state as it was. -/
theorem memory_refines_last_effect :
    (∀ (s : State) (calls : List MemoryCall) (address : Nat), address < 0x1000 →
      (s.afterMemoryCalls calls).byteAt address =
        (lastEffect? address calls.reverse).getD (s.byteAt address)) ∧
    (∀ (s after : State) (address : Nat) (byte : UInt8),
      readByte address s = .ok byte after ↔
        0x200 ≤ address ∧ address < 0xEA0 ∧ byte = s.byteAt address ∧ after = s) ∧
    (∀ (s after : State) (address : Nat) (fault : Fault),
      readByte address s = .error fault after ↔
        (∃ cause, Refusal address cause ∧ fault = .program cause) ∧ after = s) ∧
    (∀ (s after : State) (address value : Nat) (fault : Fault),
      (255 < value → writeByte address value s = .error (.engine (.invalidByte value)) s) ∧
        (value ≤ 255 → (writeByte address value s = .error fault after ↔
          readByte address s = .error fault after))) ∧
    (∀ (s : State) (rom : ByteArray) (fault : EngineFault),
      s.loadRom rom = .error fault ↔ 0xE00 < rom.size ∧ fault = .romTooLarge rom.size 0xE00) ∧
    ∀ (s after : State) (call : MemoryCall) (fault : Fault),
      call.perform s = .error fault after → after = s := by
  refine ⟨fun s calls address _ => ?_, fun _ _ _ _ => readByte_eq_ok_iff,
    fun _ _ _ _ => readByte_eq_error_iff, fun s after address value fault =>
      ⟨fun hlarge => writeByte_of_large hlarge address s,
        fun hsmall => writeByte_eq_error_iff_readByte hsmall⟩,
    fun _ _ _ => loadRom_eq_error_iff, fun _ _ _ _ => eq_of_perform_eq_error⟩
  have hbyte := byteAt_afterMemoryCalls_reverse s calls.reverse address
  rwa [List.reverse_reverse] at hbyte

/-- The second ROM is shorter than the first and leaves its tail in place; of the three writes
only the first is done. -/
theorem memory_refines_last_effect_after_short_rom :
    let calls : List MemoryCall :=
      [.load ⟨#[1, 2, 3]⟩, .load ⟨#[4]⟩, .write 0x202 9, .write 0x201 300, .write 0xEA0 5]
    (initial.afterMemoryCalls calls).byteAt 0x200 = 4 ∧
      (initial.afterMemoryCalls calls).byteAt 0x201 = 2 ∧
      (initial.afterMemoryCalls calls).byteAt 0x202 = 9 ∧
      writeByte 0xEA0 300 initial = .error (.engine (.invalidByte 300)) initial ∧
      writeByte 0xEA0 5 initial
        = .error (.program (.reserved 0xEA0 "call stack / runtime variables")) initial := by
  obtain ⟨hbytes, -, hread, hwrite, -⟩ := memory_refines_last_effect
  have hrefusal : Refusal 0xEA0 (.reserved 0xEA0 "call stack / runtime variables") :=
    .reserved (List.mem_cons_of_mem _ List.mem_cons_self) (by decide)
  exact ⟨(hbytes initial _ 0x200 (by decide)).trans (by decide +kernel),
    (hbytes initial _ 0x201 (by decide)).trans (by decide +kernel),
    (hbytes initial _ 0x202 (by decide)).trans (by decide +kernel),
    (hwrite initial initial 0xEA0 300 (.engine (.invalidByte 300))).1 (by decide),
    ((hwrite initial initial 0xEA0 5 _).2 (by decide)).2
    ((hread initial initial 0xEA0 _).2 ⟨⟨_, hrefusal, rfl⟩, rfl⟩)⟩

end State

end GoldenRom
