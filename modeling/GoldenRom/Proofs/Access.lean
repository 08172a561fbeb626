import GoldenRom.Machine.Execution

/-!
# Guarded spans

The three instructions that move blocks check a whole span and then touch it byte by byte, each
byte checked again.  This module turns both loops into closed forms: a checked span either stops
at its first rejected address or yields a state in which all bytes have changed at once.

## Main definitions

* `addressFault?`, `spanFault?`: what the guard says about an address, and about the first
  address of a span that it rejects.
* `State.storeBytes`: a list of bytes put into memory from an address on.
* `State.loadBytes`: the first registers filled from memory.

### Design notes

Both results are given by what every byte and every register holds afterwards, so everything
that an instruction does not touch is unchanged by `rfl`.
-/

namespace GoldenRom

namespace Transition

variable {σ α β : Type}

/-- A transition that succeeds hands its state to the next one. -/
theorem bind_of_ok {first : Transition σ α} {before middle : σ} {result : α}
    (hfirst : first before = .ok result middle) (next : α → Transition σ β) :
    (first >>= next) before = next result middle := by
  simp only [bind, EStateM.bind, hfirst]

/-- A transition that fails is the last one. -/
theorem bind_of_error {first : Transition σ α} {before middle : σ} {fault : Fault}
    (hfirst : first before = .error fault middle) (next : α → Transition σ β) :
    (first >>= next) before = .error fault middle := by
  simp only [bind, EStateM.bind, hfirst]

end Transition

/-! ## What the guard says -/

/-- The fault of an access to an address. -/
def addressFault? (address : Nat) : Option ProgramFault :=
  match checkAddress address with
  | .ok () => none
  | .error fault => some fault

/-- The fault of the first address of a span that no access may touch. -/
def spanFault? (start length : Nat) : Option ProgramFault :=
  (List.range' start length).findSome? addressFault?

theorem addressFault?_eq_none_iff {address : Nat} :
    addressFault? address = none ↔ 0x200 ≤ address ∧ address < 0xEA0 := by
  rw [← checkAddress_eq_ok_iff, addressFault?]
  cases checkAddress address with
  | ok => exact ⟨fun _ => rfl, fun _ => rfl⟩
  | error fault => exact ⟨nofun, nofun⟩

theorem checkAddress_eq_error_iff {address : Nat} {fault : ProgramFault} :
    checkAddress address = .error fault ↔ addressFault? address = some fault := by
  rw [addressFault?]
  cases checkAddress address with
  | ok => exact ⟨nofun, nofun⟩
  | error found => simp

/-- Behind the end of memory an access is out of bounds; in memory it is refused in the name of
the region. -/
theorem addressFault?_eq_some_iff {address : Nat} {fault : ProgramFault} :
    addressFault? address = some fault ↔
      (memorySize ≤ address ∧ fault = .outOfBounds address) ∨
        ∃ region ∈ reservedRegions, region.covers address ∧
          fault = .reserved address region.reason := by
  simp only [addressFault?, checkAddress, reservedRegion?, reservedRegions, Region.covers,
    List.find?_cons, List.find?_nil, List.mem_cons, List.not_mem_nil, or_false,
    exists_eq_or_imp, exists_eq_left, Bool.and_eq_true, decide_eq_true_eq]
  grind

/-- Where a span that starts at an address meets the first address that the guard rejects. -/
def firstRejected (start : Nat) : Nat :=
  if 0x200 ≤ start ∧ start < 0xEA0 then 0xEA0 else start

/-- A span that is not empty is let through if it lies between the load address and the call
stack.  Otherwise the fault names its start, or the first address of the call stack if the span
starts before it. -/
theorem spanFault?_eq {start length : Nat} (hlength : 0 < length) :
    spanFault? start length =
      if 0x200 ≤ start ∧ start + length ≤ 0xEA0 then none
      else addressFault? (firstRejected start) := by
  induction length generalizing start with
  | zero => cases hlength
  | succ length ih =>
      rw [spanFault?, List.range'_succ, List.findSome?_cons]
      cases hstart : addressFault? start with
      | some fault =>
          have hrejected : ¬(0x200 ≤ start ∧ start < 0xEA0) := by
            rw [← addressFault?_eq_none_iff, hstart]
            nofun
          rw [if_neg (by omega), firstRejected, if_neg hrejected, hstart]
      | none =>
          rw [addressFault?_eq_none_iff] at hstart
          rw [firstRejected, if_pos hstart]
          rcases Nat.eq_zero_or_pos length with rfl | hrest
          · rw [if_pos (by omega)]
            rfl
          · -- The rest of the span decides, and it meets the call stack where the whole does.
            show spanFault? (start + 1) length = _
            rw [ih hrest, firstRejected]
            grind

theorem addressFault?_firstRejected_ne_none (start : Nat) :
    addressFault? (firstRejected start) ≠ none := by
  rw [Ne, addressFault?_eq_none_iff, firstRejected]
  split <;> omega

theorem spanFault?_eq_none_iff {start length : Nat} (hlength : 0 < length) :
    spanFault? start length = none ↔ 0x200 ≤ start ∧ start + length ≤ 0xEA0 := by
  rw [spanFault?_eq hlength]
  split
  · rename_i hinside
    exact ⟨fun _ => hinside, fun _ => rfl⟩
  · rename_i houtside
    exact ⟨fun hnone => absurd hnone (addressFault?_firstRejected_ne_none start),
      fun hinside => absurd hinside houtside⟩

/-- A span that is let through is let through at every address. -/
theorem addressFault?_of_spanFault? {start length address : Nat}
    (hspan : spanFault? start length = none) (hmem : address ∈ List.range' start length) :
    addressFault? address = none :=
  List.findSome?_eq_none_iff.1 hspan address hmem

namespace State

theorem guardAddress_eq (address : Nat) (s : State) :
    guardAddress address s = match addressFault? address with
      | none => .ok () s
      | some fault => .error (.program fault) s := by
  rw [guardAddress, addressFault?]
  cases checkAddress address <;> rfl

/-- Checking addresses one after the other stops at the first that is rejected, and changes
nothing. -/
theorem forM_guardAddress (addresses : List Nat) (s : State) :
    forM addresses guardAddress s = match addresses.findSome? addressFault? with
      | none => .ok () s
      | some fault => .error (.program fault) s := by
  induction addresses with
  | nil => rfl
  | cons address rest ih =>
      have hguard := guardAddress_eq address s
      rw [List.forM_cons, List.findSome?_cons]
      cases hfault : addressFault? address with
      | some fault =>
          rw [hfault] at hguard
          exact Transition.bind_of_error hguard _
      | none =>
          rw [hfault] at hguard
          rw [Transition.bind_of_ok hguard, ih]

/-- The check of a span hands out its addresses, or stops with the fault of the span. -/
theorem checkSpan_eq (length : Nat) (s : State) :
    checkSpan length s = match spanFault? s.index.toNat length with
      | none => .ok (List.range' s.index.toNat length) s
      | some fault => .error (.program fault) s := by
  have hspan := forM_guardAddress (List.range' s.index.toNat length) s
  show ((List.range' s.index.toNat length).forM guardAddress >>= fun _ =>
    pure (List.range' s.index.toNat length)) s
    = _
  rw [spanFault?]
  cases hfault : (List.range' s.index.toNat length).findSome? addressFault? with
  | some fault =>
      rw [hfault] at hspan
      exact Transition.bind_of_error hspan _
  | none =>
      rw [hfault] at hspan
      exact Transition.bind_of_ok hspan _

/-- What is done with a checked span need only be known where the span is let through. -/
theorem checkSpan_bind_eq {length : Nat} {s t : State}
    {body : List Nat → Transition State Unit}
    (hbody : spanFault? s.index.toNat length = none →
      body (List.range' s.index.toNat length) s = .ok () t) :
    (checkSpan length >>= body) s = match spanFault? s.index.toNat length with
      | none => .ok () t
      | some fault => .error (.program fault) s := by
  have hcheck := checkSpan_eq length s
  cases hspan : spanFault? s.index.toNat length with
  | some fault =>
      rw [hspan] at hcheck
      exact Transition.bind_of_error hcheck body
  | none =>
      rw [hspan] at hcheck
      rw [Transition.bind_of_ok hcheck]
      exact hbody hspan

theorem byteAt_eq_of_memory_eq {s t : State} (hmemory : s.memory = t.memory) (address : Nat) :
    s.byteAt address = t.byteAt address := by
  rw [byteAt, byteAt, hmemory]

theorem register_eq_of_registers_eq {s t : State} (hregisters : s.registers = t.registers)
    (x : Register) : s.register x = t.register x := by
  rw [register, register, hregisters]

/-- A word is the number that its two bytes stand for. -/
theorem toNat_wordAt (s : State) (address : Nat) :
    (s.wordAt address).toNat = (s.byteAt address).toNat * 0x100 +
      (s.byteAt (address + 1)).toNat := by
  have hhigh : (s.byteAt address).toNat < 2 ^ 8 := (s.byteAt address).toNat_lt
  have hlow : (s.byteAt (address + 1)).toNat < 2 ^ 8 := (s.byteAt (address + 1)).toNat_lt
  rw [wordAt, Nat.toUInt16_eq, UInt16.toNat_ofNat']
  omega

@[simp] theorem index_setByte (s : State) (address : Nat) (byte : UInt8) :
    (s.setByte address byte).index = s.index := by
  rw [setByte]

@[simp] theorem pc_setByte (s : State) (address : Nat) (byte : UInt8) :
    (s.setByte address byte).pc = s.pc := by
  rw [setByte]

@[simp] theorem stack_setByte (s : State) (address : Nat) (byte : UInt8) :
    (s.setByte address byte).stack = s.stack := by
  rw [setByte]

@[simp] theorem stackIndex_setByte (s : State) (address : Nat) (byte : UInt8) :
    (s.setByte address byte).stackIndex = s.stackIndex := by
  rw [setByte]

@[simp] theorem memory_setRegister (s : State) (x : Register) (byte : UInt8) :
    (s.setRegister x byte).memory = s.memory := by
  rw [setRegister]

@[simp] theorem index_setRegister (s : State) (x : Register) (byte : UInt8) :
    (s.setRegister x byte).index = s.index := by
  rw [setRegister]

@[simp] theorem pc_setRegister (s : State) (x : Register) (byte : UInt8) :
    (s.setRegister x byte).pc = s.pc := by
  rw [setRegister]

@[simp] theorem stack_setRegister (s : State) (x : Register) (byte : UInt8) :
    (s.setRegister x byte).stack = s.stack := by
  rw [setRegister]

@[simp] theorem stackIndex_setRegister (s : State) (x : Register) (byte : UInt8) :
    (s.setRegister x byte).stackIndex = s.stackIndex := by
  rw [setRegister]

/-- A state is what its bytes, its registers and its other fields are. -/
theorem ext_of_views {s t : State}
    (hbytes : ∀ address, address < memorySize → s.byteAt address = t.byteAt address)
    (hregisters : ∀ x, s.register x = t.register x) (hindex : s.index = t.index)
    (hpc : s.pc = t.pc) (hstack : s.stack = t.stack)
    (hstackIndex : s.stackIndex = t.stackIndex) : s = t := by
  have hmemory : s.memory = t.memory := by
    apply Vector.ext
    intro address haddress
    have hbyte := hbytes address haddress
    rwa [byteAt, byteAt, dif_pos haddress, dif_pos haddress] at hbyte
  have hall : s.registers = t.registers := by
    apply Vector.ext
    intro x hx
    exact hregisters ⟨x, hx⟩
  cases s
  cases t
  simp only at hmemory hall hindex hpc hstack hstackIndex
  rw [hmemory, hall, hindex, hpc, hstack, hstackIndex]

/-! ## Storing a span -/

/-- The state with a list of bytes put into memory from an address on. -/
def storeBytes (s : State) (start : Nat) (bytes : List UInt8) : State :=
  { s with
    memory := Vector.ofFn fun address =>
      if h : start ≤ address.val ∧ address.val - start < bytes.length then
        bytes[address.val - start]
      else s.byteAt address.val }

/-- The bytes of the list stand from the address on, and all other bytes are as they were. -/
theorem byteAt_storeBytes (s : State) (start : Nat) (bytes : List UInt8) {address : Nat}
    (hinside : address < memorySize) :
    (s.storeBytes start bytes).byteAt address =
      if h : start ≤ address ∧ address - start < bytes.length then bytes[address - start]
      else s.byteAt address := by
  rw [byteAt, dif_pos hinside]
  exact Vector.getElem_ofFn hinside

@[simp] theorem registers_storeBytes (s : State) (start : Nat) (bytes : List UInt8) :
    (s.storeBytes start bytes).registers = s.registers := by rw [storeBytes]

@[simp] theorem register_storeBytes (s : State) (start : Nat) (bytes : List UInt8)
    (x : Register) :
    (s.storeBytes start bytes).register x = s.register x :=
  register_eq_of_registers_eq (registers_storeBytes s start bytes) x

@[simp] theorem index_storeBytes (s : State) (start : Nat) (bytes : List UInt8) :
    (s.storeBytes start bytes).index = s.index := by rw [storeBytes]

@[simp] theorem pc_storeBytes (s : State) (start : Nat) (bytes : List UInt8) :
    (s.storeBytes start bytes).pc = s.pc := by rw [storeBytes]

@[simp] theorem stack_storeBytes (s : State) (start : Nat) (bytes : List UInt8) :
    (s.storeBytes start bytes).stack = s.stack := by rw [storeBytes]

@[simp] theorem stackIndex_storeBytes (s : State) (start : Nat) (bytes : List UInt8) :
    (s.storeBytes start bytes).stackIndex = s.stackIndex := by rw [storeBytes]

theorem storeBytes_nil (s : State) (start : Nat) : s.storeBytes start [] = s := by
  refine ext_of_views (fun address hinside => ?_) (by simp) (by simp) (by simp)
    (by simp) (by simp)
  rw [byteAt_storeBytes s start [] hinside, dif_neg]
  exact fun h => Nat.not_lt_zero _ h.2

/-- Storing the first byte and then the others is storing all of them. -/
theorem storeBytes_setByte {s : State} {start : Nat} (hstart : start < memorySize)
    (byte : UInt8) (rest : List UInt8) :
    (s.setByte start byte).storeBytes (start + 1) rest = s.storeBytes start (byte :: rest) := by
  refine ext_of_views (fun address hinside => ?_) (by simp) (by simp) (by simp)
    (by simp) (by simp)
  rw [byteAt_storeBytes _ _ _ hinside, byteAt_storeBytes _ _ _ hinside,
    byteAt_setByte _ _ _ hstart]
  -- Below the span, at its first address, and above that.
  rcases Nat.lt_trichotomy address start with hbelow | rfl | habove
  · rw [dif_neg (by omega), dif_neg (by omega), if_neg (by omega)]
  · rw [dif_neg (by omega), if_pos rfl, dif_pos ⟨Nat.le_refl _, by simp⟩]
    simp
  · obtain ⟨offset, rfl⟩ : ∃ offset, address = start + 1 + offset :=
      ⟨address - (start + 1), by omega⟩
    have hoffset : start + 1 + offset - start = offset + 1 := by omega
    simp only [Nat.add_sub_cancel_left, hoffset, List.length_cons, List.getElem_cons_succ]
    grind

/-- A loop that stores one byte for each address of a span that is let through stores all of
them.  The values may be read from the registers, which no store changes. -/
theorem forM_store {ι : Type} (store : Nat → ι → Transition State Unit) (value : ι → UInt8)
    {items : List ι} {start : Nat} {s : State} (hspan : spanFault? start items.length = none)
    (hstore : ∀ item ∈ items, ∀ address t, addressFault? address = none →
      t.registers = s.registers → store address item t = .ok ()
      (t.setByte address (value item))) :
    forM ((List.range' start items.length).zip items) (fun target => store target.1 target.2) s
      = .ok () (s.storeBytes start (items.map value)) := by
  induction items generalizing start s with
  | nil =>
      rw [List.map_nil, storeBytes_nil]
      rfl
  | cons item rest ih =>
      have hstart : addressFault? start = none :=
        addressFault?_of_spanFault? hspan (List.mem_range'_1.2 ⟨Nat.le_refl _, by simp⟩)
      have hinside : start < memorySize := by
        rw [addressFault?_eq_none_iff] at hstart
        exact Nat.lt_trans hstart.2 (by decide)
      have hrest : spanFault? (start + 1) rest.length = none := by
        rw [spanFault?, List.length_cons, List.range'_succ, List.findSome?_cons,
          hstart] at hspan
        exact hspan
      have hfirst : store start item s = .ok () (s.setByte start (value item)) :=
        hstore item List.mem_cons_self start s hstart rfl
      rw [List.length_cons, List.range'_succ, List.zip_cons_cons, List.forM_cons,
        Transition.bind_of_ok hfirst, List.map_cons, ← storeBytes_setByte hinside]
      -- The registers are still those of the start, so what is stored from now on is what they
      -- held there.
      exact ih hrest fun other hother address t haddress hregisters =>
        hstore other (List.mem_cons_of_mem _ hother) address t haddress hregisters

/-! ## Loading a span -/

/-- The state with the first `count` registers filled from memory. -/
def loadBytes (s : State) (start count : Nat) : State :=
  { s with
    registers := Vector.ofFn fun x =>
      if x.val < count then s.byteAt (start + x.val) else s.register x }

/-- The first registers hold the bytes of the span, and the others are as they were. -/
theorem register_loadBytes (s : State) (start count : Nat) (x : Register) :
    (s.loadBytes start count).register x =
      if x.val < count then s.byteAt (start + x.val) else s.register x :=
  Vector.getElem_ofFn x.isLt

@[simp] theorem memory_loadBytes (s : State) (start count : Nat) :
    (s.loadBytes start count).memory = s.memory := by
  rw [loadBytes]

@[simp] theorem byteAt_loadBytes (s : State) (start count address : Nat) :
    (s.loadBytes start count).byteAt address = s.byteAt address :=
  byteAt_eq_of_memory_eq (memory_loadBytes s start count) address

@[simp] theorem index_loadBytes (s : State) (start count : Nat) :
    (s.loadBytes start count).index = s.index := by
  rw [loadBytes]

@[simp] theorem pc_loadBytes (s : State) (start count : Nat) :
    (s.loadBytes start count).pc = s.pc := by
  rw [loadBytes]

@[simp] theorem stack_loadBytes (s : State) (start count : Nat) :
    (s.loadBytes start count).stack = s.stack := by
  rw [loadBytes]

@[simp] theorem stackIndex_loadBytes (s : State) (start count : Nat) :
    (s.loadBytes start count).stackIndex = s.stackIndex := by
  rw [loadBytes]

theorem loadBytes_zero (s : State) (start : Nat) : s.loadBytes start 0 = s := by
  refine ext_of_views (by simp) (fun x => ?_) (by simp) (by simp) (by simp) (by simp)
  rw [register_loadBytes, if_neg (Nat.not_lt_zero _)]

/-- Loading one register behind those that are loaded already is loading one more. -/
theorem setRegister_loadBytes {s : State} {start count : Nat} (hcount : count < 16) :
    (s.loadBytes start count).setRegister (Register.ofNat count) (s.byteAt (start + count))
      = s.loadBytes start (count + 1) := by
  refine ext_of_views (by simp) (fun x => ?_) (by simp) (by simp) (by simp) (by simp)
  have hplace : x = Register.ofNat count ↔ x.val = count := by
    rw [Fin.ext_iff, Register.val_ofNat, Nat.mod_eq_of_lt hcount]
  rw [register_setRegister, register_loadBytes, register_loadBytes]
  grind

/-- The loop over the registers and the addresses of a span that is let through loads all of
them.  Memory does not change on the way. -/
theorem forM_load (load : Nat → Register → Transition State Unit) {count start : Nat}
    {s : State} (hcount : count ≤ 16) (hspan : spanFault? start count = none)
    (hload : ∀ address x t, addressFault? address = none →
      load address x t = .ok () (t.setRegister x (t.byteAt address))) :
    forM ((List.range' start count).zip ((List.range count).map Register.ofNat))
        (fun source => load source.1 source.2) s
      = .ok () (s.loadBytes start count) := by
  induction count with
  | zero =>
      rw [loadBytes_zero]
      rfl
  | succ count ih =>
      have hlast : addressFault? (start + count) = none :=
        addressFault?_of_spanFault? hspan (List.mem_range'_1.2 ⟨by omega, by omega⟩)
      have hfront : spanFault? start count = none := by
        rw [spanFault?, List.findSome?_eq_none_iff] at hspan ⊢
        intro address hmem
        exact hspan address (by rw [List.mem_range'_1] at hmem ⊢; omega)
      -- The loop is taken apart at its end, where the register to fill is `count`.
      rw [List.range'_1_concat, List.range_succ, List.map_append, List.zip_append (by simp),
        List.forM_append, Transition.bind_of_ok (ih (by omega) hfront)]
      show (load (start + count) (Register.ofNat count) >>= fun _ => pure ())
        (s.loadBytes start count) = _
      rw [Transition.bind_of_ok (hload _ _ _ hlast), byteAt_loadBytes]
      exact congrArg (EStateM.Result.ok ()) (setRegister_loadBytes hcount)

end State

end GoldenRom
