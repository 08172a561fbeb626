import GoldenRom.Machine.Dump
import GoldenRom.Proofs.Protection
import GoldenRom.Proofs.Reading

/-!
# What a dump tells

A dump is read back line by line.  All fields but the blocks of memory stand at fixed places
with a fixed width, and a block that is not listed is all zero, so nothing that a dump is made
of is lost.  The stack is not part of a dump; it is empty on every machine, so a dump tells one
state of a machine from every other.

## Main definitions

* `Snapshot`, `State.snapshot`: the part of a state that a dump shows.
* `Snapshot.ofText?`: the reader of dumps.

### Design notes

The readers follow the printers of `State.dump` one by one, so each is judged by one application
of `Reads`.  Only the lines of memory are split first, because their number depends on the
state; that no line holds a line break is a matter of its characters.
-/

namespace GoldenRom

/-- The part of a state that a dump shows: all but the stack. -/
structure Snapshot where
  pc : Word
  index : Word
  registers : Vector UInt8 16
  memory : Vector UInt8 memorySize
deriving DecidableEq

/-- What a dump of the state shows. -/
def State.snapshot (s : State) : Snapshot :=
  ⟨s.pc, s.index, s.registers, s.memory⟩

namespace Snapshot

/-! ## The reader -/

/-- Four lowercase hexadecimal digits. -/
def readWord : Reader Nat :=
  .numeral (Numeral.digitOf? Nat.digitChar 16) 16 4

/-- An address of sixteen bits. -/
def readAddress : Reader Nat := do
  .literal "0x".toList
  .numeral (Numeral.digitOf? Numeral.upperDigit 16) 16 4

/-- The line with the program counter and the index. -/
def readHeader : Reader (Word × Word) := do
  .literal "PC: ".toList
  let pc ← readAddress
  .literal "  I: ".toList
  let index ← readAddress
  return (pc.toUInt16, index.toUInt16)

/-- A register under its name. -/
def readRegister (x : Register) : Reader UInt8 := do
  .literal ("V" ++ Numeral.hex 1 x.val ++ ": ").toList
  let value ← Reader.numeral Numeral.columnDigit? 10 3
  return value.toUInt8

/-- A line of eight registers. -/
def readRow (line : Nat) : Reader (List UInt8) :=
  .separated "  ".toList
    ((List.range' (line * registersPerRow) registersPerRow).map fun x =>
      readRegister (Register.ofNat x))

/-- A block of memory: its address and its bytes, two in a word. -/
def readBlock : Reader (Nat × List UInt8) := do
  let address ← readWord
  .literal ": ".toList
  let words ← Reader.separated " ".toList (List.replicate (blockSize / 2) readWord)
  return (address, words.flatMap fun word => [(word / 0x100).toUInt8, (word % 0x100).toUInt8])

/-- The blocks of memory, one on each line. -/
def readMemory (text : List Char) : Option (List (Nat × List UInt8)) :=
  if text = [] then some [] else (text.splitOn '\n').mapM readBlock.all

/-- What stands before the blocks of memory. -/
def readFront : Reader ((Word × Word) × List UInt8) := do
  let header ← readHeader
  .literal "\n".toList
  let low ← readRow 0
  .literal "\n".toList
  let high ← readRow 1
  .literal "\n".toList
  return (header, low ++ high)

/-- The byte at an address: that of the block that covers it, and zero if none does. -/
def blockByte (blocks : List (Nat × List UInt8)) (address : Nat) : UInt8 :=
  ((blocks.lookup (address / blockSize * blockSize)).getD []).getD (address % blockSize) 0

/-- The snapshot that a text is the dump of. -/
def ofText? (text : String) : Option Snapshot := do
  let (((pc, index), registers), rest) ← readFront text.toList
  let blocks ← readMemory rest
  return {
    pc
    index
    registers := Vector.ofFn fun x => registers.getD x 0
    memory := Vector.ofFn fun address => blockByte blocks address }

/-! ## Lines -/

theorem reads_readWord {n : Nat} (hn : n < 0x10000) :
    Reads readWord (Numeral.hex 4 n).toList n :=
  Numeral.reads_hex hn

theorem reads_readAddress (word : Word) :
    Reads readAddress (Numeral.address word.toNat).toList word.toNat := by
  have hword : word.toNat < 16 ^ 4 := word.toNat_lt
  rw [Numeral.address, String.toList_append]
  exact (reads_literal "0x".toList).bind (Numeral.reads_hexUpper hword)

theorem reads_readHeader (s : State) :
    Reads readHeader ("PC: " ++ Numeral.address s.pc.toNat ++ "  I: " ++
      Numeral.address s.index.toNat).toList
      (s.pc, s.index) := by
  have hindex := (reads_readAddress s.index).map fun index =>
    (s.pc.toNat.toUInt16, index.toUInt16)
  rw [Nat.toUInt16_eq, UInt16.ofNat_toNat, Nat.toUInt16_eq, UInt16.ofNat_toNat] at hindex
  rw [readHeader]
  simp only [String.toList_append, List.append_assoc]
  refine (reads_literal _).bind ((reads_readAddress s.pc).bind ((reads_literal _).bind ?_))
  rw [Nat.toUInt16_eq, UInt16.ofNat_toNat]
  exact hindex

theorem reads_readRegister (s : State) (x : Register) :
    Reads (readRegister x) (s.registerText x).toList (s.register x) := by
  have hvalue : (s.register x).toNat < 10 ^ 3 :=
    Nat.lt_trans (s.register x).toNat_lt (by decide)
  have hread := (Numeral.reads_alignRight_decimal (by decide) hvalue).map Nat.toUInt8
  rw [Nat.toUInt8_eq, UInt8.ofNat_toNat] at hread
  rw [State.registerText, String.toList_append]
  exact (reads_literal _).bind hread

theorem reads_readRow (s : State) (line : Nat) :
    Reads (readRow line) (s.registerRow line).toList
      ((List.range' (line * registersPerRow) registersPerRow).map fun x =>
        s.register (Register.ofNat x)) := by
  rw [readRow, State.registerRow, String.toList_intercalate, List.map_map]
  exact reads_separated fun x _ => reads_readRegister s (Register.ofNat x)

/-- What stands before the blocks of memory is read back whatever they are. -/
theorem reads_readFront (s : State) :
    Reads readFront (s.registersText ++ "\n").toList
      ((s.pc, s.index), (List.range 16).map fun x => s.register (Register.ofNat x)) := by
  have hhigh := (reads_literal "\n".toList).map fun _ =>
    ((s.pc, s.index), (List.range 16).map fun x => s.register (Register.ofNat x))
  rw [readFront, State.registersText, String.toList_append, String.toList_intercalate]
  simp only [List.map_cons, List.map_nil, List.intercalate_cons_cons,
    List.intercalate_singleton, List.append_assoc]
  exact (reads_readHeader s).bind
    ((reads_literal _).bind ((reads_readRow s 0).bind ((reads_literal _).bind
    ((reads_readRow s 1).bind hhigh))))

/-! ## Blocks of memory -/

theorem length_bigEndianWords (bytes : List UInt8) :
    (bigEndianWords bytes).length = bytes.length / 2 := by
  fun_induction bigEndianWords bytes with
  | case1 high low rest ih =>
      rw [List.length_cons, ih, List.length_cons, List.length_cons]
      omega
  | case2 bytes hshort =>
      rcases bytes with _ | ⟨byte, _ | ⟨low, rest⟩⟩
      · rfl
      · exact (Nat.div_eq_of_lt (by decide : 1 < 2)).symm
      · exact absurd rfl (hshort byte low rest)

theorem lt_of_mem_bigEndianWords {bytes : List UInt8} {word : Nat}
    (hmem : word ∈ bigEndianWords bytes) : word < 0x10000 := by
  fun_induction bigEndianWords bytes with
  | case1 high low rest ih =>
      rcases List.mem_cons.1 hmem with rfl | hrest
      · have hhigh : high.toNat < 2 ^ 8 := high.toNat_lt
        have hlow : low.toNat < 2 ^ 8 := low.toNat_lt
        omega
      · exact ih hrest
  | case2 => cases hmem

/-- Words keep all of an even number of bytes. -/
theorem flatMap_bigEndianWords {bytes : List UInt8} (heven : bytes.length % 2 = 0) :
    ((bigEndianWords bytes).flatMap fun word =>
      [(word / 0x100).toUInt8, (word % 0x100).toUInt8]) = bytes := by
  fun_induction bigEndianWords bytes with
  | case1 high low rest ih =>
      have hlow : low.toNat < 2 ^ 8 := low.toNat_lt
      have hhighByte : (high.toNat * 0x100 + low.toNat) / 0x100 = high.toNat := by omega
      have hlowByte : (high.toNat * 0x100 + low.toNat) % 0x100 = low.toNat := by omega
      rw [List.flatMap_cons, hhighByte, hlowByte,
        ih (by simp only [List.length_cons] at heven; omega), Nat.toUInt8_eq, Nat.toUInt8_eq,
        UInt8.ofNat_toNat, UInt8.ofNat_toNat]
      rfl
  | case2 bytes hshort =>
      rcases bytes with _ | ⟨byte, _ | ⟨low, rest⟩⟩
      · rfl
      · cases heven
      · exact absurd rfl (hshort byte low rest)

theorem length_block (s : State) (line : Nat) : (s.block line).length = blockSize := by
  rw [State.block, List.length_map, List.length_range']

theorem reads_readBlock (s : State) {line : Nat} (hline : line < memorySize / blockSize) :
    Reads readBlock (s.blockText line).toList (line * blockSize, s.block line) := by
  have haddress : line * blockSize < 0x10000 := by
    simp only [memorySize, blockSize] at hline ⊢
    omega
  have hwords : Reads
      (.separated " ".toList ((bigEndianWords (s.block line)).map fun _ => readWord))
      (" ".toList.intercalate ((bigEndianWords (s.block line)).map fun word =>
        (Numeral.hex 4 word).toList))
      ((bigEndianWords (s.block line)).map id) :=
    reads_separated fun word hmem => reads_readWord (lt_of_mem_bigEndianWords hmem)
  rw [List.map_const', length_bigEndianWords, length_block, List.map_id] at hwords
  have hbytes := hwords.map fun words =>
    (line * blockSize,
      words.flatMap fun word => [(word / 0x100).toUInt8, (word % 0x100).toUInt8])
  rw [flatMap_bigEndianWords (congrArg (· % 2) (length_block s line))] at hbytes
  rw [State.blockText, String.toList_append, String.toList_append, String.toList_intercalate,
    List.map_map, List.append_assoc]
  exact (reads_readWord haddress).bind ((reads_literal _).bind hbytes)

/-! ## Lines of memory -/

theorem not_mem_intercalate {α : Type} {a : α} {separator : List α} {lists : List (List α)}
    (hseparator : a ∉ separator) (hlists : ∀ list ∈ lists, a ∉ list) :
    a ∉ separator.intercalate lists := by
  induction lists with
  | nil => exact List.not_mem_nil
  | cons first rest ih =>
      have hfirst := hlists first List.mem_cons_self
      have hrest := ih fun list hmem => hlists list (List.mem_cons_of_mem first hmem)
      cases rest with
      | nil => rwa [List.intercalate_singleton]
      | cons second rest =>
          rw [List.intercalate_cons_cons, List.append_assoc, List.mem_append, List.mem_append]
          rintro (hmem | hmem | hmem)
          · exact hfirst hmem
          · exact hseparator hmem
          · exact hrest hmem

theorem newline_not_mem_hex (width n : Nat) : '\n' ∉ (Numeral.hex width n).toList := by
  rw [Numeral.hex, String.toList_ofList, List.mem_map]
  rintro ⟨digit, hmem, hnewline⟩
  have hdigit : ∀ digit < 16, Nat.digitChar digit ≠ '\n' := by decide
  exact hdigit digit (Numeral.digit_lt_of_mem_digits (by decide) hmem) hnewline

theorem newline_not_mem_blockText (s : State) (line : Nat) :
    '\n' ∉ (s.blockText line).toList := by
  rw [State.blockText, String.toList_append, String.toList_append, String.toList_intercalate,
    List.mem_append, List.mem_append]
  rintro ((hmem | hmem) | hmem)
  · exact newline_not_mem_hex 4 _ hmem
  · exact absurd hmem (by decide)
  · refine not_mem_intercalate (by decide) ?_ hmem
    intro text htext
    rw [List.map_map] at htext
    obtain ⟨word, -, rfl⟩ := List.mem_map.1 htext
    exact newline_not_mem_hex 4 word

theorem lt_of_mem_occupiedBlocks {s : State} {line : Nat} (hmem : line ∈ s.occupiedBlocks) :
    line < memorySize / blockSize :=
  List.mem_range.1 (List.mem_filter.1 hmem).1

theorem blockText_ne_nil (s : State) (line : Nat) : (s.blockText line).toList ≠ [] := by
  rw [State.blockText, String.toList_append, String.toList_append]
  simp

/-- The lines of memory can be told apart. -/
theorem splitOn_memoryText {s : State} (hoccupied : s.occupiedBlocks ≠ []) :
    s.memoryText.toList.splitOn '\n' =
      s.occupiedBlocks.map fun line => (s.blockText line).toList := by
  rw [State.memoryText, String.toList_intercalate, List.map_map]
  refine List.splitOn_intercalate '\n' ?_ (by simpa using hoccupied)
  intro text htext
  obtain ⟨line, -, rfl⟩ := List.mem_map.1 htext
  exact newline_not_mem_blockText s line

theorem memoryText_ne_nil {s : State} (hoccupied : s.occupiedBlocks ≠ []) :
    s.memoryText.toList ≠ [] := by
  intro hnil
  have hsplit := splitOn_memoryText hoccupied
  rw [hnil, List.splitOn_nil] at hsplit
  obtain ⟨line, -, hline⟩ := List.mem_map.1 (hsplit ▸ List.mem_singleton_self ([] : List Char))
  exact blockText_ne_nil s line hline

/-- Every line of memory is read back, and nothing else. -/
theorem readMemory_memoryText (s : State) :
    readMemory s.memoryText.toList =
      some (s.occupiedBlocks.map fun line => (line * blockSize, s.block line)) := by
  rw [readMemory]
  by_cases hoccupied : s.occupiedBlocks = []
  · rw [State.memoryText, hoccupied]
    rfl
  · rw [if_neg (memoryText_ne_nil hoccupied), splitOn_memoryText hoccupied]
    exact mapM_map_eq_some fun line hmem =>
      (reads_readBlock s (lt_of_mem_occupiedBlocks hmem)).all_eq

/-! ## All of memory -/

/-- A block is listed if and only if one of its bytes is not zero. -/
theorem mem_occupiedBlocks_iff {s : State} {line : Nat} :
    line ∈ s.occupiedBlocks ↔
      line < memorySize / blockSize ∧ ∃ offset < blockSize,
        s.byteAt (line * blockSize + offset) ≠ 0 := by
  rw [State.occupiedBlocks, List.mem_filter, List.mem_range, State.block, allZero]
  refine and_congr_right fun _ => ?_
  simp only [List.all_map, Bool.not_eq_true', List.all_eq_false, List.mem_range'_1,
    Function.comp_apply, beq_iff_eq]
  constructor
  · rintro ⟨address, ⟨hfirst, hlast⟩, hbyte⟩
    exact ⟨address - line * blockSize, by omega, by rwa [Nat.add_sub_cancel' hfirst]⟩
  · rintro ⟨offset, hoffset, hbyte⟩
    exact ⟨line * blockSize + offset, ⟨by omega, by omega⟩, hbyte⟩

/-- The blocks that are listed come in the order of their addresses, none of them twice. -/
theorem pairwise_occupiedBlocks (s : State) : s.occupiedBlocks.Pairwise (· < ·) :=
  List.pairwise_lt_range.filter _

/-- A block is found under its address. -/
theorem lookup_map_block (s : State) (lines : List Nat) (line : Nat) :
    (lines.map fun other => (other * blockSize, s.block other)).lookup (line * blockSize)
      = if line ∈ lines then some (s.block line) else none := by
  induction lines with
  | nil => rfl
  | cons first rest ih =>
      rw [List.map_cons, List.lookup_cons, ih]
      rcases Nat.decEq line first with hne | rfl
      · have haddress : (line * blockSize == first * blockSize) = false := by
          simp only [blockSize, beq_eq_false_iff_ne]
          omega
        simp [haddress, hne]
      · simp

theorem getD_block (s : State) (line : Nat) {offset : Nat} (hoffset : offset < blockSize) :
    (s.block line).getD offset 0 = s.byteAt (line * blockSize + offset) := by
  rw [State.block, List.getD_eq_getElem?_getD, List.getElem?_map, List.getElem?_range' hoffset]
  simp

/-- The blocks that are listed, and zeros for the others, are all of memory. -/
theorem blockByte_occupiedBlocks (s : State) {address : Nat} (hinside : address < memorySize) :
    blockByte (s.occupiedBlocks.map fun line => (line * blockSize, s.block line)) address =
      s.byteAt address := by
  have hoffset : address % blockSize < blockSize := Nat.mod_lt _ (by decide)
  have hparts : address / blockSize * blockSize + address % blockSize = address :=
    Nat.div_add_mod' _ _
  have hline : address / blockSize < memorySize / blockSize := by
    simp only [memorySize, blockSize] at hinside ⊢
    omega
  rw [blockByte, lookup_map_block]
  by_cases hmem : address / blockSize ∈ s.occupiedBlocks
  · rw [if_pos hmem, Option.getD_some, getD_block s _ hoffset, hparts]
  · rw [if_neg hmem, Option.getD_none]
    have hzero : ¬∃ offset < blockSize,
        s.byteAt (address / blockSize * blockSize + offset) ≠ 0 :=
      fun hbyte => hmem (mem_occupiedBlocks_iff.2 ⟨hline, hbyte⟩)
    have hbyte : s.byteAt address = 0 := by
      refine Decidable.byContradiction fun hne => hzero ⟨address % blockSize, hoffset, ?_⟩
      rwa [hparts]
    rw [hbyte]
    rfl

/-! ## The whole dump -/

/-- **A dump is read back as what it shows.** -/
theorem ofText?_dump (s : State) : ofText? s.dump = some s.snapshot := by
  have hfront := reads_readFront s s.memoryText.toList
  rw [← String.toList_append] at hfront
  have hregisters : (Vector.ofFn fun x : Fin 16 =>
      ((List.range 16).map fun x => s.register (Register.ofNat x)).getD x 0) = s.registers := by
    apply Vector.ext
    intro x hx
    rw [Vector.getElem_ofFn, List.getD_eq_getElem?_getD, List.getElem?_map,
      List.getElem?_range hx]
    have hname : Register.ofNat x = ⟨x, hx⟩ := Fin.ext (Nat.mod_eq_of_lt hx)
    rw [Option.map_some, Option.getD_some, hname]
    rfl
  have hmemory : (Vector.ofFn fun address : Fin memorySize =>
      blockByte (s.occupiedBlocks.map fun line => (line * blockSize, s.block line)) address) =
        s.memory := by
    apply Vector.ext
    intro address hinside
    rw [Vector.getElem_ofFn, blockByte_occupiedBlocks s hinside, State.byteAt, dif_pos hinside]
  rw [ofText?, State.dump, hfront, Option.bind_eq_bind, Option.bind_some]
  dsimp only
  rw [readMemory_memoryText, Option.bind_eq_bind, Option.bind_some, hregisters, hmemory]
  rfl

end Snapshot

namespace State

/-- A dump is made of nothing but what it shows. -/
theorem dump_eq_of_snapshot_eq {s t : State} (hsnapshot : s.snapshot = t.snapshot) :
    s.dump = t.dump := by
  obtain ⟨memory, registers, index, pc, stack, stackIndex⟩ := s
  obtain ⟨_, _, _, _, stack', stackIndex'⟩ := t
  obtain ⟨rfl, rfl, rfl, rfl⟩ := Snapshot.mk.inj hsnapshot
  rfl

theorem dump_eq_iff {s t : State} : s.dump = t.dump ↔ s.snapshot = t.snapshot := by
  refine ⟨fun hdump => ?_, dump_eq_of_snapshot_eq⟩
  have hread := Snapshot.ofText?_dump s
  rw [hdump, Snapshot.ofText?_dump] at hread
  exact (Option.some.inj hread).symm

/-- Where the stack is as after a reset, a snapshot is all of the state. -/
theorem InRange.eq_of_snapshot_eq {s t : State} (hs : s.InRange) (ht : t.InRange)
    (hsnapshot : s.snapshot = t.snapshot) : s = t := by
  have hstack : s.stack = t.stack := hs.stack_eq.trans ht.stack_eq.symm
  have hstackIndex : s.stackIndex = t.stackIndex := hs.stackIndex_eq.trans ht.stackIndex_eq.symm
  obtain ⟨memory, registers, index, pc, stack, stackIndex⟩ := s
  obtain ⟨_, _, _, _, stack', stackIndex'⟩ := t
  obtain ⟨rfl, rfl, rfl, rfl⟩ := Snapshot.mk.inj hsnapshot
  obtain rfl : stack = stack' := hstack
  obtain rfl : stackIndex = stackIndex' := hstackIndex
  rfl

theorem InRange.dump_eq_iff {s t : State} (hs : s.InRange) (ht : t.InRange) :
    s.dump = t.dump ↔ s = t :=
  ⟨fun hdump => hs.eq_of_snapshot_eq ht (State.dump_eq_iff.1 hdump), fun heq => heq ▸ rfl⟩

end State

namespace Machine

variable {γ δ : Type} [WordSource γ] [WordSource δ]

/-- **A dump loses nothing.**  The reader of dumps recovers the program counter, the index, all
registers and all of memory, so these decide whether two dumps are the same text, and the dumps
of two machines are the same text only if their states are the same.  The lines after the
registers are those of the blocks with a byte that is not zero, in the order of their addresses,
and each is read back as the address and the bytes of its block. -/
theorem dump_loses_nothing :
    (∀ s : State, Snapshot.ofText? s.dump = some ⟨s.pc, s.index, s.registers, s.memory⟩) ∧
      (∀ s t : State, s.dump = t.dump ↔
        s.pc = t.pc ∧ s.index = t.index ∧ s.registers = t.registers ∧ s.memory = t.memory) ∧
      (∀ (source : γ) (source' : δ) (calls calls' : List Call),
        ((new source).afterCalls calls).state.dump =
          ((new source').afterCalls calls').state.dump ↔
          ((new source).afterCalls calls).state = ((new source').afterCalls calls').state) ∧
      ∀ s : State, ∃ blocks : List Nat,
        blocks.Pairwise (· < ·) ∧
          (∀ block, block ∈ blocks ↔ block < 0x100 ∧ ∃ offset < 0x10,
            s.byteAt (block * 0x10 + offset) ≠ 0) ∧
          s.dump = s.registersText ++ "\n" ++ "\n".intercalate (blocks.map s.blockText) ∧
          Snapshot.readMemory ("\n".intercalate (blocks.map s.blockText)).toList =
            some (blocks.map fun block => (block * 0x10,
              (List.range' (block * 0x10) 0x10).map s.byteAt)) := by
  refine ⟨Snapshot.ofText?_dump, fun s t => ?_, fun source source' calls calls' => ?_,
    fun s => ?_⟩
  · rw [State.dump_eq_iff, State.snapshot, State.snapshot, Snapshot.mk.injEq]
  · exact (inRange_afterCalls source calls).dump_eq_iff (inRange_afterCalls source' calls')
  · exact ⟨s.occupiedBlocks, Snapshot.pairwise_occupiedBlocks s,
      fun _ => Snapshot.mem_occupiedBlocks_iff, rfl, Snapshot.readMemory_memoryText s⟩

end Machine

end GoldenRom
