import GoldenRom.Machine.Instruction
import Mathlib.Algebra.Group.Nat.Defs

/-!
# The written form of an instruction

Words are recognized by masks and read by shifts.  This module gives the other side: the number
that an instruction is written as, one line for each of the eighteen forms, with no mask in it.
`ofWord?_eq_some_iff` says that recognizing and writing are inverse, so "the word is `FX33`" may
be said of a word without the catalog.

## Main definitions

* `Instruction.encode`: the number that an instruction is written as.
* `Word.Encodes`: a word is the written form of an instruction.
* `Word.Draws`: a word has the form `CXNN`, the one that asks for a random byte.

### Design notes

The masks enter in one place.  Every mask of the catalog keeps the first digit and the last
zero, four or eight bits, so fitting a pattern is an equation between numbers
(`covers_pattern_iff`) and the rest is arithmetic.  That no word fits two patterns is read off
the table of masks and values alone (`operation_eq_of_covers`).
-/

namespace GoldenRom

namespace Instruction

/-- The number that an instruction is written as: the fixed digits of its form, and its operands
in the others. -/
def encode : Instruction → Nat
  | jump target => 0x1000 + target.toNat
  | loadValue x value => 0x6000 + 0x100 * x.val + value.toNat
  | addValue x value => 0x7000 + 0x100 * x.val + value.toNat
  | move x y => 0x8000 + 0x100 * x.val + 0x10 * y.val
  | or x y => 0x8001 + 0x100 * x.val + 0x10 * y.val
  | and x y => 0x8002 + 0x100 * x.val + 0x10 * y.val
  | xor x y => 0x8003 + 0x100 * x.val + 0x10 * y.val
  | add x y => 0x8004 + 0x100 * x.val + 0x10 * y.val
  | sub x y => 0x8005 + 0x100 * x.val + 0x10 * y.val
  | shiftRight x y => 0x8006 + 0x100 * x.val + 0x10 * y.val
  | subReversed x y => 0x8007 + 0x100 * x.val + 0x10 * y.val
  | shiftLeft x y => 0x800E + 0x100 * x.val + 0x10 * y.val
  | random x mask => 0xC000 + 0x100 * x.val + mask.toNat
  | loadIndex target => 0xA000 + target.toNat
  | addIndex x => 0xF01E + 0x100 * x.val
  | storeBcd x => 0xF033 + 0x100 * x.val
  | storeRegisters x => 0xF055 + 0x100 * x.val
  | loadRegisters x => 0xF065 + 0x100 * x.val

/-- A target has to fit the twelve bits that are left for it. -/
def TargetFits : Instruction → Prop
  | jump target => target.toNat < 0x1000
  | loadIndex target => target.toNat < 0x1000
  | _ => True

/-- What an instruction does, without its operands. -/
def operation : Instruction → Operation
  | jump _ => .jump
  | loadValue .. => .loadValue
  | addValue .. => .addValue
  | move .. => .move
  | or .. => .or
  | and .. => .and
  | xor .. => .xor
  | add .. => .add
  | sub .. => .sub
  | shiftRight .. => .shiftRight
  | subReversed .. => .subReversed
  | shiftLeft .. => .shiftLeft
  | random .. => .random
  | loadIndex _ => .loadIndex
  | addIndex _ => .addIndex
  | storeBcd _ => .storeBcd
  | storeRegisters _ => .storeRegisters
  | loadRegisters _ => .loadRegisters

end Instruction

/-- A word is the written form of an instruction. -/
structure Word.Encodes (word : Word) (instruction : Instruction) : Prop where
  fits : instruction.TargetFits
  toNat_eq : word.toNat = instruction.encode

/-- A word has the form `CXNN`, the one that asks for a random byte. -/
def Word.Draws (word : Word) : Prop :=
  ∃ x mask, word.Encodes (.random x mask)

/-! ## The masks -/

/-- A mask that keeps the first digit and the last `k` bits of a word takes the word apart
there. -/
theorem Word.toNat_and_mask (word : Word) {k : Nat} (hk : k ≤ 12) :
    word.toNat &&& (0xF000 + (2 ^ k - 1)) =
      word.toNat / 0x1000 * 0x1000 + word.toNat % 2 ^ k := by
  have hword : word.toNat < 2 ^ 16 := word.toNat_lt
  have hpow : 2 ^ k ≤ 2 ^ 12 := Nat.pow_le_pow_right (by decide) hk
  have hpos : 0 < 2 ^ k := Nat.two_pow_pos k
  have hmaskHigh : (0xF000 + (2 ^ k - 1)) / 2 ^ 12 = 2 ^ 4 - 1 := by omega
  have hmaskLow : (0xF000 + (2 ^ k - 1)) % 2 ^ 12 = 2 ^ k - 1 := by omega
  have hhigh : (word.toNat &&& (0xF000 + (2 ^ k - 1))) / 2 ^ 12 = word.toNat / 0x1000 := by
    rw [Nat.and_div_two_pow, hmaskHigh, Nat.and_two_pow_sub_one_eq_mod]
    omega
  have hlow : (word.toNat &&& (0xF000 + (2 ^ k - 1))) % 2 ^ 12 = word.toNat % 2 ^ k := by
    rw [Nat.and_mod_two_pow, hmaskLow, Nat.and_two_pow_sub_one_eq_mod,
      Nat.mod_mod_of_dvd _ (Nat.pow_dvd_pow 2 hk)]
  have hparts := Nat.div_add_mod (word.toNat &&& (0xF000 + (2 ^ k - 1))) (2 ^ 12)
  rw [hhigh, hlow] at hparts
  omega

namespace Operation

/-- How many bits at the end of a word belong to the form of an operation. -/
def fixedBits : Operation → Nat
  | jump | loadValue | addValue | random | loadIndex => 0
  | move | or | and | xor | add | sub | shiftRight | subReversed | shiftLeft => 4
  | addIndex | storeBcd | storeRegisters | loadRegisters => 8

theorem toNat_mask_pattern (operation : Operation) :
    operation.pattern.mask.toNat = 0xF000 + (2 ^ operation.fixedBits - 1) := by
  cases operation <;> rfl

theorem fixedBits_le (operation : Operation) : operation.fixedBits ≤ 12 := by
  cases operation <;> decide

/-- Fitting a pattern, as an equation between numbers. -/
theorem covers_pattern_iff (operation : Operation) (word : Word) :
    operation.pattern.covers word ↔
      word.toNat / 0x1000 * 0x1000 + word.toNat % 2 ^ operation.fixedBits
        = operation.pattern.value.toNat := by
  rw [Pattern.covers, beq_iff_eq, ← UInt16.toNat_inj, UInt16.toNat_and, toNat_mask_pattern,
    Word.toNat_and_mask word operation.fixedBits_le]

/-- Two patterns that share a word agree on the bits that both look at. -/
theorem value_and_mask_comm {p q : Pattern} {word : Word} (hp : p.covers word)
    (hq : q.covers word) :
    p.value &&& q.mask = q.value &&& p.mask := by
  rw [Pattern.covers, beq_iff_eq] at hp hq
  rw [← hp, ← hq, UInt16.and_assoc, UInt16.and_assoc, UInt16.and_comm p.mask]

/-- No two entries of the catalog agree on the bits that both look at. -/
theorem value_and_mask_ne :
    ∀ p ∈ all, ∀ q ∈ all, p ≠ q →
      p.pattern.value &&& q.pattern.mask ≠ q.pattern.value &&& p.pattern.mask := by
  decide +kernel

/-- No word fits two patterns, so the order in which they are tried does not matter. -/
theorem operation_eq_of_covers {p q : Operation} {word : Word} (hp : p.pattern.covers word)
    (hq : q.pattern.covers word) : p = q := by
  apply Decidable.byContradiction
  intro hne
  exact value_and_mask_ne p (mem_all p) q (mem_all q) hne (value_and_mask_comm hp hq)

theorem pattern_mem_catalog (operation : Operation) : operation.pattern ∈ catalog := by
  rw [catalog, List.mem_map]
  exact ⟨operation, by cases operation <;> decide, rfl⟩

end Operation

namespace Word

/-- A pattern that is found for a word fits it. -/
theorem covers_of_pattern? {word : Word} {pattern : Pattern}
    (hfound : word.pattern? = some pattern) : pattern.covers word := by
  rw [pattern?] at hfound
  exact (List.find?_eq_some_iff_append.1 hfound).1

/-- The pattern that is found for a word is the pattern of the one operation whose form it
fits. -/
theorem pattern?_eq_some_iff {word : Word} {operation : Operation} :
    word.pattern? = some operation.pattern ↔ operation.pattern.covers word := by
  constructor
  · exact covers_of_pattern?
  · intro hcovers
    have hsome : word.pattern?.isSome := by
      rw [pattern?, List.find?_isSome]
      exact ⟨operation.pattern, operation.pattern_mem_catalog, hcovers⟩
    obtain ⟨pattern, hfound⟩ := Option.isSome_iff_exists.1 hsome
    obtain ⟨other, -, rfl⟩ := List.mem_map.1 (List.mem_of_find?_eq_some hfound)
    rw [Operation.operation_eq_of_covers hcovers (covers_of_pattern? hfound)]
    exact hfound

end Word

/-! ## Reading and writing are inverse -/

namespace Instruction

theorem operation_ofOperation (operation : Operation) (word : Word) :
    (ofOperation operation word).operation = operation := by
  cases operation <;> rfl

/-- A word is recognized as an instruction by the pattern of its operation. -/
theorem ofWord?_eq_some_iff_covers {word : Word} {instruction : Instruction} :
    ofWord? word = some instruction ↔
      instruction.operation.pattern.covers word ∧
        ofOperation instruction.operation word = instruction := by
  rw [ofWord?, Option.map_eq_some_iff]
  constructor
  · rintro ⟨pattern, hfound, rfl⟩
    obtain ⟨operation, -, rfl⟩ := List.mem_map.1 (List.mem_of_find?_eq_some hfound)
    rw [operation_ofOperation, Operation.operation_pattern]
    exact ⟨Word.covers_of_pattern? hfound, rfl⟩
  · rintro ⟨hcovers, hread⟩
    refine ⟨_, Word.pattern?_eq_some_iff.2 hcovers, ?_⟩
    rw [Operation.operation_pattern]
    exact hread

/-- A word that fits the form of an operation is the written form of what is read from it. -/
theorem encodes_ofOperation {operation : Operation} {word : Word}
    (hcovers : operation.pattern.covers word) :
    word.Encodes (ofOperation operation word) := by
  rw [Operation.covers_pattern_iff] at hcovers
  have hword : word.toNat < 2 ^ 16 := word.toNat_lt
  -- A field is a quotient or a remainder of the word, so both goals are linear for every form.
  constructor <;> cases operation <;>
    simp only [ofOperation, TargetFits, encode, Word.x, Word.y, Word.low, Word.target,
      Register.ofNat, Operation.pattern, Operation.fixedBits, UInt16.toNat_toUInt8,
      UInt16.toNat_mod, UInt16.reduceToNat] at hcovers ⊢ <;>
    omega

/-- The written form of an instruction fits the form of its operation. -/
theorem covers_of_encodes {word : Word} {instruction : Instruction}
    (hword : word.Encodes instruction) :
    instruction.operation.pattern.covers word := by
  obtain ⟨hfits, heq⟩ := hword
  rw [Operation.covers_pattern_iff, heq]
  cases instruction with
  | loadValue x value | addValue x value | random x value =>
      have hvalue : value.toNat < 2 ^ 8 := value.toNat_lt
      simp only [operation, encode, Operation.pattern, Operation.fixedBits, UInt16.reduceToNat]
      omega
  | _ =>
      simp only [operation, TargetFits, encode, Operation.pattern, Operation.fixedBits,
        UInt16.reduceToNat] at hfits ⊢
      omega

/-- The operands that are read from the written form of an instruction are those of the
instruction. -/
theorem ofOperation_of_encodes {word : Word} {instruction : Instruction}
    (hword : word.Encodes instruction) :
    ofOperation instruction.operation word = instruction := by
  obtain ⟨hfits, heq⟩ := hword
  cases instruction with
  | loadValue x value | addValue x value | random x value =>
      have hvalue : value.toNat < 2 ^ 8 := value.toNat_lt
      simp only [encode] at heq
      simp only [operation, ofOperation, loadValue.injEq, addValue.injEq, random.injEq, Word.x,
        Word.low, Register.ofNat, Fin.ext_iff, ← UInt8.toNat_inj, UInt16.toNat_toUInt8]
      omega
  | jump target | loadIndex target =>
      simp only [encode, TargetFits] at heq hfits
      simp only [operation, ofOperation, jump.injEq, loadIndex.injEq, Word.target,
        ← UInt16.toNat_inj, UInt16.toNat_mod, UInt16.reduceToNat]
      omega
  | _ =>
      simp only [encode] at heq
      simp only [operation, ofOperation, move.injEq, or.injEq, and.injEq, xor.injEq, add.injEq,
        sub.injEq, subReversed.injEq, shiftRight.injEq, shiftLeft.injEq, addIndex.injEq,
        storeBcd.injEq, storeRegisters.injEq, loadRegisters.injEq, Word.x, Word.y,
        Register.ofNat, Fin.ext_iff]
      omega

/-- **Recognizing is the inverse of writing.**  A word stands for an instruction if and only if
it is the written form of that instruction. -/
theorem ofWord?_eq_some_iff {word : Word} {instruction : Instruction} :
    ofWord? word = some instruction ↔ word.Encodes instruction := by
  rw [ofWord?_eq_some_iff_covers]
  constructor
  · rintro ⟨hcovers, hread⟩
    rw [← hread]
    exact encodes_ofOperation hcovers
  · intro hword
    exact ⟨covers_of_encodes hword, ofOperation_of_encodes hword⟩

/-- A word stands for nothing if and only if it is the written form of nothing. -/
theorem ofWord?_eq_none_iff_forall_not {word : Word} :
    ofWord? word = none ↔ ∀ instruction, ¬word.Encodes instruction := by
  rw [Option.eq_none_iff_forall_ne_some]
  exact forall_congr' fun instruction => not_congr ofWord?_eq_some_iff

/-- A word is the written form of at most one instruction. -/
theorem eq_of_encodes {word : Word} {first second : Instruction} (hfirst : word.Encodes first)
    (hsecond : word.Encodes second) : first = second := by
  rw [← ofWord?_eq_some_iff] at hfirst hsecond
  exact Option.some.inj (hfirst.symm.trans hsecond)

end Instruction

/-! ## The word that asks for a random byte -/

namespace Word

/-- Among the words, those that ask for a random byte are told by their first digit. -/
theorem draws_iff {word : Word} : word.Draws ↔ word.toNat / 0x1000 = 0xC := by
  constructor
  · rintro ⟨x, mask, -, heq⟩
    have hmask : mask.toNat < 2 ^ 8 := mask.toNat_lt
    rw [heq, Instruction.encode]
    omega
  · intro hdigit
    have hcovers : Operation.random.pattern.covers word := by
      rw [Operation.covers_pattern_iff]
      simp only [Operation.fixedBits, Operation.pattern, UInt16.reduceToNat]
      omega
    exact ⟨word.x, word.low, Instruction.encodes_ofOperation hcovers⟩

instance (word : Word) : Decidable word.Draws :=
  decidable_of_iff _ draws_iff.symm

end Word

end GoldenRom
