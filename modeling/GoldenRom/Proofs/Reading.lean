import GoldenRom.Proofs.Numerals

/-!
# Reading texts

A text is read from its front.  `Reads` says of a reader that it takes exactly a given text for
a given value, whatever follows; the statement is closed under sequence and separation, so that
what is said of a field carries over to a line and from there to a whole text, with no position
ever computed.

## Main definitions

* `Reader`, `Reader.literal`, `Reader.numeral`, `Reader.separated`: readers of the front of a
  text.
* `Reader.all`: a reader that has to use up the text.
* `Reads`: what a reader makes of a text.
* `Numeral.digitOf?`: the digit that a character is written for.
-/

namespace GoldenRom

/-- Takes what it reads off the front of a text, and fails on a text that begins otherwise. -/
abbrev Reader : Type → Type := StateT (List Char) Option

/-- A reader takes a text for a value, whatever follows the text. -/
def Reads {α : Type} (reader : Reader α) (text : List Char) (value : α) : Prop :=
  ∀ rest, reader (text ++ rest) = some (value, rest)

namespace Reader

variable {α : Type}

/-- Reads a fixed text. -/
def literal (text : List Char) : Reader Unit := fun cs =>
  if text.isPrefixOf cs then some ((), cs.drop text.length) else none

/-- Reads a numeral of a fixed width.  Which digit a character stands for is up to `digit?`. -/
def numeral (digit? : Char → Option Nat) (base width : Nat) : Reader Nat := fun cs =>
  if width ≤ cs.length then
    ((cs.take width).mapM digit?).map fun ds => (Numeral.value base ds, cs.drop width)
  else none

/-- Reads one item after the other, with a fixed text between them. -/
def separated (separator : List Char) : List (Reader α) → Reader (List α)
  | [] => pure []
  | [last] => do
      return [← last]
  | first :: second :: rest => do
      let value ← first
      literal separator
      return value :: (← separated separator (second :: rest))

/-- Reads all of a text. -/
def all (reader : Reader α) (text : List Char) : Option α :=
  match reader text with
  | some (value, []) => some value
  | _ => none

end Reader

/-! ## What readers make of texts -/

variable {α β ι : Type}

theorem Reads.pure (value : α) : Reads (pure value) [] value :=
  fun _ => rfl

/-- What is read after a text may depend on what has been read from it. -/
theorem Reads.bind {first : Reader α} {next : α → Reader β} {text more : List Char} {a : α}
    {b : β} (hfirst : Reads first text a) (hnext : Reads (next a) more b) :
    Reads (first >>= next) (text ++ more) b := by
  intro rest
  show (first (text ++ more ++ rest)).bind (fun found => next found.1 found.2) = some (b, rest)
  rw [List.append_assoc, hfirst, Option.bind_some]
  exact hnext rest

/-- The last thing to do is to make a value of what has been read. -/
theorem Reads.map {reader : Reader α} {text : List Char} {a : α}
    (hreader : Reads reader text a) (f : α → β) :
    Reads (do return f (← reader)) text (f a) := by
  have hpure : Reads (Pure.pure (f a)) [] (f a) := .pure (f a)
  have hbind : Reads (reader >>= fun value => Pure.pure (f value)) (text ++ []) (f a) :=
    hreader.bind hpure
  rwa [List.append_nil] at hbind

theorem reads_literal (text : List Char) : Reads (Reader.literal text) text () := by
  intro rest
  rw [Reader.literal, if_pos (List.isPrefixOf_iff_prefix.2 (List.prefix_append text rest)),
    List.drop_left]

theorem reads_numeral {digit? : Char → Option Nat} {text : List Char} {ds : List Nat}
    (base : Nat) (hdigits : text.mapM digit? = some ds) :
    Reads (Reader.numeral digit? base text.length) text (Numeral.value base ds) := by
  intro rest
  rw [Reader.numeral, if_pos (by simp), List.take_left, List.drop_left, hdigits]
  rfl

/-- Items that are read as what they are written for are so read from a text that separates
them. -/
theorem reads_separated {separator : List Char} {reader : ι → Reader α} {text : ι → List Char}
    {value : ι → α} {items : List ι}
    (hitems : ∀ item ∈ items, Reads (reader item) (text item) (value item)) :
    Reads (Reader.separated separator (items.map reader))
      (separator.intercalate (items.map text))
      (items.map value) := by
  induction items with
  | nil => exact .pure []
  | cons first rest ih =>
      have hfirst := hitems first List.mem_cons_self
      have hrest := ih fun item hmem => hitems item (List.mem_cons_of_mem first hmem)
      cases rest with
      | nil =>
          rw [List.map_singleton, List.map_singleton, List.intercalate_singleton]
          exact hfirst.map fun value => [value]
      | cons second rest =>
          simp only [List.map_cons, List.intercalate_cons_cons, List.append_assoc] at hrest ⊢
          exact hfirst.bind ((reads_literal separator).bind (hrest.map fun values =>
            value first :: values))

/-- A text that is read is read as a whole. -/
theorem Reads.all_eq {reader : Reader α} {text : List Char} {value : α}
    (hreader : Reads reader text value) : reader.all text = some value := by
  have hrest := hreader []
  rw [List.append_nil] at hrest
  rw [Reader.all, hrest]

/-- Reading every item of a list. -/
theorem mapM_map_eq_some {read : β → Option α} {text : ι → β} {value : ι → α} {items : List ι}
    (hitems : ∀ item ∈ items, read (text item) = some (value item)) :
    (items.map text).mapM read = some (items.map value) := by
  induction items with
  | nil => rfl
  | cons first rest ih =>
      have hrest := ih fun item hmem => hitems item (List.mem_cons_of_mem first hmem)
      rw [List.map_cons, List.mapM_cons, hitems first List.mem_cons_self, hrest]
      rfl

/-! ## Numerals -/

namespace Numeral

/-- The digit that a character is written for. -/
def digitOf? (written : Nat → Char) (base : Nat) (c : Char) : Option Nat :=
  (List.range base).find? fun digit => written digit == c

/-- The digit that a character of a right-aligned decimal number stands for.  A blank stands
where a zero might. -/
def columnDigit? (c : Char) : Option Nat :=
  if c = ' ' then some 0 else digitOf? Nat.digitChar 10 c

theorem digitOf?_digitChar :
    ∀ digit < 16, digitOf? Nat.digitChar 16 (Nat.digitChar digit) = some digit := by
  decide

theorem digitOf?_upperDigit :
    ∀ digit < 16, digitOf? upperDigit 16 (upperDigit digit) = some digit := by
  decide

theorem columnDigit?_digitChar :
    ∀ digit < 10, columnDigit? (Nat.digitChar digit) = some digit := by
  decide

/-- A number that fills the width is read back from its digits. -/
theorem reads_map_digits {written : Nat → Char} {digit? : Char → Option Nat}
    {base width n : Nat} (hbase : 2 ≤ base)
    (hdigit : ∀ digit < base, digit? (written digit) = some digit) (hn : n < base ^ width) :
    Reads (Reader.numeral digit? base width) ((digits base width n).map written) n := by
  have hread : ((digits base width n).map written).mapM digit? =
      some ((digits base width n).map id) :=
    mapM_map_eq_some fun digit hmem => hdigit digit (digit_lt_of_mem_digits (by omega) hmem)
  have hreads := reads_numeral base hread
  rwa [List.map_id, value_digits hbase, List.length_map, length_digits_of_lt hn] at hreads

theorem reads_hex {width n : Nat} (hn : n < 16 ^ width) :
    Reads (Reader.numeral (digitOf? Nat.digitChar 16) 16 width) (hex width n).toList n := by
  rw [hex, String.toList_ofList]
  exact reads_map_digits (by decide) digitOf?_digitChar hn

theorem reads_hexUpper {width n : Nat} (hn : n < 16 ^ width) :
    Reads (Reader.numeral (digitOf? upperDigit 16) 16 width) (hexUpper width n).toList n := by
  rw [hexUpper, String.toList_ofList]
  exact reads_map_digits (by decide) digitOf?_upperDigit hn

/-- A number that does not overflow its columns is read back from them. -/
theorem reads_alignRight_decimal {width n : Nat} (hwidth : 0 < width) (hn : n < 10 ^ width) :
    Reads (Reader.numeral columnDigit? 10 width) (alignRight width (decimal n)).toList n := by
  have hlength : (digits 10 1 n).length ≤ width := by
    rw [digits_eq, List.length_leftpad, List.length_reverse]
    exact Nat.max_le.2 ⟨hwidth, length_lastFirst_le hn⟩
  have hblanks :
      ((List.range (width - (digits 10 1 n).length)).map fun _ => ' ').mapM columnDigit? =
        some ((List.range (width - (digits 10 1 n).length)).map fun _ => 0) :=
    mapM_map_eq_some fun _ _ => rfl
  have hown : ((digits 10 1 n).map Nat.digitChar).mapM columnDigit? =
      some ((digits 10 1 n).map id) :=
    mapM_map_eq_some fun digit hmem =>
      columnDigit?_digitChar digit (digit_lt_of_mem_digits (by decide) hmem)
  rw [List.map_const', List.map_const', List.length_range] at hblanks
  have hread : (alignRight width (decimal n)).toList.mapM columnDigit? =
      some ((digits 10 1 n).leftpad width 0) := by
    rw [alignRight, decimal, String.toList_ofList, String.toList_ofList, List.leftpad,
      List.length_map, List.mapM_append, hblanks, hown, List.map_id]
    rfl
  have hreads := reads_numeral 10 hread
  rw [value_leftpad, value_digits (by decide), alignRight, decimal, String.toList_ofList,
    String.toList_ofList, List.length_leftpad, List.length_map,
    Nat.max_eq_left hlength] at hreads
  rwa [alignRight, decimal, String.toList_ofList, String.toList_ofList]

end Numeral

end GoldenRom
