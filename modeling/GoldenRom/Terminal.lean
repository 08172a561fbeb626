/-!
# Plain text

A terminal takes some characters for orders and does not show them: a control character by
itself, or all that stands between an escape character and the end of the sequence that it
opens.  A text that may hold such characters is made plain before it is written to where no
terminal reads it.

## Main definitions

* `TerminalMode`: what a terminal takes the next character for.
* `TerminalMode.shows`, `TerminalMode.next`: whether it shows a character, and what comes after
  one that it does not show.
* `plainText`: the characters of a text that are shown.

### Design notes

Four kinds of blank space (tab, line break, page break, carriage return) are shown inside an
escape sequence too, but not inside a string.  They interrupt the sequence: what follows them is
text, up to the next character that is not shown, where the sequence goes on.  A character
outside ASCII interrupts nothing inside a sequence, and ends for good one that was interrupted.
-/

namespace GoldenRom

/-- What a terminal takes the next character for. -/
inductive TerminalMode where
  /-- Text that is shown. -/
  | text
  /-- What an escape character is followed by. -/
  | escape
  /-- The end of an escape sequence, behind a character that only leads to it. -/
  | intermediate
  /-- A control sequence: parameters, and a letter that ends it. -/
  | control
  /-- The head of a device string, nothing of which has been read. -/
  | deviceEntry
  /-- The parameters in the head of a device string. -/
  | deviceParameters
  /-- The end of the head of a device string, behind a character that only leads to it. -/
  | deviceIntermediate
  /-- A string that ends with a string terminator. -/
  | string
  /-- A system command, which ends with a bell. -/
  | command
deriving DecidableEq

/-- Whether the code of a character lies between two bounds. -/
def codeWithin (first last : Nat) (c : Char) : Bool :=
  first ≤ c.toNat && c.toNat ≤ last

/-- Whether a control character stands for blank space. -/
def isControlBlank (c : Char) : Bool :=
  c = '\t' || c = '\n' || c = '\x0c' || c = '\r'

/-- Whether a character holds a string terminator, which is a byte of its encoding. -/
def holdsTerminator (c : Char) : Bool :=
  (String.utf8EncodeChar c).contains 0x9c

namespace TerminalMode

/-- Whether a terminal shows a character. -/
def shows : TerminalMode → Char → Bool
  | text, c => isControlBlank c || (0x20 ≤ c.toNat && c ≠ '\x7f')
  | escape, c | intermediate, c | control, c => isControlBlank c
  | deviceEntry, _ | deviceParameters, _ | deviceIntermediate, _ | string, _ | command, _ =>
      false

/-- What a terminal takes a character for that comes behind one that it does not show.  Wherever
they stand, two characters break a sequence off and the escape character opens a new one. -/
def next (mode : TerminalMode) (c : Char) : TerminalMode :=
  if c = '\x18' ∨ c = '\x1a' then text
  else if c = '\x1b' then escape
  else match mode with
    | text => text
    | escape =>
        if codeWithin 0x20 0x2f c then intermediate
        else if c = 'P' then deviceEntry
        else if c = 'X' ∨ c = '^' ∨ c = '_' then string
        else if c = '[' then control
        else if c = ']' then command
        else if codeWithin 0x30 0x7e c then text
        else escape
    | intermediate => if codeWithin 0x30 0x7e c then text else intermediate
    | control => if codeWithin 0x40 0x7e c then text else control
    | deviceEntry =>
        if codeWithin 0x20 0x2f c then deviceIntermediate
        else if codeWithin 0x30 0x3f c then deviceParameters
        else if codeWithin 0x40 0x7e c then string
        else deviceEntry
    | deviceParameters =>
        if codeWithin 0x20 0x2f c then deviceIntermediate
        else if codeWithin 0x3c 0x7e c then string
        else deviceParameters
    | deviceIntermediate => if codeWithin 0x30 0x7e c then string else deviceIntermediate
    | string => if holdsTerminator c then text else string
    | command => if c = '\x07' then text else command

/-- What a terminal takes the next character for while a sequence may be interrupted. -/
def current (mode : TerminalMode) (interrupted : Bool) : TerminalMode :=
  if interrupted then text else mode

/-- The characters that are shown.  While `interrupted` is set, characters are taken for text,
and `mode` is the sequence that goes on with the first one that is not shown. -/
def shown (mode : TerminalMode) (interrupted : Bool) : List Char → List Char
  | [] => []
  | c :: rest =>
      if (mode.current interrupted).shows c then
        c :: shown (if c.toNat < 0x80 then mode else text) true rest
      else shown (mode.next c) false rest

end TerminalMode

/-- A text without the characters that a terminal would not show. -/
def plainText (text : String) : String :=
  String.ofList (TerminalMode.text.shown false text.toList)

end GoldenRom
