import GoldenRom.Check.OutputTest
import GoldenRom.Files.Path

/-!
# Arguments

A command line consists of general options, the name of a command, and the options and operands
of that command.  The general options may stand on either side of the name.  An option has a
long form, `--seed 7` or `--seed=7`, and a short one, `-s 7`, `-s7` or `-s=7`; short forms can
be drawn together as in `-vs 7`.  Behind a `--` everything is an operand.

## Main definitions

* `Flag`: the options, with their forms.
* `readArgument`: one argument by its form.
* `readArguments`: all arguments of a level, as settings and operands.
* `Settings.ofList?`: the settings as a record; none may be made twice on one level.
* `Invocation.ofArguments?`: what a command line asks for, nothing if it is malformed.

### Design notes

A value that stands as an argument of its own must not look like an option; a single `-` does
not.  A setting on the right of the command's name wins over the same setting on its left.
-/

namespace GoldenRom

/-- An option of the command line. -/
inductive Flag where
  /-- Tell more in the log. -/
  | verbose
  /-- The seed of the random words. -/
  | seed
  /-- The number of steps that a program is given. -/
  | maxCycles
  /-- Whether an incorrect result becomes the new baseline. -/
  | rebase
deriving DecidableEq

namespace Flag

/-- The long form of an option, without its dashes. -/
def long : Flag → String
  | verbose => "verbose"
  | seed => "seed"
  | maxCycles => "max-cycles"
  | rebase => "rebase"

/-- The short form of an option, without its dash. -/
def short : Flag → Char
  | verbose => 'v'
  | seed => 's'
  | maxCycles => 'm'
  | rebase => 'r'

/-- Whether an option has a value. -/
def takesValue : Flag → Bool
  | verbose | rebase => false
  | seed | maxCycles => true

end Flag

/-- An option that has been read, with its value if it has one. -/
structure Setting where
  flag : Flag
  value : String := ""
deriving DecidableEq

/-- What one argument is by its form. -/
inductive Argument where
  /-- Options, complete with their values. -/
  | settings (settings : List Setting)
  /-- Options, and one more whose value is the next argument. -/
  | awaiting (settings : List Setting) (flag : Flag)
  /-- Neither an option nor a value. -/
  | operand (text : String)
  /-- Everything behind this argument is an operand. -/
  | separator
  /-- An option that is not known, or one with a value that it does not take. -/
  | unknown
deriving DecidableEq

/-- An argument with a setting put in front. -/
def Argument.after (setting : Setting) : Argument → Argument
  | settings rest => settings (setting :: rest)
  | awaiting rest flag => awaiting (setting :: rest) flag
  | other => other

/-- Reads short forms drawn together.  The first option that takes a value has the rest of the
text as its value, less a leading `=`. -/
def readShort (known : List Flag) : List Char → Argument
  | [] => .settings []
  | c :: rest => match known.find? (·.short == c) with
    | none => .unknown
    | some flag =>
        if flag.takesValue then
          match rest with
          | [] => .awaiting [] flag
          | '=' :: value => .settings [⟨flag, String.ofList value⟩]
          | value => .settings [⟨flag, String.ofList value⟩]
        else
          (readShort known rest).after ⟨flag, ""⟩

/-- Reads a long form, with or without a value behind an `=`. -/
def readLong (known : List Flag) (body : List Char) : Argument :=
  let name := String.ofList (body.takeWhile (· != '='))
  let value? := match body.dropWhile (· != '=') with
    | [] => none
    | _ :: value => some (String.ofList value)
  match known.find? (·.long == name), value? with
  | none, _ => .unknown
  | some flag, none => if flag.takesValue then .awaiting [] flag else .settings [⟨flag, ""⟩]
  | some flag, some value => if flag.takesValue then .settings [⟨flag, value⟩] else .unknown

/-- Reads one argument where the given options are known. -/
def readArgument (known : List Flag) (argument : String) : Argument :=
  match argument.toList with
  | ['-', '-'] => .separator
  | '-' :: '-' :: body => readLong known body
  | ['-'] => .operand argument
  | '-' :: body => readShort known body
  | _ => .operand argument

/-- Whether an argument may be the value of the option in front of it. -/
def isDetachedValue (argument : String) : Bool :=
  argument == "-" || argument.toList.head? != some '-'

/-- Reads the options up to the first operand, and leaves that operand and what follows it.  A
separator in front of the operand is malformed. -/
def readLeading (known : List Flag) : List String → Option (List Setting × List String)
  | [] => some ([], [])
  | argument :: rest => match readArgument known argument with
    | .operand _ => some ([], argument :: rest)
    | .settings settings =>
        (readLeading known rest).map fun (more, left) => (settings ++ more, left)
    | .awaiting settings flag => match rest with
      | value :: rest =>
          if isDetachedValue value then
            (readLeading known rest).map fun (more, left) =>
              (settings ++ ⟨flag, value⟩ :: more, left)
          else none
      | [] => none
    | .separator | .unknown => none

/-- Reads options and operands in any order, all of them. -/
def readArguments (known : List Flag) : List String → Option (List Setting × List String)
  | [] => some ([], [])
  | argument :: rest => match readArgument known argument with
    | .operand text =>
        (readArguments known rest).map fun (settings, operands) => (settings, text :: operands)
    | .settings settings =>
        (readArguments known rest).map fun (more, operands) => (settings ++ more, operands)
    | .awaiting settings flag => match rest with
      | value :: rest =>
          if isDetachedValue value then
            (readArguments known rest).map fun (more, operands) =>
              (settings ++ ⟨flag, value⟩ :: more, operands)
          else none
      | [] => none
    | .separator => some ([], rest)
    | .unknown => none

/-- The number that a list of decimal digits stands for, if there is a digit and nothing
else. -/
def readDigits (digits : List Char) : Option Nat :=
  if digits ≠ [] ∧ digits.all Char.isDigit then
    some (Numeral.value 10 (digits.map fun c => c.toNat - '0'.toNat))
  else none

/-- A decimal number below two to the power of sixty-four, with or without a leading `+`. -/
def readNumber (text : String) : Option Nat :=
  let digits := match text.toList with
    | '+' :: digits => digits
    | digits => digits
  (readDigits digits).filter (· < UInt64.size)

/-- The settings of one level as a record. -/
structure Settings where
  verbose : Bool := false
  seed? : Option Nat := none
  maxCycles? : Option Nat := none
  rebase : Bool := false
deriving DecidableEq

namespace Settings

/-- The record with one more setting, unless it has been made before or its value is no
number. -/
def insert? (settings : Settings) (setting : Setting) : Option Settings :=
  match setting.flag with
  | .verbose => if settings.verbose then none else some { settings with verbose := true }
  | .rebase => if settings.rebase then none else some { settings with rebase := true }
  | .seed =>
      if settings.seed?.isSome then none
      else (readNumber setting.value).map fun n => { settings with seed? := some n }
  | .maxCycles =>
      if settings.maxCycles?.isSome then none
      else (readNumber setting.value).map fun n => { settings with maxCycles? := some n }

/-- The record of a list of settings. -/
def ofList? (settings : List Setting) : Option Settings :=
  settings.foldlM insert? {}

end Settings

/-- What the program is to do. -/
inductive Command where
  /-- Run one ROM and print the final state. -/
  | run (path : Path) (maxCycles : Nat)
  /-- Run the tests below the given paths. -/
  | test (rebase : Bool) (searchPaths : List Path)
deriving DecidableEq

/-- A command with the general settings. -/
structure Invocation where
  verbose : Bool
  seed : UInt64
  command : Command
deriving DecidableEq

namespace Invocation

/-- The options that may stand on either side of the name of the command. -/
def generalFlags : List Flag := [.verbose, .seed]

/-- The command of the given name, with its own settings and operands.  No path may be empty. -/
def readCommand (name : String) (settings : Settings) (operands : List String) :
    Option Command :=
  if operands.contains "" then none
  else match name, operands with
    | "run", [path] => some (.run ⟨path⟩ (settings.maxCycles?.getD stepLimit))
    | "test", path :: paths => some (.test settings.rebase (⟨path⟩ :: paths.map Path.mk))
    | _, _ => none

/-- The options that a command of the given name knows besides the general ones. -/
def commandFlags (name : String) : List Flag :=
  if name = "run" then [.maxCycles] else if name = "test" then [.rebase] else []

/-- What a command line asks for. -/
def ofArguments? (arguments : List String) : Option Invocation := do
  let (leading, rest) ← readLeading generalFlags arguments
  let general ← Settings.ofList? leading
  match rest with
  | [] => none
  | name :: rest =>
      let (own, operands) ← readArguments (generalFlags ++ commandFlags name) rest
      let settings ← Settings.ofList? own
      let command ← readCommand name settings operands
      return {
        verbose := general.verbose || settings.verbose
        seed := ((settings.seed?.or general.seed?).map Nat.toUInt64).getD defaultSeed
        command }

end Invocation

end GoldenRom
