import GoldenRom.Terminal

/-!
# Log lines

What the bench tells about its own work, apart from what it reports.  Every line has a level,
and who reads a log names the least level that is wanted.

## Main definitions

* `LogLevel`, in rising order, and `LogLine`.
* `LogLine.atLeast`: the lines of a log that are wanted.
* `LogLine.text`: the written form, which is plain text.
-/

namespace GoldenRom

/-- How much a log line matters, the least first. -/
inductive LogLevel where
  | trace
  | debug
  | info
  | warn
  | error
deriving DecidableEq, Ord

/-- The written name of a level. -/
def LogLevel.name : LogLevel → String
  | trace => "TRACE"
  | debug => "DEBUG"
  | info => "INFO"
  | warn => "WARN"
  | error => "ERROR"

/-- One line of a log. -/
structure LogLine where
  level : LogLevel
  message : String
deriving DecidableEq

namespace LogLine

/-- Whether a line is wanted by a reader who names the least level. -/
def reaches (least : LogLevel) (line : LogLine) : Bool :=
  (compare least line.level).isLE

/-- The lines of a log that are wanted. -/
def atLeast (least : LogLevel) (log : List LogLine) : List LogLine :=
  log.filter (·.reaches least)

/-- A message whose own line breaks are followed by four blanks, so that a bracket at the start
of a line begins a new message. -/
def indented (line : LogLine) : String :=
  String.ofList (line.message.toList.flatMap fun c => if c = '\n' then "\n    ".toList else [c])

/-- A line as it is written: the level in brackets, the message and a line break, made plain
together.  An unfinished control sequence in the message can so take the line break with it. -/
def text (line : LogLine) : String :=
  plainText ("[" ++ line.level.name ++ "] " ++ line.indented ++ "\n")

end LogLine

end GoldenRom
