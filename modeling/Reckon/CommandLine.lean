import Reckon.Session
import Reckon.Text.Lines

/-!
# The command line

The program evaluates its arguments, or the lines of the files that they name, or, if there are
none, the lines of its standard input, all in one session. Each becomes an entry; an input that
cannot be read becomes an entry that stops the program.

* `-f`, `--file`: the arguments name files. Their lines are trimmed, and those that are blank or
  start with `#` are skipped. Of standard input only blank lines are skipped.
* `-h`, `--help`: print what the program does and takes.
* `-V`, `--version`: print the version.
* `--`: all that follows is no option.

Values go to standard output, errors to standard error. The exit status is 0 if everything had a
value, 1 if not, and 2 if the arguments could not be understood.

Follows `Args` and `run_line` (specification, 10.4). How the help is laid out, and what stands in
the message about arguments that are not understood, is up to the parser of the arguments; the
texts in the help are those of `Args` and of the package.
-/

namespace Reckon

/-- What the program is asked to do. -/
inductive Invocation
  | help
  | version
  /-- The arguments are not understood. -/
  | misuse
  | expressions (texts : List String)
  | files (paths : List String)
  | standardInput
deriving DecidableEq

namespace Invocation

/-- The options. -/
inductive Flag
  | file
  | help
  | version
  | unknown
deriving DecidableEq

/-- The options in an argument, or nothing if it is none. Single letters may stand together behind
one dash. -/
def flags? (argument : String) : Option (List Flag) :=
  match argument.toList with
  | '-' :: '-' :: _ =>
    if argument = "--file" then some [.file]
    else if argument = "--help" then some [.help]
    else if argument = "--version" then some [.version]
    else some [.unknown]
  | '-' :: letter :: letters => some ((letter :: letters).map ofLetter)
  | _ => none
where
  /-- The option of a single letter. -/
  ofLetter (c : Char) : Flag :=
    if c = 'f' then .file else if c = 'h' then .help else if c = 'V' then .version else .unknown

/-- Whether arguments are files after these options; each may be given once. The first option that
ends the reading of the arguments wins. -/
def setFlags (files : Bool) : List Flag → Except Invocation Bool
  | [] => .ok files
  | .file :: rest => if files then .error .misuse else setFlags true rest
  | .help :: _ => .error .help
  | .version :: _ => .error .version
  | .unknown :: _ => .error .misuse

/-- What to do with these arguments. -/
def choose (files : Bool) (operands : List String) : Invocation :=
  if operands = [] then .standardInput else if files then .files operands else .expressions operands

/-- What the rest of the arguments ask for, after these options and operands. -/
def go (files : Bool) (operands : List String) : List String → Invocation
  | [] => choose files operands
  | argument :: rest =>
    if argument = "--" then choose files (operands ++ rest)
    else
      match flags? argument with
      | none => go files (operands ++ [argument]) rest
      | some flags =>
        match setFlags files flags with
        | .ok files => go files operands rest
        | .error invocation => invocation

/-- What the arguments ask for. -/
def ofArguments (arguments : List String) : Invocation := go false [] arguments

end Invocation

/-- One piece of input. -/
inductive Entry
  /-- A text to evaluate. -/
  | text (text : String)
  /-- An input that cannot be read, with the message that says so. -/
  | unreadable (message : String)
deriving DecidableEq

namespace Entry

/-- Whether nothing but white space is in a line. -/
def isBlankLine (line : List Char) : Bool := (Text.trim line).isEmpty

/-- The entries of the lines of standard input, up to the first that is not UTF-8. -/
def ofInputLines : List (List UInt8) → List Entry
  | [] => []
  | line :: rest =>
    match String.fromUTF8? ⟨line.toArray⟩ with
    | none => [unreadable "error: failed to read standard input"]
    | some line =>
      if isBlankLine line.toList then ofInputLines rest else text line :: ofInputLines rest

/-- The entries of standard input. -/
def ofInput (input : ByteArray) : List Entry :=
  ofInputLines (Text.lines 10 13 input.toList)

/-- The entries of a file's text. -/
def ofFileText (contents : List Char) : List Entry :=
  (((Text.lines '\n' '\r' contents).map Text.trim).filter fun line =>
    !line.isEmpty && line.head? ≠ some '#').map fun line => text (String.ofList line)

/-- The message about a file that cannot be read. -/
def unreadableFile (path : String) : String :=
  "Failed to read the input file '" ++ path ++ "'. Perhaps this file does not exist?"

/-- The entries of a file, which has to be there and be UTF-8. -/
def ofFile (contents? : String → Option ByteArray) (path : String) : List Entry :=
  match (contents? path).bind String.fromUTF8? with
  | some contents => ofFileText contents.toList
  | none => [unreadable (unreadableFile path)]

end Entry

/-- A line of output. -/
inductive Output
  | value (line : String)
  | error (line : String)
deriving DecidableEq

/-- What the program has printed, and its exit status. -/
structure Outcome where
  output : List Output
  status : Nat
deriving DecidableEq

namespace Session

/-- Evaluates a text and gives the line to print. -/
def answer (s : Session) (text : String) : Output × Session :=
  match s.evaluate text with
  | (.ok value, s) => (.value value, s)
  | (.error e, s) => (.error ("error: " ++ e.message), s)

/-- Evaluates entries; `good` says that everything before them had a value. -/
def process (s : Session) (good : Bool) : List Entry → Outcome
  | [] => ⟨[], if good then 0 else 1⟩
  | .unreadable message :: _ => ⟨[.error message], 1⟩
  | .text text :: rest =>
    let (line, s) := s.answer text
    let good := good && match line with
      | .value _ => true
      | .error _ => false
    let outcome := s.process good rest
    ⟨line :: outcome.output, outcome.status⟩

end Session

/-- The version that the program prints. -/
def version : String := "decicalc 0.1.0"

/-- The help that the program prints. -/
def help : List String := [
  "An arbitrary-precision decimal calculator: lexer, precedence-climbing parser and AST evaluator",
  "",
  "Usage: decicalc [OPTIONS] [EXPRESSIONS]...",
  "",
  "Arguments:",
  "  [EXPRESSIONS]...  Expressions (or files with `--file`). " ++
    "Standard input is read line by line when none are given",
  "",
  "Options:",
  "  -f, --file     Treat the arguments as files and evaluate each line. " ++
    "Blank lines and lines starting with `#` are skipped",
  "  -h, --help     Print help",
  "  -V, --version  Print version"]

namespace Invocation

/-- The entries of an invocation. -/
def entries (invocation : Invocation) (input : ByteArray)
    (contents? : String → Option ByteArray) : List Entry :=
  match invocation with
  | expressions texts => texts.map .text
  | files paths => paths.flatMap (Entry.ofFile contents?)
  | standardInput => Entry.ofInput input
  | help | version | misuse => []

/-- What the program prints, given its standard input, the contents of the files and a source of
random numbers. -/
def outcome (invocation : Invocation) (input : ByteArray)
    (contents? : String → Option ByteArray) (random : RandomSource) : Outcome :=
  match invocation with
  | help => ⟨Reckon.help.map .value, 0⟩
  | version => ⟨[.value Reckon.version], 0⟩
  | misuse => ⟨[.error "error: unexpected argument"], 2⟩
  | _ => (Session.new random).process true (invocation.entries input contents?)

end Invocation

end Reckon
