import SourceTally.Header
import SourceTally.Path.Basic

/-!
# Command line options

Options and paths may come in any order. A flag stands by itself; flags of one letter may share a
hyphen. A setting takes a value, behind an equals sign, behind its letter, or as the next argument
unless that looks like an option. Patterns and `-v` may be repeated, no other option may. Behind
`--` everything is a path. `Request.ofArgs` reads the arguments from left to right and stops at the
first mistake, or at an option that asks for the version or for help.
-/

namespace SourceTally

/-- The form of the output. -/
inductive OutputForm where
  | table
  | json
  deriving DecidableEq, Repr

/-- What the command line asks for. -/
structure Options where
  paths : List Path := []
  included : List String := []
  excluded : List String := []
  language : Option String := none
  byFile : Bool := false
  output : Option OutputForm := none
  settings : Option Path := none
  noHeader : Bool := false
  headerStyle : Option HeaderStyle := none
  jobs : Option Nat := none
  lines : Bool := false
  verbosity : Nat := 0
  deriving DecidableEq, Repr

/-- An option without a value. -/
inductive Flag where
  | byFile
  | noHeader
  | lines
  | verbose
  | version
  | help
  deriving DecidableEq, Repr

/-- An option with a value. -/
inductive Setting where
  | included
  | excluded
  | language
  | output
  | settings
  | headerStyle
  | jobs
  deriving DecidableEq, Repr

/-- A mistake on the command line. -/
inductive UsageError where
  | unknownOption (option : String)
  | unexpectedValue (option : String)
  | missingValue (option : String)
  | invalidValue (option value : String)
  | repeated (option : String)
  | emptyPath
  deriving DecidableEq, Repr

/-- The mistake, said to a user. -/
def UsageError.message : UsageError → String
  | .unknownOption option => "unexpected argument '" ++ option ++ "' found"
  | .unexpectedValue option => "no value is expected for '" ++ option ++ "'"
  | .missingValue option => "a value is required for '" ++ option ++ "'"
  | .invalidValue option value => "invalid value '" ++ value ++ "' for '" ++ option ++ "'"
  | .repeated option => "the argument '" ++ option ++ "' cannot be used multiple times"
  | .emptyPath => "a path must not be empty"

/-- What a command line comes to. -/
inductive Request where
  | run (options : Options)
  | version
  | help
  deriving DecidableEq, Repr

namespace Flag

/-- The flag of a long name. -/
def ofName? : String → Option Flag
  | "by-file" => some .byFile
  | "no-header" => some .noHeader
  | "lines" => some .lines
  | "verbose" => some .verbose
  | "version" => some .version
  | "help" => some .help
  | _ => none

/-- The flag of a letter. -/
def ofLetter? : Char → Option Flag
  | 'f' => some .byFile
  | 'v' => some .verbose
  | 'V' => some .version
  | 'h' => some .help
  | _ => none

/-- The options with a flag raised. -/
def raise (o : Options) (option : String) : Flag → Except UsageError Request
  | .byFile => if o.byFile then .error (.repeated option) else .ok (.run { o with byFile := true })
  | .noHeader =>
    if o.noHeader then .error (.repeated option) else .ok (.run { o with noHeader := true })
  | .lines => if o.lines then .error (.repeated option) else .ok (.run { o with lines := true })
  | .verbose => .ok (.run { o with verbosity := o.verbosity + 1 })
  | .version => .ok .version
  | .help => .ok .help

end Flag

namespace Setting

/-- The setting of a long name. -/
def ofName? : String → Option Setting
  | "include" => some .included
  | "exclude" => some .excluded
  | "language" => some .language
  | "output" => some .output
  | "config" => some .settings
  | "header-style" => some .headerStyle
  | "jobs" => some .jobs
  | _ => none

/-- The setting of a letter. -/
def ofLetter? : Char → Option Setting
  | 'i' => some .included
  | 'e' => some .excluded
  | 'l' => some .language
  | 'o' => some .output
  | 'c' => some .settings
  | 'j' => some .jobs
  | _ => none

/-- The number that decimal digits stand for, a plus sign in front allowed, if it fits 64 bits. -/
def jobs? (value : String) : Option Nat :=
  let digits :=
    match value.toList with
    | '+' :: rest => rest
    | digits => digits
  if digits.isEmpty || !digits.all Char.isDigit then none
  else
    let n := digits.foldl (fun n c => n * 10 + (c.toNat - '0'.toNat)) 0
    if n ≤ 0xFFFFFFFFFFFFFFFF then some n else none

/-- The form of output of a name. -/
def outputForm? : String → Option OutputForm
  | "table" => some .table
  | "json" => some .json
  | _ => none

/-- The options with a setting made that may be made once. -/
def once {α : Type} (before value : Option α) (option text : String) (store : α → Options) :
    Except UsageError Options :=
  match before, value with
  | some _, _ => .error (.repeated option)
  | none, some v => .ok (store v)
  | none, none => .error (.invalidValue option text)

/-- The options with a setting made. -/
def store (o : Options) (option value : String) : Setting → Except UsageError Options
  | .included => .ok { o with included := o.included ++ [value] }
  | .excluded => .ok { o with excluded := o.excluded ++ [value] }
  | .language => once o.language (some value) option value fun v => { o with language := some v }
  | .output =>
    once o.output (outputForm? value) option value fun v => { o with output := some v }
  | .settings =>
    once o.settings (if value = "" then none else some (Path.ofText value)) option value
      fun v => { o with settings := some v }
  | .headerStyle =>
    once o.headerStyle (HeaderStyle.ofName? value) option value
      fun v => { o with headerStyle := some v }
  | .jobs => once o.jobs (jobs? value) option value fun v => { o with jobs := some v }

end Setting

namespace Options

/-- The options with a path added. -/
def addPath (o : Options) (path : String) : Except UsageError Options :=
  if path = "" then .error .emptyPath else .ok { o with paths := o.paths ++ [Path.ofText path] }

/-- The options with paths added. -/
def addPaths (o : Options) (paths : List String) : Except UsageError Options :=
  paths.foldlM addPath o

end Options

/-- How far an argument has been read. -/
inductive ArgResult where
  | done (request : Request)
  /-- The next argument is the value of a setting. -/
  | wants (options : Options) (option : String) (setting : Setting)
  deriving DecidableEq, Repr

namespace ArgResult

/-- Reads a long option behind its hyphens. -/
def ofLong (o : Options) (text : List Char) : Except UsageError ArgResult :=
  let name := String.ofList (text.takeWhile (· ≠ '='))
  let option := "--" ++ name
  match text.dropWhile (· ≠ '='), Flag.ofName? name, Setting.ofName? name with
  | [], some flag, _ => (flag.raise o option).map .done
  | _ :: _, some _, _ => .error (.unexpectedValue option)
  | [], none, some setting => .ok (.wants o option setting)
  | _ :: value, none, some setting =>
    (setting.store o option (String.ofList value)).map (.done ∘ .run)
  | _, none, none => .error (.unknownOption option)

/-- Reads the letters behind a hyphen. -/
def ofLetters (o : Options) : List Char → Except UsageError ArgResult
  | [] => .ok (.done (.run o))
  | c :: rest =>
    let option := "-" ++ c.toString
    match Flag.ofLetter? c, Setting.ofLetter? c, rest with
    | some flag, _, _ =>
      match flag.raise o option with
      | .ok (.run o) => ofLetters o rest
      | .ok request => .ok (.done request)
      | .error e => .error e
    | none, some setting, [] => .ok (.wants o option setting)
    | none, some setting, '=' :: value =>
      (setting.store o option (String.ofList value)).map (.done ∘ .run)
    | none, some setting, value =>
      (setting.store o option (String.ofList value)).map (.done ∘ .run)
    | none, none, _ => .error (.unknownOption option)

/-- Reads an argument that does not end the options. -/
def ofArg (o : Options) (arg : String) : Except UsageError ArgResult :=
  match arg.toList with
  | '-' :: '-' :: text => ofLong o text
  | '-' :: c :: letters => ofLetters o (c :: letters)
  | _ => (o.addPath arg).map (.done ∘ .run)

end ArgResult

namespace Request

/-- The argument looks like an option. -/
def isOption (arg : String) : Bool :=
  match arg.toList with
  | '-' :: _ :: _ => true
  | _ => false

/-- Reads arguments on top of options read before. -/
def ofArgsFrom (o : Options) : List String → Except UsageError Request
  | [] => .ok (.run o)
  | arg :: rest =>
    if arg = "--" then (o.addPaths rest).map .run
    else
      match ArgResult.ofArg o arg with
      | .error e => .error e
      | .ok (.done (.run o)) => ofArgsFrom o rest
      | .ok (.done request) => .ok request
      | .ok (.wants o option setting) =>
        match rest with
        | [] => .error (.missingValue option)
        | value :: rest =>
          if isOption value then .error (.missingValue option)
          else
            match setting.store o option value with
            | .error e => .error e
            | .ok o => ofArgsFrom o rest

/-- Reads a command line. -/
def ofArgs (args : List String) : Except UsageError Request :=
  ofArgsFrom {} args

end Request

end SourceTally
