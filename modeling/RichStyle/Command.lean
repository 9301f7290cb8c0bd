/-!
# Command lines

A command line is `build INPUT` or `check INPUT` with options.  `--config FILE` and `-v` may stand
before the subcommand and after it; a value after it wins.  On either side an option may be given
once only.
-/

namespace RichStyle

inductive Action where
  | build (input : String) (output assets : Option String)
  | check (input : String)
deriving DecidableEq

structure Invocation where
  config : Option String
  verbose : Bool
  action : Action
deriving DecidableEq

namespace Invocation

inductive Opt where
  | config
  | output
  | assets
deriving DecidableEq

/-- What has been given so far on one side of the subcommand. -/
structure Draft where
  input : Option String
  config : Option String
  output : Option String
  assets : Option String
  verbose : Bool
deriving DecidableEq

/-- Which options are known. -/
inductive Side where
  | beforeSubcommand
  | build
  | check
deriving DecidableEq

def Side.long? (side : Side) (name : List Char) : Option Opt :=
  if name = "config".toList then some .config
  else if side = .build && name = "output".toList then some .output
  else if side = .build && name = "assets".toList then some .assets
  else none

def Side.short? (side : Side) (name : Char) : Option Opt :=
  if side = .build && name = 'o' then some .output else none

namespace Draft

def blank : Draft := ⟨none, none, none, none, false⟩

/-- Gives an option its value, once and not empty. -/
def set? (d : Draft) (opt : Opt) (value : List Char) : Option Draft :=
  let text := String.ofList value
  if value.isEmpty then none
  else
    match opt with
    | .config => if d.config.isSome then none else some { d with config := some text }
    | .output => if d.output.isSome then none else some { d with output := some text }
    | .assets => if d.assets.isSome then none else some { d with assets := some text }

def setVerbose? (d : Draft) : Option Draft :=
  if d.verbose then none else some { d with verbose := true }

/-- Gives the input, once and not empty. -/
def setInput? (d : Draft) (value : String) : Option Draft :=
  if value.isEmpty || d.input.isSome then none else some { d with input := some value }

end Draft

inductive Shape where
  /-- Two dashes alone: no options follow. -/
  | endOfOptions
  | long (name : List Char) (value : Option (List Char))
  | short (letters : List Char)
  /-- Anything else; a single dash is no option. -/
  | plain

def shapeOf (arg : String) : Shape :=
  match arg.toList with
  | ['-', '-'] => .endOfOptions
  | '-' :: '-' :: rest =>
      match rest.dropWhile (· ≠ '=') with
      | [] => .long rest none
      | _ :: value => .long (rest.takeWhile (· ≠ '=')) (some value)
  | '-' :: c :: rest => .short (c :: rest)
  | _ => .plain

/-- Whether an argument can be the value of an option before it. -/
def isValue (arg : String) : Bool :=
  match shapeOf arg with
  | .plain => true
  | _ => false

/-- What short options ask for: a draft, and perhaps an option whose value comes next. -/
def readShort (side : Side) : Draft → List Char → Option (Draft × Option Opt)
  | d, [] => some (d, none)
  | d, c :: letters =>
      if c = 'v' then
        match d.setVerbose? with
        | some d => readShort side d letters
        | none => none
      else
        match side.short? c with
        | none => none
        | some opt =>
            -- the letters behind an option that takes a value are the value
            match letters with
            | [] => some (d, some opt)
            | '=' :: value => (d.set? opt value).map fun d => (d, none)
            | value => (d.set? opt value).map fun d => (d, none)

/-- What one option asks for: a draft, and perhaps an option whose value comes next. -/
def readOption (side : Side) (d : Draft) : Shape → Option (Draft × Option Opt)
  | .short letters => readShort side d letters
  | .long name value =>
      if name = "verbose".toList then
        if value.isSome then none else d.setVerbose?.map fun d => (d, none)
      else
        match side.long? name, value with
        | none, _ => none
        | some opt, some value => (d.set? opt value).map fun d => (d, none)
        | some opt, none => some (d, some opt)
  | .endOfOptions => none
  | .plain => none

def readInputs : Draft → List String → Option Draft
  | d, [] => some d
  | d, arg :: args =>
      match d.setInput? arg with
      | some d => readInputs d args
      | none => none

/--
Reads the arguments after the subcommand.  If an option waits for its value, the next argument has
to be one.
-/
def readArguments (side : Side) : Draft → Option Opt → List String → Option Draft
  | d, none, [] => some d
  | _, some _, [] => none
  | d, some opt, arg :: args =>
      if isValue arg then
        match d.set? opt arg.toList with
        | some d => readArguments side d none args
        | none => none
      else none
  | d, none, arg :: args =>
      match shapeOf arg with
      | .endOfOptions => readInputs d args
      | .plain =>
          match d.setInput? arg with
          | some d => readArguments side d none args
          | none => none
      | option =>
          match readOption side d option with
          | some (d, waiting) => readArguments side d waiting args
          | none => none

/-- The command line of what was given before and after the subcommand. -/
def combine (before after : Draft) (action : String → Action) : Option Invocation :=
  after.input.map fun input =>
    -- what stands behind the subcommand counts more than what stands in front of it
    { config := after.config.orElse fun _ => before.config
      verbose := before.verbose || after.verbose
      action := action input }

def readSubcommand (before : Draft) (name : String) (args : List String) : Option Invocation :=
  if name = "build" then
    match readArguments .build .blank none args with
    | some after => combine before after fun input => .build input after.output after.assets
    | none => none
  else if name = "check" then
    match readArguments .check .blank none args with
    | some after => combine before after .check
    | none => none
  else none

def readFrom : Draft → Option Opt → List String → Option Invocation
  | _, _, [] => none
  | d, some opt, arg :: args =>
      if isValue arg then
        match d.set? opt arg.toList with
        | some d => readFrom d none args
        | none => none
      else none
  | d, none, arg :: args =>
      match shapeOf arg with
      | .endOfOptions => none
      | .plain => readSubcommand d arg args
      | option =>
          match readOption .beforeSubcommand d option with
          | some (d, waiting) => readFrom d waiting args
          | none => none

/-- Reads a command line; there is no answer if it is not understood. -/
def read? (args : List String) : Option Invocation :=
  readFrom .blank none args

end Invocation

end RichStyle
