import VocabularyCompiler.Samples.Index

/-!
# Arguments

A command line names what is to be written and the settings for it. A switch has one or two hyphens
in front. Some take a value, behind an equals sign or as the next argument, and one takes any number
of arguments up to the next switch. Letters behind one hyphen are switches one after another, up to
the first that takes a value.
-/

namespace VocabularyCompiler.CommandLine

/-- What is written for a class. -/
inductive Target where
  | thingTalk
  | json
  deriving DecidableEq, Repr

/-- What a run works on and what it writes. -/
structure Settings where
  /-- The filter that each document goes through. -/
  filter : Option String
  /-- Paths, patterns for paths, or a hyphen for standard input. -/
  inputs : List String
  /-- The name of the part of the vocabulary that the class covers. -/
  className : Option String
  /-- Whether the curated phrases for particular domains are used. -/
  manual : Bool
  /-- The file that holds the policy. -/
  policy : Option String
  /-- The file that holds the index of datasets. -/
  datasets : Option String
  /-- How many values are taken from a dataset. -/
  maxSamples : Nat
  /-- The file that holds the recorded answer to the request for phrases. -/
  refinements : Option String
  /-- Whether the class is annotated even without such an answer. -/
  annotate : Bool
  /-- The file that the request for phrases goes to. -/
  requestOut : Option String
  /-- The file that the class goes to. -/
  out : Option String
  /-- Whether the settings are shown and nothing else is done. -/
  noOp : Bool
  deriving DecidableEq, Repr

/-- What a command line asks for. -/
inductive Request where
  | version
  | help
  | compile (verbosity : Nat) (target : Target) (settings : Settings)
  deriving DecidableEq, Repr

/-- A switch. -/
inductive Switch where
  | verbose
  | help
  | filter
  | input
  | className
  | manual
  | policy
  | datasets
  | maxSamples
  | refinements
  | annotate
  | requestOut
  | out
  | noOp
  deriving DecidableEq, Repr

/-- What a switch takes. -/
inductive Operand where
  | nothing
  | text
  /-- A text that is not empty. -/
  | path
  | number
  /-- One text or more, more if the switch is there again. -/
  | texts
  deriving DecidableEq, Repr

/-- How a switch is written and what it takes. -/
structure SwitchForm where
  switch : Switch
  long : String
  short : Option Char
  operand : Operand

/-- The switches of a command. -/
def switches : List SwitchForm :=
  [⟨.verbose, "verbose", some 'v', .nothing⟩,
    ⟨.help, "help", some 'h', .nothing⟩,
    ⟨.filter, "jq-expr", none, .text⟩,
    ⟨.input, "input", some 'i', .texts⟩,
    ⟨.className, "class-name", none, .text⟩,
    ⟨.manual, "manual", none, .nothing⟩,
    ⟨.policy, "policy", none, .path⟩,
    ⟨.datasets, "datasets", none, .path⟩,
    ⟨.maxSamples, "max-samples", none, .number⟩,
    ⟨.refinements, "refinements", none, .path⟩,
    ⟨.annotate, "annotate", none, .nothing⟩,
    ⟨.requestOut, "request-out", none, .path⟩,
    ⟨.out, "out", some 'o', .path⟩,
    ⟨.noOp, "no-op", none, .nothing⟩]

/-- What is wrong with a command line. -/
inductive UsageError where
  | noCommand
  | unknownCommand (name : String)
  | unknownSwitch (name : String)
  | missingValue (switch : String)
  | needlessValue (switch : String)
  | repeatedSwitch (switch : String)
  | notNumber (switch value : String)
  | strayArgument (argument : String)
  | noInput
  deriving DecidableEq, Repr

/-- The wording of an error. -/
def UsageError.message : UsageError → String
  | noCommand => "a command is required: thingtalk or json"
  | unknownCommand name => "unknown command `" ++ name ++ "`"
  | unknownSwitch name => "unknown option `" ++ name ++ "`"
  | missingValue switch => "option --" ++ switch ++ " requires a value"
  | needlessValue switch => "option --" ++ switch ++ " takes no value"
  | repeatedSwitch switch => "option --" ++ switch ++ " cannot be used more than once"
  | notNumber switch value => "invalid value `" ++ value ++ "` for option --" ++ switch
  | strayArgument argument => "unexpected argument `" ++ argument ++ "`"
  | noInput => "option --input is required"

/-- Why reading a command line stops. -/
inductive Stop where
  | usage (e : UsageError)
  /-- Help was asked for. -/
  | help

/-- A number that fits a word; it may have a plus sign. -/
def wordNumber? (s : String) : Option Nat :=
  let digits := match s.toList with
    | '+' :: rest => rest
    | cs => cs
  if digits.isEmpty || !digits.all Char.isDigit then none
  else
    let n := digits.foldl (fun n c => 10 * n + (c.toNat - '0'.toNat)) 0
    if n < 0x10000000000000000 then some n else none

/-- How far a command line has been read. -/
structure Progress where
  verbosity : Nat
  /-- The switches with their values. -/
  given : List (Switch × List String)
  /-- A switch that can still take values, and those it has. -/
  pending : Option (SwitchForm × List String)
  /-- Whether there were two hyphens alone, behind which no switch is read. -/
  ended : Bool

namespace Progress

/-- Adds a switch with all its values. -/
def add (p : Progress) (form : SwitchForm) (values : List String) : Except Stop Progress :=
  let occurs := p.given.any fun e => e.1 = form.switch
  let added : Progress := { p with given := p.given ++ [(form.switch, values)] }
  match form.switch, form.operand, values with
  | .verbose, _, _ => .ok { p with verbosity := min 255 (p.verbosity + 1) }
  | .help, _, _ => .error .help
  | _, .texts, [] => .error (.usage (.missingValue form.long))
  | _, .texts, _ => .ok added
  | _, .nothing, _ => if occurs then .error (.usage (.repeatedSwitch form.long)) else .ok added
  | _, _, [] => .error (.usage (.missingValue form.long))
  | _, operand, value :: _ =>
    if operand = .path && value.isEmpty then .error (.usage (.missingValue form.long))
    else if operand = .number && (wordNumber? value).isNone then
      .error (.usage (.notNumber form.long value))
    else if occurs then .error (.usage (.repeatedSwitch form.long))
    else .ok added

/-- Adds the switch that could take values, with those it has. -/
def close (p : Progress) : Except Stop Progress :=
  match p.pending with
  | none => .ok p
  | some (form, values) => { p with pending := none }.add form values

/-- Reads a switch with the value that is attached to it, if there is one. -/
def readSwitch (p : Progress) (form : SwitchForm) (attached : Option String) :
    Except Stop Progress := do
  let p ← p.close
  match form.operand, attached with
  | .nothing, none => p.add form []
  | .nothing, some _ => throw (.usage (.needlessValue form.long))
  | _, some value => p.add form [value]
  | _, none => return { p with pending := some (form, []) }

/-- Reads letters behind one hyphen. -/
def readLetters (p : Progress) : List Char → Except Stop Progress
  | [] => .ok p
  | c :: rest =>
    match switches.find? fun f => f.short = some c with
    | none => .error (.usage (.unknownSwitch (String.ofList ['-', c])))
    | some form =>
      if form.operand = .nothing then do
        let p ← p.readSwitch form none
        p.readLetters rest
      else
        match rest with
        | [] => p.readSwitch form none
        | '=' :: value => p.readSwitch form (some (String.ofList value))
        | value => p.readSwitch form (some (String.ofList value))

/-- Reads what stands behind two hyphens. -/
def readLong (p : Progress) (text : List Char) : Except Stop Progress :=
  let (name, behind) := text.span (· ≠ '=')
  match switches.find? fun f => f.long.toList = name with
  | none => .error (.usage (.unknownSwitch ("--" ++ String.ofList name)))
  | some form => p.readSwitch form (behind.tail?.map String.ofList)

/-- Reads an argument that is no switch. -/
def readPlain (p : Progress) (argument : String) : Except Stop Progress :=
  match p.pending with
  | none => .error (.usage (.strayArgument argument))
  | some (form, values) =>
    let longer : Progress := { p with pending := some (form, values ++ [argument]) }
    if form.operand = .texts then .ok longer else longer.close

/-- Reads an argument. -/
def read (p : Progress) (argument : String) : Except Stop Progress :=
  if p.ended then .error (.usage (.strayArgument argument))
  else
    match argument.toList with
    | ['-', '-'] => .ok { p with ended := true }
    | '-' :: '-' :: text => p.readLong text
    | '-' :: c :: letters => p.readLetters (c :: letters)
    | _ => p.readPlain argument

/-- The values of a switch. -/
def values (p : Progress) (switch : Switch) : List String :=
  (p.given.filter fun e => e.1 = switch).flatMap Prod.snd

/-- Whether a switch is there. -/
def has (p : Progress) (switch : Switch) : Bool := p.given.any fun e => e.1 = switch

/-- The settings at the end of a command line. -/
def settings (p : Progress) : Except Stop Settings := do
  let p ← p.close
  if (p.values .input).isEmpty then throw (.usage .noInput)
  return {
    filter := (p.values .filter).head?
    inputs := p.values .input
    className := (p.values .className).head?
    manual := p.has .manual
    policy := (p.values .policy).head?
    datasets := (p.values .datasets).head?
    maxSamples :=
      ((p.values .maxSamples).head?.bind wordNumber?).getD DatasetIndex.defaultMaxSamples
    refinements := (p.values .refinements).head?
    annotate := p.has .annotate
    requestOut := (p.values .requestOut).head?
    out := (p.values .out).head?
    noOp := p.has .noOp }

end Progress

/-- The command of a name. -/
def target? : String → Option Target
  | "thingtalk" => some .thingTalk
  | "json" => some .json
  | _ => none

/-- Reads the arguments of a command. Where it says how much to log, what was said before it does
not count. -/
def readCommand (verbosity : Nat) (target : Target) (arguments : List String) :
    Except Stop Request := do
  let p ← arguments.foldlM Progress.read ⟨0, [], none, false⟩
  let s ← p.settings
  return .compile (if p.verbosity = 0 then verbosity else p.verbosity) target s

/-- What letters behind one hyphen in front of a command ask for: to log more, or something that is
done at once. -/
def leadingLetters (verbosity : Nat) : List Char → Except UsageError (Nat ⊕ Request)
  | [] => .ok (.inl verbosity)
  | 'v' :: rest => leadingLetters (min 255 (verbosity + 1)) rest
  | 'V' :: _ => .ok (.inr .version)
  | 'h' :: _ => .ok (.inr .help)
  | c :: _ => .error (.unknownSwitch (String.ofList ['-', c]))

/-- What a switch in front of a command asks for. -/
def leadingSwitch (verbosity : Nat) (argument : String) : Except UsageError (Nat ⊕ Request) :=
  match argument.toList with
  | '-' :: '-' :: name =>
    match String.ofList name with
    | "verbose" => .ok (.inl (min 255 (verbosity + 1)))
    | "version" => .ok (.inr .version)
    | "help" => .ok (.inr .help)
    | "" => .error .noCommand
    | _ => .error (.unknownSwitch argument)
  | '-' :: c :: letters => leadingLetters verbosity (c :: letters)
  | _ => .error (.unknownCommand argument)

/-- Reads arguments from the beginning, with what was said there on how much to log. -/
def readArguments (verbosity : Nat) : List String → Except UsageError Request
  | [] => .error .noCommand
  | argument :: rest =>
    match target? argument with
    | some target =>
      match readCommand verbosity target rest with
      | .ok request => .ok request
      | .error .help => .ok .help
      | .error (.usage e) => .error e
    | none =>
      if argument = "help" then
        match rest with
        | [] => .ok .help
        | [command] =>
          if command = "help" || (target? command).isSome then .ok .help
          else .error (.unknownCommand command)
        | _ :: extra :: _ => .error (.strayArgument extra)
      else
        match leadingSwitch verbosity argument with
        | .error e => .error e
        | .ok (.inl verbosity) => readArguments verbosity rest
        | .ok (.inr request) => .ok request

/-- Reads a command line. -/
def parse (arguments : List String) : Except UsageError Request := readArguments 0 arguments

end VocabularyCompiler.CommandLine
