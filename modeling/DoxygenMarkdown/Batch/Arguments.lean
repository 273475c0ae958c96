import DoxygenMarkdown.Text.DecimalDigit

/-!
# Arguments of the command line

The command takes one path and some options, in any order.

* An option may be shortened, as long as what is left begins one option only.
* The option for file endings takes a value behind an equals sign, or else as many values as follow
  it.
* After two hyphens, everything is a path.
* A negative number, a lone hyphen and anything with a space in it is a value, although it begins
  with a hyphen.

Arguments are taken in from left to right (`State.take`). Asking for help ends that at once, and so
does an option that is used in a wrong way; a missing path and arguments too many are noticed at
the end.
-/

namespace DoxygenMarkdown.Batch

/-- The options of the command. -/
inductive Flag where
  | help
  | extensions
  | dryRun
  | backup
  | keepIndent
deriving DecidableEq, Repr

/-- The options and their long names. One of them, `help`, also has a short name. -/
def Flag.names : List (String × Flag) := [
  ("--help", .help), ("--ext", .extensions), ("--dry-run", .dryRun), ("--backup", .backup),
  ("--keep-indent", .keepIndent)]

/-- The option with a long name. -/
def Flag.named? (name : Text) : Option Flag :=
  (names.find? fun entry => entry.1.toList = name).map (·.2)

/-- The options whose name begins with a text. -/
def Flag.beginningWith (start : Text) : List Flag :=
  (names.filter fun entry => Text.startsWith entry.1.toList start).map (·.2)

/-- What is asked of the command. -/
structure Options where
  path : Text
  extensions : List Text := [".rs".toList]
  dryRun : Bool := false
  backup : Bool := false
  keepIndent : Bool := false
deriving DecidableEq, Repr

/-- Why the command does nothing. -/
inductive Refusal where
  | help
  | usage
deriving DecidableEq, Repr

/-- The exit status of a command that does nothing. -/
def Refusal.exitCode : Refusal → Nat
  | help => 0
  | usage => 2

/-- An argument by itself. -/
inductive Argument where
  | value (t : Text)
  /-- An option, with what is attached to it behind an equals sign. -/
  | option (f : Flag) (attached : Option Text)
  /-- The short option that asks for help, with more characters right after it. -/
  | bundle (rest : Text)
  | unknown
  /-- The beginning of several options. -/
  | ambiguous
deriving DecidableEq, Repr

/-- Whether a text is a negative number, perhaps with a line feed after it. -/
def isNegativeNumber (t : Text) : Bool :=
  match t with
  | '-' :: digits =>
    let digits := if Text.endsWith digits ['\n'] then digits.dropLast else digits
    match digits.span isDecimalDigit with
    | (whole, []) => !whole.isEmpty
    | (_, point :: decimals) => point == '.' && !decimals.isEmpty && decimals.all isDecimalDigit
  | _ => false

/-- A text before and after its first equals sign. -/
def splitEquals (t : Text) : Text × Option Text :=
  match t.span (· ≠ '=') with
  | (name, _ :: attached) => (name, some attached)
  | (name, []) => (name, none)

/-- Read an argument that begins with a hyphen and is no option. -/
def readOther (t : Text) : Argument :=
  if isNegativeNumber t || t.contains ' ' then .value t else .unknown

/-- Read an argument that begins with two hyphens: an option, or the beginning of one. A whole name
comes before a longer one that it begins. -/
def readLong (t : Text) : Argument :=
  let (name, attached) := splitEquals t
  match Flag.named? name with
  | some f => .option f attached
  | none =>
    match Flag.beginningWith name with
    | [f] => .option f attached
    | _ :: _ => .ambiguous
    | [] => readOther t

/-- Read an argument by itself. -/
def readArgument (t : Text) : Argument :=
  match t with
  | '-' :: '-' :: _ => readLong t
  | ['-', 'h'] => .option .help none
  | '-' :: 'h' :: rest => .bundle rest
  | ['-'] => .value t
  | '-' :: _ => readOther t
  | _ => .value t

/-- What asking for help with more characters right after it leads to. The characters are short
names, and the one for help is the only one there is. An equals sign in front of them does no harm,
but then there must be some. -/
def bundleRefusal (rest : Text) : Refusal :=
  let names := match rest with
    | '=' :: names => names
    | names => names
  if !names.isEmpty && names.all (· == 'h') then .help else .usage

/-- Whether the option for file endings is taking values: not at all, for the first time, or
further ones. -/
inductive Collecting where
  | no
  | first
  | further
deriving DecidableEq, Repr

/-- What is known after some arguments. -/
structure State where
  path : Option Text := none
  extensions : List Text := [".rs".toList]
  dryRun : Bool := false
  backup : Bool := false
  keepIndent : Bool := false
  collecting : Collecting := .no
  /-- Whether there was an argument too many, or an unknown option. -/
  stray : Bool := false
deriving DecidableEq, Repr

namespace State

/-- Stop taking values. There must have been one. -/
def stopCollecting (s : State) : Except Refusal State :=
  match s.collecting with
  | .first => .error .usage
  | _ => .ok { s with collecting := .no }

/-- The options at the end of the arguments. -/
def finish (s : State) : Except Refusal Options :=
  match s.stopCollecting with
  | .error refusal => .error refusal
  | .ok s =>
    match s.path with
    | some path =>
      if s.stray then .error .usage
      else .ok ⟨path, s.extensions, s.dryRun, s.backup, s.keepIndent⟩
    | none => .error .usage

/-- Take in what follows the two hyphens. -/
def finishPaths (s : State) (rest : List Text) : Except Refusal Options :=
  match s.path, rest with
  | none, path :: rest => finish { s with path := some path, stray := s.stray || !rest.isEmpty }
  | _, _ => .error .usage

/-- Take in an option. Only one of them takes a value. Two hyphens attached to it are no value, and
leave it without any. -/
def takeOption (s : State) : Flag → (attached : Option Text) → Except Refusal State
  | .help, none => .error .help
  | .extensions, none => .ok { s with extensions := [], collecting := .first }
  | .extensions, some t => .ok { s with extensions := if t = "--".toList then [] else [t] }
  | .dryRun, none => .ok { s with dryRun := true }
  | .backup, none => .ok { s with backup := true }
  | .keepIndent, none => .ok { s with keepIndent := true }
  | _, some _ => .error .usage

/-- Take in arguments from left to right. Two hyphens right after the path do no harm, as long as
nothing follows them. -/
def take (s : State) : List Text → Except Refusal Options
  | [] => s.finish
  | t :: rest =>
    if t = "--".toList then
      match s.stopCollecting with
      | .error refusal => .error refusal
      | .ok s => s.finishPaths rest
    else
      match readArgument t with
      | .option f attached =>
        match s.stopCollecting with
        | .error refusal => .error refusal
        | .ok s =>
          match s.takeOption f attached with
          | .error refusal => .error refusal
          | .ok s => s.take rest
      | .bundle more =>
        match s.stopCollecting with
        | .error refusal => .error refusal
        | .ok _ => .error (bundleRefusal more)
      | .unknown | .ambiguous =>
        match s.stopCollecting with
        | .error refusal => .error refusal
        | .ok s => take { s with stray := true } rest
      | .value t =>
        if s.collecting ≠ .no then
          take { s with extensions := s.extensions ++ [t], collecting := .further } rest
        else if s.path.isSome then take { s with stray := true } rest
        else if rest = ["--".toList] then finish { s with path := some t }
        else take { s with path := some t } rest

end State

/-- Read the arguments of the command. A beginning of several options is refused before anything
else is looked at. -/
def readArguments (arguments : List Text) : Except Refusal Options :=
  if (arguments.takeWhile (· ≠ "--".toList)).any (readArgument · = .ambiguous) then .error .usage
  else State.take {} arguments

end DoxygenMarkdown.Batch
