import SymbolicAlgebra.Text.Numeral
import SymbolicAlgebra.Text.Quoted

/-!
# Options of the command line

Arguments are sorted first (`Argument.ofText`) and then taken one after the other (`Options.take`).
An option has a long name, which may be shortened as long as it stays clear which one is meant, and
perhaps a short one of a single letter. A value follows its option as the next argument, or after an
equals sign, or directly after a short name. Short options share a dash: what is attached to one
without a value is read as more short options.
-/

namespace SymbolicAlgebra.CommandLine

/-- The options. -/
inductive Flag where
  | help
  | command
  | precision
  | exact
  | verbose
deriving DecidableEq, Repr

namespace Flag

/-- The names of an option. -/
def names : Flag → List String
  | help => ["-h", "--help"]
  | command => ["-c", "--command"]
  | precision => ["--precision"]
  | exact => ["--exact"]
  | verbose => ["-v", "--verbose"]

/-- Whether an option takes a value. -/
def takesValue : Flag → Bool
  | command => true
  | precision => true
  | _ => false

/-- All options. -/
def all : List Flag :=
  [help, command, precision, exact, verbose]

/-- All names of options. -/
def allNames : List (String × Flag) :=
  all.flatMap fun f => f.names.map (·, f)

/-- The option of a name. -/
def ofName? (name : String) : Option Flag :=
  allNames.lookup name

end Flag

/-- Why the arguments are refused. -/
inductive UsageError where
  /-- A shortened name that several options have. -/
  | ambiguous (argument : String) (candidates : List String)
  /-- An option without its value. -/
  | missingValue (flag : Flag)
  /-- A value at an option that takes none. -/
  | needlessValue (flag : Flag) (value : String)
  /-- A value that is no integer. -/
  | notAnInteger (flag : Flag) (value : String)
  /-- Arguments that belong to no option. -/
  | unrecognized (arguments : List String)
deriving DecidableEq, Repr

namespace UsageError

/-- A message about an option. -/
def about (flag : Flag) (text : String) : String :=
  "argument " ++ "/".intercalate flag.names ++ ": " ++ text

/-- The wording of a refusal. -/
def message : UsageError → String
  | ambiguous argument candidates =>
    "ambiguous option: " ++ argument ++ " could match " ++ ", ".intercalate candidates
  | missingValue flag => about flag "expected one argument"
  | needlessValue flag value => about flag ("ignored explicit argument " ++ quoted value)
  | notAnInteger flag value => about flag ("invalid int value: " ++ quoted value)
  | unrecognized arguments => "unrecognized arguments: " ++ " ".intercalate arguments

end UsageError

/-! ### Sorting the arguments -/

/-- What an argument is. -/
inductive Argument where
  /-- A value, or text that belongs to no option. -/
  | plain (text : String)
  /-- The mark after which all arguments are plain. -/
  | divider
  /-- An option, by one of its names, with what is written in the same argument after it. -/
  | option (flag : Flag) (isShort : Bool) (attached : Option (List Char))
  /-- Text that looks like an option and is none. -/
  | unknown (text : String)
deriving DecidableEq, Repr

/-- Whether a text begins with another. -/
def startsWith (cs start : List Char) : Bool :=
  start.isPrefixOf cs

/-- Digits, one at least. -/
def areDigits (cs : List Char) : Bool :=
  !cs.isEmpty && cs.all fun c => (digitValue? c).isSome

/-- Whether a text is a dash and an unsigned decimal without an exponent; a line end after it does
not count. -/
def looksNegative (cs : List Char) : Bool :=
  match cs with
  | '-' :: cs =>
    let cs := if cs.getLast? = some '\n' then cs.dropLast else cs
    match splitAtFirst (· == '.') cs with
    | (whole, none) => areDigits whole
    | (whole, some fraction) => (whole.isEmpty || areDigits whole) && areDigits fraction
  | _ => false

/-- The long names that a text shortens. -/
def candidates (cs : List Char) : List (String × Flag) :=
  Flag.allNames.filter fun (name, _) => startsWith name.toList cs

namespace Argument

/-- A text that names no option: it may be a value all the same. -/
def ofOther (cs : List Char) : Argument :=
  if looksNegative cs || cs.contains ' ' then plain (String.ofList cs)
  else unknown (String.ofList cs)

/-- An argument that begins with two dashes: a long name, perhaps shortened, and perhaps a value
after an equals sign. -/
def ofLong (cs : List Char) : Except UsageError Argument :=
  let (name, attached) := splitAtFirst (· == '=') cs
  match Flag.ofName? (String.ofList name) with
  | some flag => .ok (option flag false attached)
  | none =>
    match candidates name with
    | [] => .ok (ofOther cs)
    | [(_, flag)] => .ok (option flag false attached)
    | names => .error (.ambiguous (String.ofList cs) (names.map Prod.fst))

/-- An argument that begins with one dash and the letter `c`: a short name, and what is written
after it. -/
def ofShort (c : Char) (rest : List Char) : Argument :=
  match Flag.ofName? (String.ofList ['-', c]) with
  | some flag =>
    option flag true <|
      match rest with
      | [] => none
      | '=' :: value => some value
      | value => some value
  | none => ofOther ('-' :: c :: rest)

/-- What an argument is, before any divider. -/
def ofText (s : String) : Except UsageError Argument :=
  match s.toList with
  | ['-', '-'] => .ok divider
  | '-' :: '-' :: cs => ofLong ('-' :: '-' :: cs)
  | '-' :: c :: cs => .ok (ofShort c cs)
  | _ => .ok (plain s)

/-- The sorted arguments; those after a divider are plain. -/
def ofTexts : List String → Except UsageError (List Argument)
  | [] => .ok []
  | s :: ss => do
    match ← ofText s with
    | divider => return divider :: ss.map plain
    | a => return a :: (← ofTexts ss)

end Argument

/-! ### Taking the arguments -/

/-- The values of the options. -/
structure Options where
  command : Option String := none
  precision : Option Int := none
  exact : Bool := false
  verbose : Bool := false
deriving DecidableEq, Repr

/-- What the arguments ask for. -/
inductive Request where
  | help
  | options (o : Options)
deriving DecidableEq, Repr

/-- The options that share an argument: those without values, then perhaps one that takes a
value. -/
structure Cluster where
  flags : List Flag
  /-- The option with a value, and that value if it is written here. -/
  valued : Option (Flag × Option (List Char))
deriving DecidableEq, Repr

namespace Cluster

/-- One more option in front of those of a cluster. -/
def push (flag : Flag) (c : Cluster) : Cluster :=
  { c with flags := flag :: c.flags }

/-- The options that share an argument with the short option `flag`, which is followed by a text.
Without a value of its own the option leaves that text to more short options. -/
def ofShort (flag : Flag) : (text : List Char) → Except UsageError Cluster
  | [] => .ok (if flag.takesValue then ⟨[], some (flag, none)⟩ else ⟨[flag], none⟩)
  | c :: text =>
    if flag.takesValue then .ok ⟨[], some (flag, some (c :: text))⟩
    else
      match Flag.ofName? (String.ofList ['-', c]) with
      | none => .error (.needlessValue flag (String.ofList (c :: text)))
      | some next => do return (← ofShort next text).push flag

/-- The options of an argument. An empty value is a value too. -/
def ofOption (flag : Flag) (isShort : Bool) : Option (List Char) → Except UsageError Cluster
  | none => ofShort flag []
  | some value =>
    if flag.takesValue then .ok ⟨[], some (flag, some value)⟩
    else if !isShort || value.isEmpty then .error (.needlessValue flag (String.ofList value))
    else ofShort flag value

end Cluster

namespace Options

/-- The options with one of those without values set. -/
def set (flag : Flag) (o : Options) : Options :=
  match flag with
  | .exact => { o with exact := true }
  | .verbose => { o with verbose := true }
  | _ => o

/-- The options with a value set. -/
def setValue (flag : Flag) (value : String) (o : Options) : Except UsageError Options :=
  match flag with
  | .command => .ok { o with command := some value }
  | .precision =>
    match readInteger? value.toList with
    | some p => .ok { o with precision := some p }
    | none => .error (.notAnInteger .precision value)
  | _ => .ok o

/-- What the arguments ask for, given the options that are set and the arguments that belong to
none. Help is given as soon as it is asked for. -/
def take (o : Options) (strays : List String) : List Argument → Except UsageError Request
  | [] => if strays = [] then .ok (.options o) else .error (.unrecognized strays)
  | .plain s :: args => take o (strays ++ [s]) args
  | .divider :: args => take o (strays ++ ["--"]) args
  | .unknown s :: args => take o (strays ++ [s]) args
  | .option flag isShort attached :: args => do
    let cluster ← Cluster.ofOption flag isShort attached
    let set := fun o : Options => cluster.flags.foldl (fun o f => o.set f) o
    match cluster.valued, args with
    | none, args => if .help ∈ cluster.flags then return .help else take (set o) strays args
    | some (flag, some value), args =>
      if .help ∈ cluster.flags then return .help
      else take (← (set o).setValue flag (String.ofList value)) strays args
    | some (flag, none), .plain value :: args =>
      if .help ∈ cluster.flags then return .help
      else take (← (set o).setValue flag value) strays args
    | some (flag, none), _ => throw (.missingValue flag)

end Options

/-- What a list of arguments asks for. -/
def Request.ofTexts (texts : List String) : Except UsageError Request := do
  Options.take {} [] (← Argument.ofTexts texts)

end SymbolicAlgebra.CommandLine
