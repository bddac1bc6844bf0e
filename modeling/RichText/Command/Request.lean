import RichText.Convert

/-!
The command line: its arguments are read from left to right into a request, and the first
argument that stops the reading decides.
-/
namespace RichText.Command

/-- What an option takes. -/
inductive Takes where
  | nothing
  | text
  /-- A path, which must not be empty. -/
  | path
  deriving DecidableEq, Repr

structure OptionSpec where
  long : String
  short : Option Char
  takes : Takes
  deriving DecidableEq, Repr

/-- Why there is no request. -/
inductive Stop where
  | help
  | version
  | misuse
  deriving DecidableEq, Repr

/-- The arguments so far: those that are no options, and the options with their values. -/
structure Given where
  positional : List String := []
  options : List (String × String) := []
  deriving DecidableEq, Repr

namespace Given

/-- Adds an argument that is no option, of which there may be `most`. -/
def addPositional (g : Given) (most : Nat) (a : String) : Except Stop Given :=
  if g.positional.length < most ∧ a ≠ "" then .ok { g with positional := g.positional ++ [a] }
  else .error .misuse

/-- Adds an option, which may come only once. -/
def addOption (g : Given) (spec : OptionSpec) (value : String) : Except Stop Given :=
  if (g.options.lookup spec.long).isSome ∨ spec.takes = .path ∧ value = "" then .error .misuse
  else .ok { g with options := g.options ++ [(spec.long, value)] }

def value? (g : Given) (long : String) : Option String := g.options.lookup long

def has (g : Given) (long : String) : Bool := (g.value? long).isSome

end Given

/-- The reading of arguments: an option may wait for its value, and after `--` there are none. -/
structure Reading where
  given : Given := {}
  waiting : Option OptionSpec := none
  onlyPositional : Bool := false
  deriving DecidableEq, Repr

/-- Whether an argument has the look of an option. A single dash has not. -/
def looksLikeOption (a : String) : Bool :=
  match a.toList with
  | '-' :: _ :: _ => true
  | _ => false

namespace Reading

/-- An option with the value that is attached to it, or else with the one to come. -/
def addOption (r : Reading) (spec : OptionSpec) (attached : Option String) :
    Except Stop Reading :=
  match spec.takes, attached with
  | .nothing, none => (r.given.addOption spec "").map fun given => { r with given }
  | .nothing, some _ => .error .misuse
  | _, none => .ok { r with waiting := some spec }
  | _, some value => (r.given.addOption spec value).map fun given => { r with given }

/-- An option by its long name, with a value after an equals sign. -/
def addLong (r : Reading) (specs : List OptionSpec) (body : List Char) : Except Stop Reading :=
  let name := String.ofList (body.takeWhile (· ≠ '='))
  let attached := match body.dropWhile (· ≠ '=') with
    | _ :: value => some (String.ofList value)
    | [] => none
  if name = "help" then .error (if attached = none then .help else .misuse)
  else match specs.find? (·.long = name) with
    | some spec => r.addOption spec attached
    | none => .error .misuse

/-- An option by its letter, with a value behind it or behind an equals sign. -/
def addShort (r : Reading) (specs : List OptionSpec) (letter : Char) (body : List Char) :
    Except Stop Reading :=
  let attached := match body with
    | [] => none
    | '=' :: value => some (String.ofList value)
    | value => some (String.ofList value)
  if letter = 'h' then .error .help
  else match specs.find? (·.short = some letter) with
    | some spec => r.addOption spec attached
    | none => .error .misuse

/-- Reads one argument. -/
def step (specs : List OptionSpec) (most : Nat) (r : Reading) (a : String) :
    Except Stop Reading :=
  match r.waiting with
  | some spec =>
    if looksLikeOption a then .error .misuse
    else (r.given.addOption spec a).map fun given => { r with given, waiting := none }
  | none =>
    if r.onlyPositional then (r.given.addPositional most a).map fun given => { r with given }
    else match a.toList with
      | ['-', '-'] => .ok { r with onlyPositional := true }
      | '-' :: '-' :: body => r.addLong specs body
      | '-' :: letter :: body => r.addShort specs letter body
      | _ => (r.given.addPositional most a).map fun given => { r with given }

end Reading

/-- Reads all arguments. No option may be left waiting. -/
def readArguments (specs : List OptionSpec) (most : Nat) (args : List String) :
    Except Stop Given := do
  let r ← args.foldlM (Reading.step specs most) {}
  if r.waiting.isSome then .error .misuse else return r.given

/-- What is asked for. -/
inductive Request where
  | convert (document : String) (manifest output : Option String) (converter : Converter)
  | tree (document : String) (output : Option String) (compact lenient : Bool)
  | info (document : String)
  | formats
  | version
  deriving DecidableEq, Repr

namespace Request

def output : OptionSpec := ⟨"output", some 'o', .path⟩

def lenient : OptionSpec := ⟨"lenient", none, .nothing⟩

def convertOptions : List OptionSpec :=
  [⟨"format", some 'f', .text⟩, ⟨"manifest", some 'm', .path⟩, output, lenient,
   ⟨"code-font", none, .text⟩]

def treeOptions : List OptionSpec := [output, ⟨"compact", none, .nothing⟩, lenient]

/-- The one document that a command works on. -/
def theDocument (g : Given) : Except Stop String :=
  match g.positional with
  | [document] => .ok document
  | _ => .error .misuse

/-- A conversion. A format that is not given is the one of the environment, and Markdown if that
has none. -/
def ofConvert (environment : Option String) (args : List String) : Except Stop Request := do
  let g ← readArguments convertOptions 1 args
  let document ← theDocument g
  let format := ((g.value? "format").or environment).getD "md"
  let base : Options := { lenient := g.has "lenient" }
  let options := match g.value? "code-font" with
    | some codeFont => { base with codeFont }
    | none => base
  return convert document (g.value? "manifest") (g.value? "output") { format, options }

def ofTree (args : List String) : Except Stop Request := do
  let g ← readArguments treeOptions 1 args
  let document ← theDocument g
  return tree document (g.value? "output") (g.has "compact") (g.has "lenient")

def ofInfo (args : List String) : Except Stop Request := do
  let g ← readArguments [] 1 args
  return info (← theDocument g)

/-- A command that takes no arguments. -/
def ofNothing (request : Request) (args : List String) : Except Stop Request := do
  let _ ← readArguments [] 0 args
  return request

def names : List String := ["convert", "tree", "info", "formats", "version", "help"]

/-- Help on the whole, or on one command. -/
def ofHelp : List String → Except Stop Request
  | [] => .error .help
  | [name] => .error (if name ∈ names then .help else .misuse)
  | _ => .error .misuse

/-- What stands in the place of a command and is none. -/
def ofOther (a : String) : Except Stop Request :=
  match a.toList with
  | '-' :: 'h' :: _ => .error .help
  | '-' :: 'V' :: _ => .error .version
  | _ =>
    .error (if a = "--help" then .help else if a = "--version" then .version else .misuse)

/-- The request that the arguments make, given the format of the environment. -/
def ofArguments (environment : Option String) : List String → Except Stop Request
  | "convert" :: args => ofConvert environment args
  | "tree" :: args => ofTree args
  | "info" :: args => ofInfo args
  | "formats" :: args => ofNothing formats args
  | "version" :: args => ofNothing version args
  | "help" :: args => ofHelp args
  | a :: _ => ofOther a
  | [] => .error .misuse

end Request

end RichText.Command
