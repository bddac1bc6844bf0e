import RichText.Command.FileSystem
import RichText.Command.Request
import RichText.Tree.Dump

/-!
Running a request: what is printed, and which files are there afterwards. A command first makes
its whole output and writes it at the end, so an error leaves everything as it was.
-/
namespace RichText.Command

/-- What a command finds. -/
structure World where
  files : FileSystem := {}
  stdin : Content := .ofText ""

/-- What a command leaves. -/
structure Outcome where
  code : Nat
  stdout : String
  stderr : String
  files : FileSystem

/-- Why a request fails. -/
inductive Failure where
  | library (e : Error)
  /-- The standard input cannot be read. -/
  | stdin (e : FileError)
  /-- A file cannot be read. -/
  | input (e : FileError)
  /-- The output cannot be written. -/
  | output (e : FileError)
  deriving DecidableEq, Repr

def Failure.message : Failure → String
  | library e => e.message
  | stdin e => e.message
  | input e => "I/O error: " ++ e.message
  | output e => e.message

/-- A failure is told on the standard error and changes no file. -/
def Failure.outcome (w : World) (e : Failure) : Outcome :=
  ⟨1, "", "Error: " ++ e.message ++ "\n", w.files⟩

/-- Whether a path stands for the standard input: a dash, with nothing behind it but parts that
lead nowhere. -/
def isStdin (path : String) : Bool :=
  match pathParts path with
  | first :: rest => first = "-" && rest.all fun part => part = "" || part = "."
  | [] => false

namespace World

def readFile (w : World) (path : String) : Except Failure String :=
  match w.files.read path with
  | .ok text => .ok text
  | .error e => .error (.input e)

/-- The text of an input, where a dash stands for the standard input. -/
def readInput (w : World) (path : String) : Except Failure String :=
  if isStdin path then
    match w.stdin.text with
    | .ok text => .ok text
    | .error e => .error (.stdin e)
  else w.readFile path

def readDocument (w : World) (path : String) : Except Failure Document := do
  let text ← w.readInput path
  match Document.ofJson? text with
  | some d => .ok d
  | none => .error (.library .json)

def readManifest (w : World) : Option String → Except Failure Manifest
  | none => .ok .empty
  | some path => do
    let text ← w.readFile path
    match Manifest.ofJson? text with
    | some m => .ok m
    | none => .error (.library .json)

/-- Prints a text, or makes it the whole content of a file. -/
def write (w : World) (output : Option String) (text : String) : Except Failure Outcome :=
  match output with
  | none => .ok ⟨0, text, "", w.files⟩
  | some path =>
    match w.files.write path text with
    | .ok files => .ok ⟨0, "", "Saved to " ++ path ++ "\n", files⟩
    | .error e => .error (.output e)

end World

def programName : String := "docmark"

def versionLine : String := programName ++ " 0.1.0\n"

def versionText : String :=
  versionLine ++ "Document tree to Markdown, HTML, and text converter\n\nLicense: MIT\n"

def usageText : String :=
  "Usage: " ++ programName ++ " <convert|tree|info|formats|version> [arguments]\n"

/-- A heading over a line of forty dashes. -/
def headed (heading : String) : String :=
  heading ++ "\n" ++ String.ofList (List.replicate 40 '─') ++ "\n"

def infoLine (name value : String) : String := name ++ ": " ++ value ++ "\n"

/-- How many nodes of each kind a tree has, by the names of the kinds. -/
def kindCounts (t : Tree) : List (String × Nat) :=
  ((Kind.all.map fun k => (k.name, t.preorder.countP fun s => s.kind = k)).filter
    fun c => c.2 ≠ 0).mergeSort fun a b => a.1 ≤ b.1

def infoText (path : String) (d : Document) (t : Tree) : String :=
  headed "Document Information" ++ infoLine "File" path ++
  (match d.title with
    | some title => infoLine "Title" title
    | none => "") ++
  (match d.id with
    | some id => infoLine "Document ID" id
    | none => "") ++
  infoLine "Elements" (toString d.body.length) ++ infoLine "Lists" (toString d.lists.size) ++
  "\n" ++ headed "Parse Tree" ++ infoLine "Nodes" (toString t.size) ++
  String.join ((kindCounts t).map fun (name, count) => "  " ++ infoLine name (toString count))

/-- A result of the library as one of the command. -/
def orFail {α : Type} : Except Error α → Except Failure α
  | .ok a => .ok a
  | .error e => .error (.library e)

/-- What a request comes to. -/
def Request.perform (w : World) : Request → Except Failure Outcome
  | convert document manifest output converter => do
    let d ← w.readDocument document
    let m ← w.readManifest manifest
    let text ← orFail (converter.convert d m)
    w.write output text
  | tree document output compact lenient => do
    let d ← w.readDocument document
    let t ← orFail (d.tree { lenient })
    w.write output (t.dump compact ++ "\n")
  | info document => do
    let d ← w.readDocument document
    let t ← orFail (d.tree { lenient := true })
    w.write none (infoText document d t)
  | formats => w.write none (String.join (Registry.standard.keys.map (· ++ "\n")))
  | version => w.write none versionText

/-- Runs a request. -/
def Request.run (w : World) (r : Request) : Outcome :=
  match r.perform w with
  | .ok outcome => outcome
  | .error e => e.outcome w

/-- What the program leaves when the arguments make no request. -/
def Stop.outcome (w : World) : Stop → Outcome
  | help => ⟨0, usageText, "", w.files⟩
  | version => ⟨0, versionLine, "", w.files⟩
  | misuse => ⟨2, "", usageText, w.files⟩

/-- Runs the program with its arguments. -/
def run (environment : Option String) (args : List String) (w : World) : Outcome :=
  match Request.ofArguments environment args with
  | .ok r => r.run w
  | .error stop => stop.outcome w

end RichText.Command
