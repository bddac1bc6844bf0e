import RichText.Command.Run

/-!
The program: it finds what a request needs, runs the request and carries out its outcome.
-/
open RichText RichText.Command

/-- The files that a request reads. -/
def RichText.Command.Request.inputs : Request → List String
  | .convert document manifest _ _ => document :: manifest.toList
  | .tree document _ _ _ => [document]
  | .info document => [document]
  | .formats => []
  | .version => []

/-- The file that a request writes. -/
def RichText.Command.Request.target? : Request → Option String
  | .convert _ _ output _ => output
  | .tree _ output _ _ => output
  | _ => none

/-- What the system reports, in its words. -/
def reported (e : IO.Error) : FileError :=
  match e with
  | .noFileOrDirectory .. => .missing
  | .permissionDenied .. => .other "Permission denied (os error 13)"
  | _ => .other (toString e)

/-- Adds what stands at a place in a known directory. -/
def findPlace (fs : FileSystem) (place : List String) : IO FileSystem := do
  if !fs.hasDirectory place.dropLast then return fs
  let path := if place = [] then "/" else fullPath place
  try
    let bytes ← IO.FS.readBinFile path
    return { fs with files := fs.files.insert path (.bytes bytes) }
  catch e =>
    match e with
    | .inappropriateType .. => return fs.addDirectory place
    | .noFileOrDirectory .. => return fs
    | _ => return { fs with files := fs.files.insert path (.broken (reported e)) }

/-- Adds what stands on the way along a path. -/
def findPath (fs : FileSystem) (path : String) : IO FileSystem := do
  let mut found := fs
  let mut place := fs.start path
  for part in pathParts path do
    place := follow place part
    found ← findPlace found place
  return found

/-- The files and directories that matter to a request. -/
def findFiles (r : Request) : IO FileSystem := do
  let here := (pathParts (← IO.currentDir).toString).filter isName
  let mut fs : FileSystem := FileSystem.ofFiles here []
  for path in r.inputs ++ r.target?.toList do
    fs ← findPath fs path
  return fs

/-- The standard input, if a request reads it. -/
def findStdin (r : Request) : IO Content := do
  if !r.inputs.head?.any isStdin then return .ofText ""
  try
    let stdin ← IO.getStdin
    return .bytes (← stdin.readBinToEnd)
  catch e => return .broken (reported e)

def findWorld (r : Request) : IO World := do
  return ⟨← findFiles r, ← findStdin r⟩

/-- Prints an outcome and gives its exit status. -/
def report (o : Outcome) : IO UInt32 := do
  IO.print o.stdout
  IO.eprint o.stderr
  return .ofNat o.code

/-- Writes the file of an outcome. -/
def save (w : World) (o : Outcome) (path : String) : IO Outcome := do
  match o.files.read path with
  | .ok text =>
    try
      IO.FS.writeFile path text
      return o
    catch e => return (Failure.output (reported e)).outcome w
  | .error _ => return o

def main (args : List String) : IO UInt32 := do
  match Request.ofArguments (← IO.getEnv "DOCMARK_FORMAT") args with
  | .error stop => report (stop.outcome {})
  | .ok r =>
    let w ← findWorld r
    let o := r.run w
    match r.target? with
    | some path => if o.code = 0 then report (← save w o path) else report o
    | none => report o
