import RichText.Command.Run
import RichText.Proofs.Render.Outcome

/-!
Commands that make a text, all or nothing. A conversion or a dump passes seven stages, each of which
can fail. It makes its whole text first and writes it last, so either it tells of the first stage
that fails and changes nothing, or what it leaves is the text, and nothing else has changed.
-/
namespace RichText.Command

/-- What a command makes of a document. -/
inductive Product where
  /-- The text in a format. -/
  | converted (format : String)
  /-- The tree as JSON, and an end of line. -/
  | dumped (compact : Bool)
  deriving DecidableEq, Repr

/-- What a command is asked to make, and of what. -/
structure Job where
  document : String
  manifest : Option String := none
  output : Option String
  options : Options
  product : Product
  deriving DecidableEq, Repr

/-- The jobs that the arguments of the two commands ask for. -/
inductive Asks (environment : Option String) : List String → Job → Prop
  | convert {args : List String} {g : Given} {document : String}
    (hread : readArguments Request.convertOptions 1 args = .ok g)
    (hdocument : g.positional = [document]) :
    Asks environment ("convert" :: args)
      { document
        manifest := g.value? "manifest"
        output := g.value? "output"
        options := { lenient := g.has "lenient"
                     codeFont := (g.value? "code-font").getD "Consolas" }
        product := .converted (((g.value? "format").or environment).getD "md") }
  | tree {args : List String} {g : Given} {document : String}
    (hread : readArguments Request.treeOptions 1 args = .ok g)
    (hdocument : g.positional = [document]) :
    Asks environment ("tree" :: args)
      { document
        output := g.value? "output"
        options := { lenient := g.has "lenient" }
        product := .dumped (g.has "compact") }

namespace Job

/-- The document of a job, if its file can be read and holds one. -/
def document? (w : World) (j : Job) : Option Document :=
  match w.readInput j.document with
  | .ok text => Document.ofJson? text
  | .error _ => none

/-- The manifest of a job, if its file can be read and holds one. No file stands for no files. -/
def manifest? (w : World) (j : Job) : Option Manifest :=
  match j.manifest with
  | none => some .empty
  | some path =>
    match w.readFile path with
    | .ok text => Manifest.ofJson? text
    | .error _ => none

/-- What the library makes of a document and a manifest. -/
def make (j : Job) (d : Document) (files : Manifest) : Except Error String :=
  match j.product with
  | .converted format => (Converter.mk format j.options).convert d files
  | .dumped compact => (d.tree j.options).map fun t => t.dump compact ++ "\n"

end Job

/-- Where a command can fail, in the order in which it passes. -/
inductive Stage where
  | documentRead | documentDecode | manifestRead | manifestDecode | formatLookup | parse
  | outputWrite
  deriving DecidableEq, Repr

namespace Stage

def all : List Stage :=
  [documentRead, documentDecode, manifestRead, manifestDecode, formatLookup, parse, outputWrite]

/-- What fails at a stage, if it is reached. -/
def failure? (w : World) (j : Job) : Stage → Option Failure
  | documentRead =>
    match w.readInput j.document with
    | .ok _ => none
    | .error e => some e
  | documentDecode =>
    match w.readInput j.document with
    | .ok text => if (Document.ofJson? text).isNone then some (.library .json) else none
    | .error _ => none
  | manifestRead =>
    match j.manifest.map w.readFile with
    | some (.error e) => some e
    | _ => none
  | manifestDecode =>
    match j.manifest.map w.readFile with
    | some (.ok text) => if (Manifest.ofJson? text).isNone then some (.library .json) else none
    | _ => none
  | formatLookup =>
    match j.product with
    | .converted format =>
      if Registry.standard.supports format then none else some (.library (.unknownFormat format))
    | .dumped _ => none
  | parse =>
    match (j.document? w).map (Document.tree · j.options) with
    | some (.error e) => some (.library e)
    | _ => none
  | outputWrite =>
    match j.output.map w.files.target with
    | some (.error e) => some (.output e)
    | _ => none

end Stage

/-- A file with a text as its whole content, and all else as it was. -/
structure Replaced (fs : FileSystem) (path text : String) (after : FileSystem) : Prop where
  read_eq : after.read path = .ok text
  others : ∃ place, fs.target path = .ok place ∧ after.content? place = some (.ofText text) ∧
    ∀ name, name ≠ fullPath place → after.files.get? name = fs.files.get? name
  directories_eq : after.directories = fs.directories
  here_eq : after.here = fs.here
  refused_eq : after.refused = fs.refused

/-- A text that is printed, or else is the whole content of the output file and not printed. -/
def Delivered (w : World) (output : Option String) (text : String) (o : Outcome) : Prop :=
  o.code = 0 ∧
    match output with
    | none => o.stdout = text ∧ o.files = w.files
    | some path => o.stdout = "" ∧ Replaced w.files path text o.files

/-- File systems with the same directories, seen from the same place. -/
structure FileSystem.SameDirectories (fs after : FileSystem) : Prop where
  directories : after.directories = fs.directories
  here : after.here = fs.here
  refused : after.refused = fs.refused

namespace FileSystem
variable {fs after : FileSystem} (h : fs.SameDirectories after)
include h

theorem SameDirectories.hasDirectory (place : List String) :
    after.hasDirectory place = fs.hasDirectory place := by
  rw [FileSystem.hasDirectory, FileSystem.hasDirectory, h.directories]

theorem SameDirectories.permit (place : List String) : after.permit place = fs.permit place := by
  rw [FileSystem.permit, FileSystem.permit, h.refused]

theorem SameDirectories.step {place next : List String} {part : String}
    (hstep : fs.step place part = .ok next) : after.step place part = .ok next := by
  unfold FileSystem.step at hstep ⊢
  rw [h.hasDirectory]
  split at hstep
  · cases hstep
  · rename_i hlong
    rw [if_neg hlong]
    split at hstep
    · rename_i hdir
      rw [if_pos hdir]
      exact hstep
    · split at hstep <;> cases hstep

/-- A way through directories is still there when files change. -/
theorem SameDirectories.enter {place next : List String} {part : String}
    (henter : fs.enter place part = .ok next) : after.enter place part = .ok next := by
  rw [FileSystem.enter, bind_eq_ok] at henter ⊢
  obtain ⟨last, hstep, hpermit⟩ := henter
  exact ⟨last, h.step hstep, by rwa [h.permit]⟩

theorem SameDirectories.foldlM_enter {parts : List String} {place last : List String}
    (hparts : parts.foldlM fs.enter place = .ok last) :
    parts.foldlM after.enter place = .ok last := by
  induction parts generalizing place with
  | nil => exact hparts
  | cons part parts ih =>
    rw [List.foldlM_cons, bind_eq_ok] at hparts ⊢
    obtain ⟨next, hnext, hlast⟩ := hparts
    exact ⟨next, h.enter hnext, ih hlast⟩

theorem SameDirectories.directoryOf {path : String} {place : List String}
    (hpath : fs.directoryOf path = .ok place) : after.directoryOf path = .ok place := by
  unfold FileSystem.directoryOf start at hpath ⊢
  rw [h.here, h.permit]
  split at hpath
  · cases hpath
  · rename_i hlong
    rw [if_neg hlong]
    rw [bind_eq_ok] at hpath ⊢
    obtain ⟨first, hfirst, hparts⟩ := hpath
    exact ⟨first, hfirst, h.foldlM_enter hparts⟩

theorem SameDirectories.placeIn (place : List String) (name : String) :
    after.placeIn place name = fs.placeIn place name := by
  rw [FileSystem.placeIn, FileSystem.placeIn, h.hasDirectory]

omit h

/-- A file that is written to stands in its directory. -/
theorem exists_of_target {path : String} {place : List String} (h : fs.target path = .ok place) :
    ∃ directory, fs.directoryOf path = .ok directory ∧
      fs.placeIn directory ((pathParts path).getLastD "") = .ok place := by
  simp only [target, bind_eq_ok] at h
  obtain ⟨directory, hdirectory, hin⟩ := h
  split at hin
  · rename_i hstem
    rw [hstem] at hdirectory
    rw [bind_eq_ok] at hin
    obtain ⟨last, hlast, hpermit⟩ := hin
    unfold permit at hpermit
    split at hpermit
    · cases hpermit
    · cases hpermit
      exact ⟨directory, hdirectory, hlast⟩
  · cases hin

/-- Writing a file makes the text its content and changes no other. -/
theorem replaced_write {path text : String} (h : fs.write path text = .ok after) :
    Replaced fs path text after := by
  simp only [write, bind_eq_ok, pure, Except.pure, Except.ok.injEq] at h
  obtain ⟨place, htarget, hafter⟩ := h
  have hsame : fs.SameDirectories after := by
    rw [← hafter]
    exact ⟨rfl, rfl, rfl⟩
  have hfiles (name : String) : after.files.get? name =
      if name = fullPath place then some (.ofText text) else fs.files.get? name := by
    rw [← hafter, Catalog.get?_insert]
  have hcontent : after.content? place = some (.ofText text) := by
    rw [content?, hfiles, if_pos rfl]
  have hothers (name : String) (hname : name ≠ fullPath place) :
      after.files.get? name = fs.files.get? name := by
    rw [hfiles, if_neg hname]
  refine ⟨?_, ⟨place, htarget, hcontent, hothers⟩, hsame.directories, hsame.here, hsame.refused⟩
  obtain ⟨directory, hdirectory, hin⟩ := exists_of_target htarget
  rw [← hsame.placeIn] at hin
  simp only [read, bind_eq_ok]
  exact ⟨directory, hsame.directoryOf hdirectory, place, hin,
    by rw [hcontent]; exact Content.text_ofText text⟩

end FileSystem

/-! ### What each part of a command comes to -/

section
variable (w : World) (j : Job)

/-- The failure at the first of these stages that fails. -/
def firstFailure (stages : List Stage) : Option Failure := stages.findSome? (Stage.failure? w j)

theorem readDocument_cases :
    (∃ d, j.document? w = some d ∧ w.readDocument j.document = .ok d ∧
      firstFailure w j [.documentRead, .documentDecode] = none) ∨
    ∃ e, w.readDocument j.document = .error e ∧
      firstFailure w j [.documentRead, .documentDecode] = some e := by
  unfold World.readDocument Job.document?
  cases hread : w.readInput j.document with
  | error e => exact .inr ⟨e, rfl, by simp [firstFailure, Stage.failure?, hread]⟩
  | ok text =>
    cases hdecode : Document.ofJson? text with
    | none =>
      refine .inr ⟨.library .json, ?_, by simp [firstFailure, Stage.failure?, hread, hdecode]⟩
      simp only [bind, Except.bind, hdecode]
    | some d =>
      refine .inl ⟨d, hdecode, ?_, by simp [firstFailure, Stage.failure?, hread, hdecode]⟩
      simp only [bind, Except.bind, hdecode]

theorem readManifest_cases :
    (∃ files, j.manifest? w = some files ∧ w.readManifest j.manifest = .ok files ∧
      firstFailure w j [.manifestRead, .manifestDecode] = none) ∨
    ∃ e, w.readManifest j.manifest = .error e ∧
      firstFailure w j [.manifestRead, .manifestDecode] = some e := by
  cases hpath : j.manifest with
  | none =>
    refine .inl ⟨.empty, ?_, rfl, by simp [firstFailure, Stage.failure?, hpath]⟩
    rw [Job.manifest?, hpath]
  | some path =>
    cases hread : w.readFile path with
    | error e =>
      refine .inr ⟨e, ?_, by simp [firstFailure, Stage.failure?, hpath, hread]⟩
      simp only [World.readManifest, hread, bind, Except.bind]
    | ok text =>
      cases hdecode : Manifest.ofJson? text with
      | none =>
        refine .inr ⟨.library .json, ?_,
          by simp [firstFailure, Stage.failure?, hpath, hread, hdecode]⟩
        simp only [World.readManifest, hread, hdecode, bind, Except.bind]
      | some files =>
        refine .inl ⟨files, ?_, ?_, by simp [firstFailure, Stage.failure?, hpath, hread, hdecode]⟩
        · simp only [Job.manifest?, hpath, hread, hdecode]
        · simp only [World.readManifest, hread, hdecode, bind, Except.bind]

/-- The library fails for want of the format or of a tree. -/
theorem make_cases {d : Document} (hd : j.document? w = some d) (files : Manifest) :
    (∃ text, j.make d files = .ok text ∧ firstFailure w j [.formatLookup, .parse] = none) ∨
    ∃ e, j.make d files = .error e ∧
      firstFailure w j [.formatLookup, .parse] = some (.library e) := by
  unfold Job.make
  cases hproduct : j.product with
  | dumped compact =>
    cases htree : d.tree j.options with
    | error e =>
      exact .inr ⟨e, rfl, by simp [firstFailure, Stage.failure?, hproduct, hd, htree]⟩
    | ok t => exact .inl ⟨_, rfl, by simp [firstFailure, Stage.failure?, hproduct, hd, htree]⟩
  | converted format =>
    cases hformat : Registry.standard.supports format with
    | false =>
      refine .inr ⟨.unknownFormat format, ?_,
        by simp [firstFailure, Stage.failure?, hproduct, hformat]⟩
      simp only [Converter.convert, Registry.get_standard_of_not hformat, bind, Except.bind]
    | true =>
      obtain ⟨write, hwrite⟩ :=
        Converter.exists_convert_eq_map (c := ⟨format, j.options⟩) hformat files
      simp only [hwrite]
      cases htree : d.tree j.options with
      | error e =>
        exact .inr ⟨e, rfl, by simp [firstFailure, Stage.failure?, hproduct, hformat, hd, htree]⟩
      | ok t =>
        exact .inl ⟨_, rfl, by simp [firstFailure, Stage.failure?, hproduct, hformat, hd, htree]⟩

theorem write_cases (text : String) :
    (∃ o, w.write j.output text = .ok o ∧ Delivered w j.output text o ∧
      firstFailure w j [.outputWrite] = none) ∨
    ∃ e, w.write j.output text = .error e ∧ firstFailure w j [.outputWrite] = some e := by
  cases hpath : j.output with
  | none =>
    exact .inl ⟨_, rfl, ⟨rfl, rfl, rfl⟩, by simp [firstFailure, Stage.failure?, hpath]⟩
  | some path =>
    cases htarget : w.files.target path with
    | error e =>
      refine .inr ⟨.output e, ?_, by simp [firstFailure, Stage.failure?, hpath, htarget]⟩
      simp only [World.write, FileSystem.write, htarget, bind, Except.bind]
    | ok place =>
      obtain ⟨after, hwrite⟩ : ∃ after, w.files.write path text = .ok after := by
        simp only [FileSystem.write, htarget, bind, Except.bind, pure, Except.pure]
        exact ⟨_, rfl⟩
      refine .inl ⟨⟨0, "", "Saved to " ++ path ++ "\n", after⟩, ?_,
        ⟨rfl, rfl, FileSystem.replaced_write hwrite⟩,
        by simp [firstFailure, Stage.failure?, hpath, htarget]⟩
      simp only [World.write, hwrite]

end

/-! ### The whole command -/

namespace Job

/-- A job done: the inputs are read, the text is made, and at last it is written. -/
def perform (w : World) (j : Job) : Except Failure Outcome := do
  let d ← w.readDocument j.document
  let files ← w.readManifest j.manifest
  let text ← orFail (j.make d files)
  w.write j.output text

/-- A job is given up at the first stage that fails, or its text is delivered. -/
theorem perform_cases (w : World) (j : Job) :
    (∃ e, firstFailure w j Stage.all = some e ∧ j.perform w = .error e) ∨
    firstFailure w j Stage.all = none ∧ ∃ d files text o, j.document? w = some d ∧
      j.manifest? w = some files ∧ j.make d files = .ok text ∧ j.perform w = .ok o ∧
      Delivered w j.output text o := by
  have hall : firstFailure w j Stage.all =
      (((firstFailure w j [.documentRead, .documentDecode]).or
        (firstFailure w j [.manifestRead, .manifestDecode])).or
        (firstFailure w j [.formatLookup, .parse])).or (firstFailure w j [.outputWrite]) := by
    simp only [firstFailure, ← List.findSome?_append]
    rfl
  rw [hall]
  obtain ⟨d, hd, hread, hnone₁⟩ | ⟨e, hread, hsome⟩ := readDocument_cases w j
  case inr => exact .inl ⟨e, by rw [hsome]; rfl, by simp only [perform, hread, bind, Except.bind]⟩
  obtain ⟨files, hfiles, hmanifest, hnone₂⟩ | ⟨e, hmanifest, hsome⟩ := readManifest_cases w j
  case inr =>
    exact .inl ⟨e, by rw [hnone₁, hsome]; rfl,
      by simp only [perform, hread, hmanifest, bind, Except.bind]⟩
  obtain ⟨text, htext, hnone₃⟩ | ⟨e, hmake, hsome⟩ := make_cases w j hd files
  case inr =>
    exact .inl ⟨.library e, by rw [hnone₁, hnone₂, hsome]; rfl,
      by simp only [perform, hread, hmanifest, hmake, orFail, bind, Except.bind]⟩
  obtain ⟨o, hwrite, hdelivered, hnone₄⟩ | ⟨e, hwrite, hsome⟩ := write_cases w j text
  case inr =>
    exact .inl ⟨e, by rw [hnone₁, hnone₂, hnone₃, hsome]; rfl,
      by simp only [perform, hread, hmanifest, htext, orFail, hwrite, bind, Except.bind]⟩
  refine .inr ⟨by rw [hnone₁, hnone₂, hnone₃, hnone₄]; rfl, d, files, text, o, hd, hfiles, htext,
    ?_, hdelivered⟩
  simp only [perform, hread, hmanifest, htext, orFail, hwrite, bind, Except.bind]

end Job

theorem positional_of_theDocument {g : Given} {document : String}
    (h : Request.theDocument g = .ok document) : g.positional = [document] := by
  unfold Request.theDocument at h
  split at h
  · rename_i name hname
    rw [hname, Except.ok.inj h]
  · cases h

/-- Accepted arguments ask for a job, and the request that they make does it. -/
theorem exists_asks {environment : Option String} {command : String} {args : List String}
    {r : Request} (hc : command = "convert" ∨ command = "tree")
    (hr : Request.ofArguments environment (command :: args) = .ok r) :
    ∃ j, Asks environment (command :: args) j ∧ ∀ w, r.perform w = j.perform w := by
  obtain rfl | rfl := hc
  · have hconvert : Request.ofConvert environment args = .ok r := hr
    simp only [Request.ofConvert, bind_eq_ok, pure, Except.pure, Except.ok.injEq] at hconvert
    obtain ⟨g, hread, document, hdocument, rfl⟩ := hconvert
    refine ⟨_, .convert hread (positional_of_theDocument hdocument), fun w => ?_⟩
    cases g.value? "code-font" <;> rfl
  · have htree : Request.ofTree args = .ok r := hr
    simp only [Request.ofTree, bind_eq_ok, pure, Except.pure, Except.ok.injEq] at htree
    obtain ⟨g, hread, document, hdocument, rfl⟩ := htree
    refine ⟨_, .tree hread (positional_of_theDocument hdocument), fun w => ?_⟩
    simp only [Request.perform, Job.perform, Job.make, World.readManifest]
    congr 1
    funext d
    cases d.tree { lenient := g.has "lenient" } <;> rfl

/-- A document without a body in the working directory. -/
def World.withDocument : World where
  files := .ofFiles ["work"] [("a.json", "\x7b\x7d")]

end RichText.Command
