import RichText.Document.Decode
import RichText.Json.Printer

/-!
The manifest: which file was downloaded for which embedded object. An entry is a structure, or
in its older form a bare file name.
-/
namespace RichText

open Json Json.Value

/-- A downloaded file. A size of zero is unknown. -/
structure AssetFile where
  name : String
  width : UInt32 := 0
  height : UInt32 := 0
  deriving DecidableEq, Repr

abbrev Manifest := Catalog AssetFile

namespace AssetFile

/-- An entry in either form. The array form of a structure is not one of them. -/
def ofValue? : Value → Option AssetFile
  | .string s => s.map fun name => { name }
  | .object ms => do
    let ms ← members? ["filename", "width", "height"] (.object ms)
    let name ← ms.lookup "filename"
    return ⟨← name.text?, ← field ms "width" 0 uint32?, ← field ms "height" 0 uint32?⟩
  | _ => none

/-- An entry is kept whole before its form is known, so all of it must be keepable. -/
def decode : Decoder AssetFile := fun room v => if v.keepable room then ofValue? v else none

def encode (f : AssetFile) : Value :=
  record [("filename", text f.name), ("width", ofNat f.width.toNat),
    ("height", ofNat f.height.toNat)]

end AssetFile

namespace Manifest

def decode : Decoder Manifest := Catalog.decode AssetFile.decode

/-- The manifest that a JSON text describes. -/
def ofJson? (s : String) : Option Manifest := (Value.ofString? s).bind (decode maxDepth)

def encode (m : Manifest) : Value := record (m.entries.map fun (id, file) => (id, file.encode))

end Manifest

end RichText
