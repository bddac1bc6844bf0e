import RichText.Format.Basic

/-!
The HTML format.
-/
namespace RichText.Html

/-- Writes the characters of markup as entities. -/
def escapeChar (c : Char) : List Char :=
  if c = '&' then "&amp;".toList
  else if c = '<' then "&lt;".toList
  else if c = '>' then "&gt;".toList
  else if c = '"' then "&#34;".toList
  else if c = '\'' then "&#39;".toList
  else [c]

def escape (text : List Char) : List Char := text.flatMap escapeChar

/-- The element of an image file. -/
def imageTag (f : AssetFile) : List Char :=
  "<img src=\"".toList ++ escape f.name.toList ++ "\" height=".toList ++
    Nat.toDigits 10 f.height.toNat ++ " width=".toList ++ Nat.toDigits 10 f.width.toNat ++
    " />".toList

def link (url text : List Char) : List Char :=
  "<a href=\"".toList ++ escape url ++ "\">".toList ++ text ++ "</a>".toList

def openCode (text : List Char) : List Char :=
  if '\n' ∈ text then "<pre><code>".toList ++ text else "<code>".toList ++ text

def closeCode (text : List Char) : List Char :=
  if '\n' ∈ text then dropEndWhile (· = '\n') text ++ "</code></pre>\n".toList
  else text ++ "</code>".toList

def heading (level : Nat) (text : List Char) : List Char :=
  "<h".toList ++ Nat.toDigits 10 level ++ '>' :: text ++ "</h".toList ++ Nat.toDigits 10 level ++
    ">\n".toList

def orderedItem (number : Nat) (text : List Char) : List Char :=
  "<li value=\"".toList ++ Nat.toDigits 10 number ++ "\">".toList ++ text ++ "</li>\n".toList

def rule : Kind → Rule
  | .document => Rule.block.enclosed "" "\n"
  | .plain => { wrapping := .unlessNested, leftPad := true, escape }
  | .bold => Rule.span.enclosed "<b>" "</b>"
  | .italic => Rule.span.enclosed "<i>" "</i>"
  | .link => { leftPad := true, link }
  | .code => { requiresContent := true, escape, before := openCode, after := closeCode }
  | .paragraph => Rule.block.enclosed "<p>" "</p>\n"
  | .heading => { Rule.block with byLevel := heading }
  | .image => { file := some imageTag }
  | .unorderedList => Rule.enclosed { requiresContent := true } "<ul>\n" "</ul>\n"
  | .orderedList => Rule.enclosed { requiresContent := true } "<ol>\n" "</ol>\n"
  | .unorderedItem => Rule.block.enclosed "<li>" "</li>\n"
  | .orderedItem => { Rule.block with byNumber := orderedItem }
  | .table => Rule.enclosed {} "<table>\n" "</table>\n"
  | .tableRow => Rule.enclosed {} "<tr>" "</tr>\n"
  | .tableCell => Rule.enclosed { trimInside := true } "<td>" "</td>"

def table : RuleTable := ⟨"html", fun kind => some (rule kind)⟩

end RichText.Html
