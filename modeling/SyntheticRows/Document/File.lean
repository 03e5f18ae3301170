import SyntheticRows.Document.Reading
import SyntheticRows.Json.Reader
import SyntheticRows.Yaml.Content

/-!
# Document files

A file whose name ends in `.json` holds JSON, any other one YAML.
-/
namespace SyntheticRows.Document

/-- The part of a path after the last slash. -/
def fileName (path : List Char) : List Char := (path.reverse.takeWhile (· ≠ '/')).reverse

/-- The ending of a name from its last point on. A point at either end of the name starts none. -/
def suffix (path : String) : String :=
  let name := fileName path.toList
  let ending := (name.reverse.takeWhile (· ≠ '.')).reverse
  let start := name.length - ending.length
  if start ≤ 1 || ending.isEmpty then "" else String.ofList ('.' :: ending)

def isJson (path : String) : Bool :=
  String.ofList ((suffix path).toList.map Char.toLower) == ".json"

/-- Reads the document of a file; an empty one declares nothing. -/
def ofText (path text : String) : Except Error Document := do
  let v ← if isJson path then Json.read text else Yaml.read text
  read (if v.isPresent then v else .mapping [])

end SyntheticRows.Document
