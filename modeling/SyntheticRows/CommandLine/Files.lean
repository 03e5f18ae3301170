/-!
# Files

The files that a command line can refer to, by paths from the working directory.
-/
namespace SyntheticRows.CommandLine

/-- Names, with slashes between directories, and texts. -/
abbrev Files := List (String × String)

/-- What is at a path. -/
inductive Entry where
  | file (text : String)
  | directory
  | nothing
  deriving DecidableEq, Repr

namespace Files

/-- The parts of a path between slashes. -/
def parts (path : List Char) : List (List Char) :=
  match path with
  | [] => [[]]
  | c :: rest =>
    match parts rest with
    | [] => [[]]
    | p :: ps => if c = '/' then [] :: p :: ps else (c :: p) :: ps

def isStep (p : List Char) : Bool := !p.isEmpty && p != ['.']

/-- A file by the parts of its path. -/
def textAt? (files : Files) (path : List (List Char)) : Option String :=
  (List.find? (fun f => (parts f.1.toList).filter isStep == path) files).map Prod.snd

def isDirectory (files : Files) (path : List (List Char)) : Bool :=
  path.isEmpty || files.any fun f =>
    path.isPrefixOf (((parts f.1.toList).filter isStep).dropLast)

/-- Follows steps from a directory. Above the working directory only directories are known. -/
def follow (files : Files) (place : List (List Char)) : List (List Char) → Entry
  | [] => if files.isDirectory place then .directory else .nothing
  | [step] =>
    if step == ['.', '.'] then .directory
    else match files.textAt? (place ++ [step]) with
      | some text => .file text
      | none => if files.isDirectory (place ++ [step]) then .directory else .nothing
  | step :: rest =>
    if step == ['.', '.'] then
      if place.isEmpty then
        if rest.all (· == ['.', '.']) then .directory else .nothing
      else follow files place.dropLast rest
    else if files.isDirectory (place ++ [step]) then follow files (place ++ [step]) rest
    else .nothing

/-- The directories at the root of a system. -/
def rootDirectories : List String :=
  ["bin", "dev", "etc", "home", "lib", "mnt", "opt", "proc", "root", "run", "sbin", "srv", "sys",
    "tmp", "usr", "var"]

/-- What is known outside the working directory: the directories at the root, and the null device,
which is an empty file. -/
def systemEntry (steps : List (List Char)) : Entry :=
  match steps.map String.ofList with
  | [] => .directory
  | [name] => if rootDirectories.contains name then .directory else .nothing
  | ["dev", "null"] => .file ""
  | _ => .nothing

/-- What is at a path. A path that ends in a slash or a point names a directory. Files outside the
working directory are listed by their whole path. -/
def entry (files : Files) (path : String) : Entry :=
  let ps := parts path.toList
  if path.isEmpty then .nothing
  else if path.toList.head? = some '/' then
    match List.find? (·.1 == path) files with
    | some f => .file f.2
    | none => atEnd ps (systemEntry (ps.filter isStep))
  else atEnd ps (follow files [] (ps.filter isStep))
where
  /-- No file is at a path that names a directory. -/
  atEnd (ps : List (List Char)) : Entry → Entry
    | .file text => if ps.getLast?.any isStep then .file text else .nothing
    | e => e

end Files
end SyntheticRows.CommandLine
