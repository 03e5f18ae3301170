import Std.Time.DateTime.Timestamp
import SyntheticRows.CommandLine.Program

/-!
# The executable

Runs the command line against a database that accepts every statement and holds no rows, and lists
what was sent to it.
-/
namespace SyntheticRows.Main
open CommandLine

def pools : NamePools :=
  { firstNames := ["Ada", "Ben", "Cleo", "Dora", "Emil", "Fay", "Gil", "Hana"]
    lastNames := ["Adler", "Brook", "Castle", "Dunn", "Ember", "Frost", "Grove", "Hill"]
    cities := ["Aarhus", "Basel", "Cork", "Dijon", "Essen", "Fano", "Ghent", "Hull"] }

/-- The paths that a word may hold: the word itself, what follows its equals sign, and what
follows a letter after a dash. -/
def pathsOf (word : String) : List String :=
  let cs := word.toList
  [cs, (cs.dropWhile (· ≠ '=')).drop 1, cs.drop 2].map String.ofList

/-- The files among some paths that can be read. -/
def readFiles (paths : List String) : IO Files :=
  paths.filterMapM fun (path : String) =>
    try
      return some (path, ← IO.FS.readFile path)
    catch _ => return none

/-- The text of what was sent to the database. -/
def sent? (writer : Engine) : Event → Option String
  | .executed s => some (s.render writer)
  | .fetched q => some (q.render writer)
  | .queried q => some q.text
  | .opened _ | .disposed => none

end SyntheticRows.Main

open SyntheticRows in
def main (words : List String) : IO UInt32 := do
  let now ← Std.Time.Timestamp.now
  let files ← Main.readFiles (words.flatMap Main.pathsOf)
  let around : CommandLine.Surroundings :=
    { files, pools := Main.pools, now := now.toSecondsSinceUnixEpoch.val }
  let outcome := CommandLine.run around {} words
  let session := outcome.terminal.session
  for text in session.events.filterMap (Main.sent? session.writer) do
    IO.println (text ++ ";")
  IO.print outcome.terminal.output
  IO.eprint outcome.errors
  return outcome.exitCode.toUInt32
