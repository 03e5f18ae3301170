import SyntheticRows.CommandLine.Files
import SyntheticRows.CommandLine.Parameter
import SyntheticRows.Text.Numeral

/-!
# Values of parameters

Reads what is given to the parameters of a command. Options are read in the order in which they
are given, then the arguments; what is required and not given is missed last.
-/
namespace SyntheticRows.CommandLine

/-- The values of the parameters that are given, by key. -/
abbrev Values := List (String × Value)

namespace Values

def get? (vs : Values) (key : String) : Option Value := (vs.find? (·.1 == key)).map Prod.snd

def text? (vs : Values) (key : String) : Option String :=
  match vs.get? key with
  | some (.text s) => some s
  | _ => none

def whole? (vs : Values) (key : String) : Option Int :=
  match vs.get? key with
  | some (.int i) => some i
  | _ => none

def isOn (vs : Values) (key : String) : Bool :=
  match vs.get? key with
  | some (.bool b) => b
  | _ => false

/-- The values with one more, which is kept only if the key has none yet. -/
def withDefault (vs : Values) (key : String) (v : Value) : Values :=
  if (vs.get? key).isSome then vs else vs ++ [(key, v)]

/-- The values of some keys, as fields of a record. -/
def fields (vs : Values) (keys : List String) : List (Value × Value) :=
  (vs.filter fun v => keys.contains v.1).map fun v => (.text v.1, v.2)

end Values

def readWord (files : Files) (p : Parameter) (w : String) : Form → Except Misuse Value
  | .text => .ok (.text w)
  | .whole =>
    match Text.readInteger w.toList with
    | .ok i => .ok (.int i)
    | .error _ => .error (.unreadable p (Text.quoted w ++ " is not a valid integer."))
  | .oneOf names =>
    if names.contains w then .ok (.text w)
    else .error (.unreadable p (Text.quoted w ++ " is not one of " ++
      Text.joined ", " (names.map Text.quoted) ++ "."))
  | .file =>
    if w.contains '\x00' then .error .nulInPath
    else match files.entry w with
    | .file _ => .ok (.text w)
    | .directory => .error (.unreadable p ("File " ++ Text.quoted w ++ " is a directory."))
    | .nothing => .error (.unreadable p ("File " ++ Text.quoted w ++ " does not exist."))

def readGiven (files : Files) (p : Parameter) : Given → Except Misuse Value
  | .switch on => .ok (.bool on)
  | .word w => readWord files p w (p.form.getD .text)

/-- The parameters in the order in which they are first given. -/
def firstGiven (options : List (Parameter × Given)) : List Parameter :=
  options.foldl (fun seen o => if o.1 ∈ seen then seen else seen ++ [o.1]) []

/-- The last thing given to a parameter counts. -/
def lastGiven? (options : List (Parameter × Given)) (p : Parameter) : Option Given :=
  (options.reverse.find? (·.1 = p)).map Prod.snd

/-- Gives the words to the arguments in turn; what remains comes back. -/
def readArguments (files : Files) :
    List Parameter → List String → Except Misuse (Values × List String)
  | [], words => .ok ([], words)
  | p :: ps, words =>
    match words with
    | [] => if p.required then .error (.missing p) else readArguments files ps []
    | w :: words => do
      let v ← readGiven files p (.word w)
      let (vs, rest) ← readArguments files ps words
      return ((p.key, v) :: vs, rest)

def readOptions (files : Files) (options : List (Parameter × Given)) : Except Misuse Values :=
  (firstGiven options).filterMapM fun p => do
    match lastGiven? options p with
    | some g => return some (p.key, ← readGiven files p g)
    | none => return none

/-- Reads the words for the parameters of a command, and says which words remain. Only a command
that stops at its first argument may have words remain. -/
def readWords (files : Files) (parameters : List Parameter) (stops : Bool) (sorted : Sorted) :
    Except Misuse (Values × List String) := do
  let options ← readOptions files sorted.options
  let (arguments, rest) ←
    readArguments files (parameters.filter (·.names.isEmpty)) sorted.arguments
  let given := firstGiven sorted.options
  match parameters.find? fun p => p.required && !p.names.isEmpty && !given.contains p with
  | some p => throw (.missing p)
  | none =>
    if !stops && !rest.isEmpty then throw (.extraArguments rest)
    return (options ++ arguments, rest)

end SyntheticRows.CommandLine
