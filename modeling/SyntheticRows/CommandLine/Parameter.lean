import SyntheticRows.CommandLine.Similarity
import SyntheticRows.Value.Display

/-!
# Parameters

The parameters of a command, and how the words of a command line are given to them. An option is
named by a word that starts with two dashes or by a letter after one dash; several letters may be
joined, and the last may have its value right behind it. Other words are arguments.
-/
namespace SyntheticRows.CommandLine

/-- How the text of a parameter is read. -/
inductive Form where
  | text
  | whole
  | oneOf (names : List String)
  /-- The path of a file that is there. -/
  | file
  deriving DecidableEq, Repr

/-- A parameter without names is an argument, one without a form is a switch. -/
structure Parameter where
  key : String
  names : List String := []
  /-- The names that turn a switch off. -/
  negations : List String := []
  form : Option Form := some .text
  required : Bool := false
  deriving DecidableEq, Repr

/-- How messages refer to a parameter. -/
def Parameter.label (p : Parameter) : String :=
  if p.names.isEmpty then "'" ++ p.key.toUpper ++ "'"
  else Text.joined " / " (p.names.map fun n => "'" ++ n ++ "'")

/-- What can be wrong with a command line. -/
inductive Misuse where
  | unknownOption (name : String) (similar : List String)
  | needsValue (name : String)
  | takesNoValue (name : String)
  | missing (p : Parameter)
  | unreadable (p : Parameter) (reason : String)
  | extraArguments (words : List String)
  | unknownCommand (name : String) (similar : List String)
  | missingCommand
  /-- No file can be looked up by such a path. -/
  | nulInPath
  /-- The values are readable and the command refuses them. -/
  | refused (reason : String)
  deriving DecidableEq, Repr

namespace Misuse

/-- Names that may have been meant. -/
def suggestion : List String → String
  | [] => ""
  | [other] => " Did you mean " ++ Text.quoted other ++ "?"
  | others => " (Did you mean one of: " ++ Text.joined ", " (others.map Text.quoted) ++ "?)"

def message : Misuse → String
  | unknownOption name similar =>
    "No such option " ++ Text.quoted name ++ "." ++ suggestion similar
  | needsValue name => "Option " ++ Text.quoted name ++ " requires an argument."
  | takesNoValue name => "Option " ++ Text.quoted name ++ " does not take a value."
  | missing p =>
    (if p.names.isEmpty then "Missing argument " else "Missing option ") ++ p.label ++ "."
  | unreadable p reason => "Invalid value for " ++ p.label ++ ": " ++ reason
  | extraArguments words =>
    "Got unexpected extra argument" ++ (if words.length = 1 then "" else "s") ++ " (" ++
      Text.joined " " words ++ ")"
  | unknownCommand name similar =>
    "No such command " ++ Text.quoted name ++ "." ++ suggestion similar
  | missingCommand => "Missing command."
  | nulInPath => "embedded null byte"
  | refused reason => "Invalid value: " ++ reason

/-- Whether the usage of the command is shown before the message. -/
def showsUsage : Misuse → Bool
  | needsValue _ | takesNoValue _ => false
  | _ => true

end Misuse

/-- What is given to a parameter. -/
inductive Given where
  | word (w : String)
  | switch (on : Bool)
  deriving DecidableEq, Repr

/-- A word that names options: what it gives, and the option whose value is the next word. -/
structure OptionWord where
  given : List (Parameter × Given) := []
  open? : Option (String × Parameter) := none

def isLong (name : String) : Bool := "--".toList.isPrefixOf name.toList

/-- The parameter that a name belongs to, and what a switch of that name is set to. -/
def lookUp? (parameters : List Parameter) (name : String) : Option (Parameter × Bool) :=
  (parameters.find? (·.names.contains name)).map (·, true) <|>
    (parameters.find? (·.negations.contains name)).map (·, false)

def longNames (parameters : List Parameter) : List String :=
  (parameters.flatMap fun p => p.names ++ p.negations).filter isLong

/-- A name with two dashes, and what stands behind an equals sign. -/
def longOption (parameters : List Parameter) (w : List Char) : Except Misuse OptionWord := do
  let name := String.ofList (w.takeWhile (· ≠ '='))
  let attached : Option String := match w.dropWhile (· ≠ '=') with
    | [] => none
    | _ :: value => some (String.ofList value)
  match lookUp? parameters name, attached with
  | none, _ => throw (.unknownOption name (closeNames name (longNames parameters)))
  | some (p, on), none =>
    if p.form.isSome then return { open? := some (name, p) }
    else return { given := [(p, .switch on)] }
  | some (p, _), some value =>
    if p.form.isSome then return { given := [(p, .word value)] } else throw (.takesNoValue name)

/-- Letters after one dash. -/
def shortOptions (parameters : List Parameter) : List Char → Except Misuse OptionWord
  | [] => .ok {}
  | c :: rest =>
    let name := String.ofList ['-', c]
    match lookUp? parameters name with
    | none => throw (.unknownOption name [])
    | some (p, on) =>
      if p.form.isSome then
        if rest.isEmpty then .ok { open? := some (name, p) }
        else .ok { given := [(p, .word (String.ofList rest))] }
      else do
        let more ← shortOptions parameters rest
        return { more with given := (p, .switch on) :: more.given }

def optionWord (parameters : List Parameter) (w : String) : Except Misuse OptionWord :=
  if isLong w then longOption parameters w.toList
  else shortOptions parameters (w.toList.drop 1)

/-- The words of a command line, sorted out. -/
structure Sorted where
  options : List (Parameter × Given) := []
  arguments : List String := []

/-- Sorts words into options and arguments. All words after `--` are arguments; with `stops` so
are all words after the first argument. -/
def sortWords (parameters : List Parameter) (stops : Bool) : List String → Except Misuse Sorted
  | [] => .ok {}
  | w :: rest =>
    if w = "--" then .ok { arguments := rest }
    else if w.toList.head? = some '-' ∧ 1 < w.length then do
      let o ← optionWord parameters w
      match o.open? with
      | none =>
        let more ← sortWords parameters stops rest
        return { more with options := o.given ++ more.options }
      | some (name, p) =>
        match rest with
        | [] => throw (.needsValue name)
        | value :: rest =>
          let more ← sortWords parameters stops rest
          return { more with options := o.given ++ (p, .word value) :: more.options }
    else if stops then .ok { arguments := w :: rest }
    else do
      let more ← sortWords parameters stops rest
      return { more with arguments := w :: more.arguments }

end SyntheticRows.CommandLine
