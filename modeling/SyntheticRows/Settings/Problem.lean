import SyntheticRows.Value.Display

/-!
# Problems with settings

What can be wrong with the value given for one field of a settings record, and how a list of such
problems is reported.
-/
namespace SyntheticRows

inductive Problem where
  | notText
  | undecodable
  | notInteger
  | fractional
  | notFinite
  | unreadableInteger
  | integerTooLong
  | notBoolean
  | unreadableBoolean
  /-- The value has the right kind and a check of the record refuses it. -/
  | refused (reason : String)
  deriving DecidableEq, Repr

namespace Problem

/-- The short name of a problem, for programs. -/
def code : Problem → String
  | notText => "string_type"
  | undecodable => "string_unicode"
  | notInteger => "int_type"
  | fractional => "int_from_float"
  | notFinite => "finite_number"
  | unreadableInteger => "int_parsing"
  | integerTooLong => "int_parsing_size"
  | notBoolean => "bool_type"
  | unreadableBoolean => "bool_parsing"
  | refused _ => "value_error"

def message : Problem → String
  | notText => "Input should be a valid string"
  | undecodable =>
    "Input should be a valid string, unable to parse raw data as a unicode string"
  | notInteger => "Input should be a valid integer"
  | fractional => "Input should be a valid integer, got a number with a fractional part"
  | notFinite => "Input should be a finite number"
  | unreadableInteger => "Input should be a valid integer, unable to parse string as an integer"
  | integerTooLong => "Unable to parse input string as an integer, exceeded maximum size"
  | notBoolean => "Input should be a valid boolean"
  | unreadableBoolean => "Input should be a valid boolean, unable to interpret input"
  | refused reason => "Value error, " ++ reason

end Problem

/-- A problem, the field that has it and the value that was given. -/
structure FieldProblem where
  field : String
  problem : Problem
  input : Value

/-- The problems of one record, in the order of its fields. -/
structure Rejection where
  record : String
  problems : List FieldProblem

/-- A long text is cut after 25 bytes and taken up again for its last 24, whole characters only. -/
def abridged (s : String) : String :=
  if s.utf8ByteSize ≤ 50 then s
  else String.ofList (front 25 s.toList ++ ['.', '.', '.'] ++ (front 24 s.toList.reverse).reverse)
where
  front (bytes : Nat) : List Char → List Char
    | [] => []
    | c :: rest => if c.utf8Size ≤ bytes then c :: front (bytes - c.utf8Size) rest else []

/-- The value that was given, if it can be written. -/
def FieldProblem.shownInput (p : FieldProblem) : String :=
  if p.input.isWritable then abridged p.input.inspect
  else "<unprintable " ++ p.input.kindName ++ " object>"

def FieldProblem.report (p : FieldProblem) : String :=
  p.field ++ "\n  " ++ p.problem.message ++ " [type=" ++ p.problem.code ++ ", input_value=" ++
    p.shownInput ++ ", input_type=" ++ p.input.kindName ++ "]"

/-- A line that counts the problems, then each problem on lines of its own. -/
def Rejection.report (r : Rejection) : String :=
  let plural := if r.problems.length = 1 then "" else "s"
  toString r.problems.length ++ " validation error" ++ plural ++ " for " ++ r.record ++
    String.join (r.problems.map fun p => "\n" ++ p.report)

end SyntheticRows
