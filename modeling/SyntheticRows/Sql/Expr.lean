import SyntheticRows.Sql.Identifier
import SyntheticRows.Sql.Literal

/-!
# Expressions

Scalar expressions as trees. A tree has the shape in which SQL reads the text that it renders to:
operands of an operator that would bind too weakly stand in `paren`.
-/
namespace SyntheticRows.Sql

inductive Operator where
  | add
  | sub
  | mul
  | div
  | mod
  | bitAnd
  | concat
  | less
  | greater
  | atMost
  | equal
  | and
  deriving DecidableEq, Repr

def Operator.symbol : Operator → String
  | add => "+"
  | sub => "-"
  | mul => "*"
  | div => "/"
  | mod => "%"
  | bitAnd => "&"
  | concat => "||"
  | less => "<"
  | greater => ">"
  | atMost => "<="
  | equal => "="
  | and => "AND"

/-- How one of several matching rows is taken. -/
inductive Taking where
  | limit
  | aggregate
  deriving DecidableEq, Repr

/-- The content of `wanted` in a row of `source` whose `key` equals `target`. -/
structure ScalarLookup where
  label : String
  source : Path
  wanted : Ident
  key : Ident
  target : Path
  taking : Taking

inductive Expr where
  | literal (l : Literal)
  /-- A whole number written with a point and a zero, so that division by it is not whole. -/
  | decimal (n : Nat)
  /-- Text that is put in as it stands. -/
  | verbatim (text : String)
  | name (path : Path)
  | paren (e : Expr)
  | binary (op : Operator) (a b : Expr)
  | call (function : String) (arguments : List Expr)
  | cast (e : Expr) (type : String)
  /-- PostgreSQL's short form of a cast. -/
  | convert (e : Expr) (type : String)
  | index (e i : Expr)
  | array (items : List Expr)
  /-- ClickHouse's form of an array. -/
  | brackets (items : List Expr)
  | isNotNull (e : Expr)
  | caseWhen (branches : List (Expr × Expr)) (otherwise : Expr)
  | caseOf (subject : Expr) (branches : List (Expr × Expr))
  | lambda (parameter : String) (body : Expr)
  /-- A point in time as the clock of UTC shows it. -/
  | atUtc (e : Expr)
  | lookup (l : ScalarLookup)

def ScalarLookup.render (e : Engine) (l : ScalarLookup) : String :=
  let field (i : Ident) := l.label ++ "." ++ i.quote e
  let condition := " FROM " ++ Path.render e l.source ++ " AS " ++ l.label ++ " WHERE " ++
    field l.key ++ " = " ++ Path.render e l.target
  match l.taking with
  | .limit => "(SELECT " ++ field l.wanted ++ condition ++ " LIMIT 1)"
  | .aggregate => "(SELECT arbitrary(" ++ field l.wanted ++ ")" ++ condition ++ ")"

namespace Expr

mutual

def render (e : Engine) : Expr → String
  | literal l => l.render e
  | decimal n => toString n ++ ".0"
  | verbatim text => text
  | name path => Path.render e path
  | paren x => "(" ++ render e x ++ ")"
  | binary op a b => render e a ++ " " ++ op.symbol ++ " " ++ render e b
  | call f args => f ++ "(" ++ Text.joined ", " (renderAll e args) ++ ")"
  | cast x type => "CAST(" ++ render e x ++ " AS " ++ type ++ ")"
  | convert x type => render e x ++ "::" ++ type
  | index x i => render e x ++ "[" ++ render e i ++ "]"
  | array items => "ARRAY[" ++ Text.joined ", " (renderAll e items) ++ "]"
  | brackets items => "[" ++ Text.joined ", " (renderAll e items) ++ "]"
  | isNotNull x => render e x ++ " IS NOT NULL"
  | caseWhen branches otherwise =>
    "CASE " ++ Text.joined " " (renderBranches e branches) ++ " ELSE " ++ render e otherwise ++
      " END"
  | caseOf subject branches =>
    "CASE " ++ render e subject ++ " " ++ Text.joined " " (renderBranches e branches) ++ " END"
  | lambda parameter body => parameter ++ " -> " ++ render e body
  | atUtc x => render e x ++ " AT TIME ZONE 'UTC'"
  | lookup l => l.render e

def renderAll (e : Engine) : List Expr → List String
  | [] => []
  | x :: rest => render e x :: renderAll e rest

def renderBranches (e : Engine) : List (Expr × Expr) → List String
  | [] => []
  | b :: rest => renderBranch e b :: renderBranches e rest

def renderBranch (e : Engine) : Expr × Expr → String
  | (condition, result) => "WHEN " ++ render e condition ++ " THEN " ++ render e result

end

def null : Expr := literal .null

def int (i : Int) : Expr := literal (.int i)

def nat (n : Nat) : Expr := int n

def bare (text : String) : Expr := name [.bare text]

/-- A literal as an operand: one below zero is put in parentheses. -/
def operand (l : Literal) : Expr :=
  if l.isNegative then paren (literal l) else literal l

/-- A whole number that is given from outside. -/
def given (i : Int) : Except Error Expr := literal <$> Literal.ofValue (.int i)

def ofInt (i : Int) : Except Error Expr := operand <$> Literal.ofValue (.int i)

def ofFloat (x : Double) : Except Error Expr := return operand (← Literal.ofFloat x)

def ofNumber : Number → Except Error Expr
  | .int i => ofInt i
  | .float x => ofFloat x

/-- A number given as a value. A truth value is written as a word, anything else that is no
number is of the wrong kind. -/
def ofNumeral : Value → Except Error Expr
  | .bool b => .ok (verbatim (Value.bool b).display)
  | .int i => ofInt i
  | .float x => ofFloat x
  | _ => .error .wrongKind

def add (a b : Expr) : Expr := binary .add a b

def sub (a b : Expr) : Expr := binary .sub a b

def mul (a b : Expr) : Expr := binary .mul a b

def less (a b : Expr) : Expr := binary .less a b

/-- The parts of a chain of one operator, applied from the left. -/
def chain (op : Operator) (first : Expr) (rest : List Expr) : Expr := rest.foldl (binary op) first

/-- A text literal that the program itself writes. -/
def word (s : String) (h : '\x00' ∉ s.toList := by decide) : Expr := literal (.text s h)

end Expr
end SyntheticRows.Sql
