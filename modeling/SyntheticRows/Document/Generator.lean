import SyntheticRows.Document.Entries
import SyntheticRows.Spec.Generator

/-!
# Generators in documents

A generator is a mapping with a `type` and the parameters of that type.
-/
namespace SyntheticRows.Document

/-- Null is kept, a date is its midnight and a text is read in ISO form. -/
def readDateTime (context : String) : Value → Except Error Value
  | .null => .ok .null
  | .datetime t => .ok (.datetime t)
  | .date d => .ok (.datetime (.ofDate d))
  | .text s =>
    match DateTime.ofIso? s with
    | some t => .ok (.datetime t)
    | none => refuse (.notIsoDatetime context s)
  | v => refuse (.notDatetimeValue context v)

def readGenerator (context : String) (v : Value) : Except Error Generator := do
  let entries ← asMapping context v
  let kind ← require entries "type" context
  let name := match kind with
    | .text s => s
    | _ => ""
  match name with
  | "sequence" =>
    Generator.ofSequence (getD entries "start" (.int 1)) (getD entries "step" (.int 1))
  | "randomInt" =>
    let low ← require entries "min" context
    Generator.ofIntRange low (← require entries "max" context)
  | "randomFloat" =>
    let low ← require entries "min" context
    let high ← require entries "max" context
    Generator.ofFloatRange low high (getD entries "precision" (.int 2))
  | "randomString" => Generator.ofLength (← require entries "length" context)
  | "choice" => Generator.ofChoice (← require entries "values" context)
  | "choiceByLookup" => Generator.ofLookup (← require entries "values" context)
  | "constant" => return .constant (getD entries "value" .null)
  | "datetime" =>
    let start ← readDateTime context (getD entries "from" (.text "2020-01-01"))
    Generator.ofSpan start (← readDateTime context (getD entries "to" .null))
  | "uuid" => return .uuid
  | _ => refuse (.unknownGenerator context kind)

end SyntheticRows.Document
