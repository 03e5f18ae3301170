/-!
# Plain text

Terminals obey control sequences, for instance to change the colour: an escape character, an opening
bracket, digits, semicolons and question marks, and a letter. What the program prints holds none.
-/
namespace SyntheticRows.CommandLine

def isControlParameter (c : Char) : Bool := c.isDigit || c = ';' || c = '?'

/-- What is left after a control sequence whose escape character and bracket are taken off. -/
def afterControl? (cs : List Char) : Option (List Char) :=
  match cs.dropWhile isControlParameter with
  | c :: rest => if c.isAlpha then some rest else none
  | [] => none

theorem length_of_afterControl? {cs rest : List Char} (h : afterControl? cs = some rest) :
    rest.length < cs.length := by
  have hle := (List.dropWhile_suffix isControlParameter (l := cs)).length_le
  simp only [afterControl?] at h
  split at h
  · rename_i hd
    split at h
    · cases h
      rw [hd, List.length_cons] at hle
      omega
    · cases h
  · cases h

def withoutControls (cs : List Char) : List Char :=
  match cs with
  | [] => []
  | '\x1b' :: '[' :: rest =>
    match _h : afterControl? rest with
    | some after => withoutControls after
    | none => '\x1b' :: withoutControls ('[' :: rest)
  | c :: rest => c :: withoutControls rest
termination_by cs.length
decreasing_by
  all_goals simp only [List.length_cons]
  · have := length_of_afterControl? (by assumption); omega
  all_goals omega

def plain (s : String) : String := String.ofList (withoutControls s.toList)

end SyntheticRows.CommandLine
