/-!
# Similar names

Two words are as similar as the share of their letters in common blocks: the longest common block,
then the longest ones to its left and to its right, and so on.
-/
namespace SyntheticRows.CommandLine

/-- The length of the common beginning. -/
def commonStart : List Char → List Char → Nat
  | a :: as, b :: bs => if a = b then commonStart as bs + 1 else 0
  | _, _ => 0

/-- A block that two words share. -/
structure Block where
  left : Nat
  right : Nat
  size : Nat

/-- The longest of the blocks that begin at a place of the first word; the earliest if several
are as long. -/
def longestAt (left : Nat) (a : List Char) : Nat → List Char → Block → Block
  | _, [], best => best
  | right, b :: bs, best =>
    let size := commonStart a (b :: bs)
    longestAt left a (right + 1) bs (if best.size < size then ⟨left, right, size⟩ else best)

/-- The longest block of two words, the earliest in the first and then in the second one. -/
def longestBlock (a b : List Char) : Block :=
  go 0 a ⟨0, 0, 0⟩
where
  go (left : Nat) : List Char → Block → Block
    | [], best => best
    | c :: cs, best => go (left + 1) cs (longestAt left (c :: cs) 0 b best)

/-- How many letters the common blocks have. The fuel bounds the depth of the search. -/
def matchedLetters : Nat → List Char → List Char → Nat
  | 0, _, _ => 0
  | fuel + 1, a, b =>
    let m := longestBlock a b
    if m.size = 0 then 0
    else m.size + matchedLetters fuel (a.take m.left) (b.take m.right) +
      matchedLetters fuel (a.drop (m.left + m.size)) (b.drop (m.right + m.size))

/-- The matched letters and all letters of two words. -/
structure Similarity where
  matched : Nat
  letters : Nat

def Similarity.of (a b : String) : Similarity :=
  ⟨matchedLetters (a.length + 1) a.toList b.toList, a.length + b.length⟩

/-- Whether the matched letters are at least three in ten of all letters of both words. -/
def Similarity.isClose (s : Similarity) : Bool := 3 * s.letters ≤ 10 * s.matched

/-- Orders by the share of matched letters. -/
def Similarity.compare (s t : Similarity) : Ordering :=
  Ord.compare (s.matched * t.letters) (t.matched * s.letters)

/-- The names close to a word: the three closest, listed in ascending order. Of equally close ones
those later in the alphabet are taken. -/
def closeNames (word : String) (names : List String) : List String :=
  let rated := names.filterMap fun n =>
    let s := Similarity.of n word
    if s.isClose then some (s, n) else none
  let ranked := rated.mergeSort fun p q =>
    match p.1.compare q.1 with
    | .gt => true
    | .lt => false
    | .eq => q.2 ≤ p.2
  ((ranked.take 3).map Prod.snd).mergeSort (· ≤ ·)

end SyntheticRows.CommandLine
