import Montage.Text.Split

/-!
# Finding and removing matches

A pattern is a function that looks at the front of a text.  Patterns that are only removed give
the length of the match, zero standing for none; patterns that yield something give the yield
and the rest of the text.  Matches are sought from left to right and do not overlap.
-/

set_option autoImplicit false

namespace Montage

/-! ## Removing -/

/-- Removes the matches of a pattern, where `skip` characters still belong to a match. -/
def removeFrom (length : List Char → Nat) : Nat → List Char → List Char
  | _, [] => []
  | skip + 1, _ :: rest => removeFrom length skip rest
  | 0, c :: rest =>
    match length (c :: rest) with
    | 0 => c :: removeFrom length 0 rest
    | skip + 1 => removeFrom length skip rest

/-- Removes the matches of a pattern. -/
def removeMatches (length : List Char → Nat) (s : List Char) : List Char := removeFrom length 0 s

/-! ## Finding -/

/-- What a pattern yields where it first matches. -/
def firstMatch? {α : Type} (pattern : List Char → Option α) : List Char → Option α
  | [] => pattern []
  | c :: rest => (pattern (c :: rest)).or (firstMatch? pattern rest)

/-- The parts that a pattern yields, where `skip` characters still belong to a match.  A pattern
gives with its yield the length of the match. -/
def matchesFrom {α : Type} (pattern : List Char → Option (α × Nat)) : Nat → List Char → List α
  | _, [] => []
  | skip + 1, _ :: rest => matchesFrom pattern skip rest
  | 0, c :: rest =>
    match pattern (c :: rest) with
    | none => matchesFrom pattern 0 rest
    | some (a, length) => a :: matchesFrom pattern (length - 1) rest

/-- The parts that a pattern yields. -/
def allMatches {α : Type} (pattern : List Char → Option (α × Nat)) (s : List Char) : List α :=
  matchesFrom pattern 0 s

/-! ## Fixed words -/

/-- The other characters that count as a small Latin letter: the dotted capital and the dotless
small `i`, the long `s` and the Kelvin sign. -/
def lookalikes : Char → List Char
  | 'i' => ['İ', 'ı']
  | 's' => ['ſ']
  | 'k' => ['\u212A']
  | _ => []

/-- Whether a character is a given small Latin letter, its capital or a lookalike. -/
def isLetter (letter c : Char) : Bool := c.toLower == letter || (lookalikes letter).contains c

/-- The rest of a text behind a word in small letters, whatever the letter case of the text. -/
def afterWord? : List Char → List Char → Option (List Char)
  | [], s => some s
  | letter :: word, c :: s => if isLetter letter c then afterWord? word s else none
  | _ :: _, [] => none

/-- The length of what stands up to and including the first occurrence of a character; zero
without one. -/
def lengthThrough (stop : Char) (s : List Char) : Nat :=
  match s.span (· ≠ stop) with
  | (_, []) => 0
  | (front, _ :: _) => front.length + 1

/-- How much shorter a rest is than the text it is the rest of. -/
def consumed (s rest : List Char) : Nat := s.length - rest.length

end Montage
