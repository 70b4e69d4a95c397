/-!
# Blanks, cutting and replacing text

The operations on rows of characters that every reader of this library uses: trimming blanks,
cutting at a separator, replacing a pattern, and bringing line ends to one form.  All of them run
once from left to right.

Two classes of characters stand for nothing.  White space is the class of that name in the Unicode
standard; the readers of numbers ignore it at the ends of a text.  A blank is white space or one of
the four information separators; trimming, splitting into words and every pattern of this library
that skips blanks use this wider class.
-/

set_option autoImplicit false

namespace Montage

/-! ## Blank characters -/

/-- White space, including line ends and the next-line character. -/
def isSpace (c : Char) : Bool :=
  let n := c.toNat
  (9 ≤ n && n ≤ 13) || n == 32 || n == 0x85 || n == 0xa0 || n == 0x1680
    || (0x2000 ≤ n && n ≤ 0x200a) || n == 0x2028 || n == 0x2029 || n == 0x202f || n == 0x205f
    || n == 0x3000

/-- White space, or an information separator. -/
def isBlank (c : Char) : Bool := (28 ≤ c.toNat && c.toNat ≤ 31) || isSpace c

/-- Everything that core counts as white space is blank. -/
theorem isBlank_of_isWhitespace {c : Char} (h : c.isWhitespace = true) : isBlank c = true := by
  simp only [Char.isWhitespace, Bool.or_eq_true, decide_eq_true_eq] at h
  rcases h with ((rfl | rfl) | rfl) | rfl <;> rfl

/-! ## Trimming -/

/-- Drops blank characters in front. -/
def trimFront (s : List Char) : List Char := s.dropWhile isBlank

/-- Drops blank characters at the end. -/
def trimBack (s : List Char) : List Char := (s.reverse.dropWhile isBlank).reverse

/-- Drops blank characters at both ends. -/
def trim (s : List Char) : List Char := trimBack (trimFront s)

/-- Whether a text holds nothing but blank characters. -/
def isAllBlank (s : String) : Bool := s.toList.all isBlank

/-- The text without blank characters at its ends. -/
def trimmed (s : String) : String := String.ofList (trim s.toList)

/-! ## Words -/

/-- The maximal runs of characters that are not blank, where `word` is the reversed run that is
being read. -/
def wordsFrom : List Char → List Char → List (List Char)
  | word, [] => if word.isEmpty then [] else [word.reverse]
  | word, c :: rest =>
    if isBlank c then
      if word.isEmpty then wordsFrom [] rest else word.reverse :: wordsFrom [] rest
    else wordsFrom (c :: word) rest

/-- The maximal runs of characters that are not blank. -/
def wordsOf (s : String) : List String := (wordsFrom [] s.toList).map String.ofList

/-! ## Cutting -/

/-- The parts between the separators; a text without separators is its only part. -/
def splitAll (sep : Char) : List Char → List (List Char)
  | [] => [[]]
  | c :: rest =>
    if c = sep then [] :: splitAll sep rest
    else match splitAll sep rest with
      | [] => [[c]]
      | part :: parts => (c :: part) :: parts

/-- The parts between the first `cuts` separators, the last part holding all that remains. -/
def splitMost (sep : Char) : Nat → List Char → List (List Char)
  | 0, s => [s]
  | cuts + 1, s =>
    match s.span (· ≠ sep) with
    | (part, []) => [part]
    | (part, _ :: rest) => part :: splitMost sep cuts rest

/-- The parts before and after the first separator; without one the second part is empty. -/
def cutAt (sep : Char) (s : List Char) : List Char × List Char :=
  let (front, back) := s.span (· ≠ sep)
  (front, back.drop 1)

/-- Drops the characters that satisfy `p` at both ends. -/
def stripBy (p : Char → Bool) (s : List Char) : List Char :=
  ((s.dropWhile p).reverse.dropWhile p).reverse

/-- The lines of a text, cut at line feeds. -/
def linesOf (s : List Char) : List (List Char) := splitAll '\n' s

/-- Texts joined with a separator between them. -/
def joinWith (sep : List Char) : List (List Char) → List Char
  | [] => []
  | [part] => part
  | part :: parts => part ++ sep ++ joinWith sep parts

/-! ## Patterns -/

/-- Whether the pattern stands somewhere in the text. -/
def occursIn (pattern : List Char) : List Char → Bool
  | [] => pattern.isEmpty
  | c :: rest => pattern.isPrefixOf (c :: rest) || occursIn pattern rest

/-- The text after the first occurrence of the pattern. -/
def afterFirst? (pattern : List Char) : List Char → Option (List Char)
  | [] => if pattern.isEmpty then some [] else none
  | c :: rest =>
    if pattern.isPrefixOf (c :: rest) then some ((c :: rest).drop pattern.length)
    else afterFirst? pattern rest

/-- Replaces the occurrences of a pattern, where `skip` characters still belong to the occurrence
that was replaced last. -/
def replaceFrom (pattern new : List Char) : Nat → List Char → List Char
  | _, [] => []
  | skip + 1, _ :: rest => replaceFrom pattern new skip rest
  | 0, c :: rest =>
    if pattern.isPrefixOf (c :: rest) then
      new ++ replaceFrom pattern new (pattern.length - 1) rest
    else c :: replaceFrom pattern new 0 rest

/-- Replaces every occurrence of a pattern, from left to right and without overlap. -/
def replaceAll (pattern new s : List Char) : List Char := replaceFrom pattern new 0 s

/-- Replaces every occurrence of one character. -/
def replaceChar (old : Char) (new : List Char) (s : List Char) : List Char :=
  s.flatMap fun c ↦ if c = old then new else [c]

/-! ## Line ends -/

/-- The mark that may open a document. -/
def byteOrderMark : Char := '\uFEFF'

/-- Brings the line ends of a text to line feeds: a carriage return counts as one, together with
a line feed behind it. -/
def unifyLineEnds : List Char → List Char
  | [] => []
  | '\r' :: '\n' :: rest => '\n' :: unifyLineEnds rest
  | c :: rest => (if c = '\r' then '\n' else c) :: unifyLineEnds rest

/-- The text of a document without opening marks and with line feeds alone as line ends. -/
def normalizeText (s : List Char) : List Char :=
  unifyLineEnds (s.dropWhile (· == byteOrderMark))

/-! ## Letter case -/

/-- The text with its Latin letters in small form; the Kelvin sign is a capital k. -/
def lowered (s : List Char) : List Char :=
  s.map fun c ↦ if c = '\u212A' then 'k' else c.toLower

end Montage
