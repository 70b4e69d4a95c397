import Montage.Report
import Montage.Subtitle.Basic
import Montage.Text.Split

/-!
# The pieces of a subtitle document

A document falls into pieces: blocks between empty lines, or lines of a script.  Each piece is
read for itself and turns out to be a subtitle, something without a subtitle, or malformed.  What
becomes of a malformed piece is the same in every format: a strict reader fails with it, a lenient
one skips it with a warning.
-/

set_option autoImplicit false

namespace Montage

/-! ## Blocks -/

/-- How much of a text, which follows a line feed, belongs to a gap between blocks: the blank
characters in front up to and including their last line feed, and nothing if they hold none. -/
def gapLength (s : List Char) : Nat :=
  ((s.takeWhile isBlank).reverse.dropWhile (· ≠ '\n')).length

/-- The blocks of a text, where `skip` characters still belong to a gap. -/
def blocksFrom : Nat → List Char → List (List Char)
  | _, [] => [[]]
  | skip + 1, _ :: rest => blocksFrom skip rest
  | 0, c :: rest =>
    let gap := if c = '\n' then gapLength rest else 0
    if 0 < gap then [] :: blocksFrom gap rest
    else match blocksFrom 0 rest with
      | [] => [[c]]
      | block :: blocks => (c :: block) :: blocks

/-- The blocks of a document, which are what stands between its blank lines. -/
def blocksOf (content : String) : List (List Char) :=
  match trim (normalizeText content.toList) with
  | [] => []
  | body => blocksFrom 0 body

/-! ## Pieces -/

/-- What a piece of a document turns out to be. -/
inductive Piece where
  | malformed
  | nothing
  | subtitle (subtitle : Subtitle)

/-- A subtitle, unless it has no text and those are not kept. -/
def Piece.ofSubtitle (options : ReadOptions) (subtitle : Subtitle) : Piece :=
  if subtitle.isBlank && !options.preserveEmpty then nothing else .subtitle subtitle

/-- A piece of a document with its name and its text. -/
structure LabelledPiece where
  label : Unreadable
  source : List Char
  piece : Except Error Piece

/-- The subtitles of the pieces of a document. -/
def collect (strict : Bool) : List LabelledPiece → Reported (List Subtitle)
  | [] => pure []
  | part :: rest => do
    match ← part.piece with
    | .subtitle subtitle => return subtitle :: (← collect strict rest)
    | .nothing => collect strict rest
    | .malformed =>
      if strict then Reported.fail (.unreadable part.label (String.ofList part.source))
      Reported.warn (.skipped part.label)
      collect strict rest

/-- The text of the lines below the first ones, blanks at their ends dropped. -/
def bodyText (lines : List (List Char)) : List Char := joinWith ['\n'] (lines.map trimBack)

end Montage
