import Montage.Document.Arithmetic
import Montage.Subtitle.Markup
import Montage.Subtitle.Piece
import Montage.Subtitle.Timecode
import Montage.Text.Split

/-!
# SRT documents

A block is a line with a whole number, a line with a window of time, and lines of text.  The
numbers of the blocks do not matter: what is read comes out in the order of the starts, numbered
from one, and what is written is numbered in that order too.

Lines are wrapped greedily at single blanks: a word goes to the current line as long as the line
stays within the limit, and opens a new line otherwise.  A word that is longer than the limit
stands alone.
-/

set_option autoImplicit false

namespace Montage

/-! ## Wrapping lines -/

namespace Wrap

/-- A line with a word behind it. -/
def joined (line word : List Char) : List Char := if line.isEmpty then word else line ++ ' ' :: word

/-- Whether a word no longer fits behind a line. -/
def overflows (limit : Nat) (line word : List Char) : Bool :=
  !line.isEmpty && limit < line.length + word.length + 1

/-- The lines of some words, where `line` is the current one. -/
def linesFrom (limit : Nat) (line : List Char) : List (List Char) → List (List Char)
  | [] => [line]
  | word :: rest =>
    if overflows limit line word then line :: linesFrom limit word rest
    else linesFrom limit (joined line word) rest

/-- The lines that a line is wrapped to. -/
def wrapLine (limit : Nat) (line : List Char) : List (List Char) :=
  linesFrom limit [] (splitAll ' ' line)

/-- The text with each of its lines wrapped to a limit. -/
def wrapLines (limit : Nat) (s : List Char) : List Char :=
  joinWith ['\n'] ((linesOf s).flatMap (wrapLine limit))

/-- The text with its lines wrapped to a limit; a limit of zero or below keeps them. -/
def wrap (limit : Int) (s : List Char) : List Char :=
  if limit ≤ 0 then s else wrapLines limit.toNat s

/-- The most characters that are within a positive width; a width without an end is that of the
whole text. -/
def charsWithin (width : Number) (s : List Char) : Nat :=
  match width.exactly.value? with
  | some q => q.floor.toNat
  | none => s.length

/-- A caller's value with its lines wrapped to a width.  Nobody looks at the value if the width is
zero or below. -/
def wrapFor (width value : Json) : Except Error Json := do
  let width ← width.number
  if width.le 0 then return value
  let s := (← value.asText).toList
  return .str (String.ofList (wrapLines (charsWithin width s) s))

end Wrap

namespace Srt

variable [Rounding]

/-! ## Reading -/

/-- The subtitle of a window and lines of text. -/
def subtitleOf (options : ReadOptions) (range : TimeRange) (body : List (List Char)) :
    Except Error Subtitle := do
  let start ← range.start.seconds?
  let stop ← range.stop.seconds?
  let (text, style) :=
    if options.parseStyles then Markup.read (bodyText body) else (bodyText body, none)
  return { text := String.ofList text, start, stop, style }

/-- Whether the lines below the first two are enough for a block. -/
def isEnough (options : ReadOptions) (body : List (List Char)) : Bool :=
  options.preserveEmpty || !body.isEmpty

/-- What a block turns out to be. -/
def piece (options : ReadOptions) (block : List Char) : Except Error Piece :=
  match linesOf block with
  | number :: timing :: body =>
    match readWhole (trim number), TimeRange.ofLine? timing with
    | .ok _, some range =>
      if isEnough options body then
        (subtitleOf options range body).map (Piece.ofSubtitle options)
      else .ok .malformed
    | _, _ => .ok .malformed
  | _ => .ok .malformed

/-- The pieces of a document, numbered from one. -/
def pieces (options : ReadOptions) (content : String) : List LabelledPiece :=
  (blocksOf content).mapIdx fun place block ↦
    ⟨.srtBlock (place + 1), block, piece options block⟩

/-- Reads a document. -/
def read (options : ReadOptions) (content : String) : Reported (List Subtitle) := do
  let subtitles ← collect options.strict (pieces options content)
  return Subtitle.named "srt" (Subtitle.inOrder subtitles)

/-! ## Writing -/

omit [Rounding] in
/-- The text of a subtitle as it stands in a document. -/
def textOf (options : WriteOptions) (subtitle : Subtitle) : String :=
  let wrapped := String.ofList (Wrap.wrap options.maxLineLength subtitle.text.toList)
  let marked := if options.includeStyles then Markup.write subtitle.style wrapped else wrapped
  String.ofList (replaceChar '\n' options.lineEnding.text.toList marked.toList)

/-- The block of a subtitle under a number. -/
def block (options : WriteOptions) (number : Nat) (subtitle : Subtitle) : Except Error String := do
  let eol := options.lineEnding.text
  let window ← TimeNotation.srt.window subtitle.start subtitle.stop
  return toString number ++ eol ++ window ++ eol ++ textOf options subtitle ++ eol ++ eol

/-- The blocks of subtitles from a number on. -/
def blocks (options : WriteOptions) : Nat → List Subtitle → Except Error (List String)
  | _, [] => .ok []
  | number, subtitle :: rest => do
    let first ← block options number subtitle
    return first :: (← blocks options (number + 1) rest)

/-- Writes a document. -/
def write (options : WriteOptions) (subtitles : List Subtitle) : Except Error String := do
  return options.opening ++ String.join (← blocks options 1 (Subtitle.sorted subtitles))

end Srt
end Montage
