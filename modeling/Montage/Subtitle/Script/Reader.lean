import Montage.Subtitle.Piece
import Montage.Subtitle.Script.Override
import Montage.Subtitle.Timecode

/-!
# Reading scripts

A script consists of sections; the one of events holds a line that names the fields and, for each
subtitle, a line of dialogue with the values of these fields.  The last field takes the rest of
its line, commas included.  All other lines and sections are passed over.
-/

set_option autoImplicit false

namespace Montage
namespace Script

/-! ## Lines -/

/-- The fields of a line of dialogue where no line names them. -/
def eventFields : List (List Char) := [
  "layer", "start", "end", "style", "name", "marginl", "marginr", "marginv", "effect",
  "text"].map String.toList

/-- Whether a line begins with a word in small letters and a colon, whatever its letter case. -/
def isLineOf (word : String) (line : List Char) : Bool :=
  (word.toList ++ [':']).isPrefixOf (lowered line)

/-- What stands behind the first colon of a line. -/
def lineValue (line : List Char) : List Char := (cutAt ':' line).2

/-- Whether a line opens a section. -/
def isSectionLine (line : List Char) : Bool :=
  line.head? == some '[' && line.getLast? == some ']'

/-- The fields that a line names. -/
def namedFields (line : List Char) : List (List Char) :=
  (splitAll ',' (lineValue line)).map fun field ↦ lowered (trim field)

/-- The values of a line of dialogue, at most as many as there are fields. -/
def dialogueValues (fields : List (List Char)) (line : List Char) : List (List Char) :=
  splitMost ',' (fields.length - 1) (trimFront (lineValue line))

/-- The value of a field, the last one if a field is named twice; nothing for a field without. -/
def valueOf (fields values : List (List Char)) (field : String) : List Char :=
  let named := (fields.zip values).filter fun pair ↦ pair.1 == field.toList
  (named.getLast?.map (·.2)).getD []

/-! ## Dialogue -/

variable [Rounding]

/-- The subtitle of a line of dialogue. -/
def subtitleOf (options : ReadOptions) (start stop : Quantity) (speaker text : List Char) :
    Except Error Subtitle := do
  let overrides ← overridesOf text
  let style ← overrides.styleOf
  let animation ← overrides.animationOf
  return {
    text := String.ofList (visibleText text), start, stop
    style := if options.parseStyles then style else none
    position := overrides.positionOf, animation
    metadata := if speaker.isEmpty then [] else [("speaker", .str (String.ofList speaker))] }

/-- What a line of dialogue turns out to be. -/
def dialogue (options : ReadOptions) (fields : List (List Char)) (line : List Char) :
    Except Error Piece := do
  let values := dialogueValues fields line
  let value := valueOf fields values
  let start ← Timestamp.read (value "start")
  let stop ← Timestamp.read (value "end")
  match start, stop with
  | some start, some stop =>
    if values.length = fields.length then
      (subtitleOf options start stop (value "name") (value "text")).map (Piece.ofSubtitle options)
    else return .malformed
  | _, _ => return .malformed

/-! ## Documents -/

/-- The pieces of the lines from a number on, where `inEvents` says whether they are in the section
of events, and `fields` are the fields in force. -/
def piecesFrom (options : ReadOptions) (inEvents : Bool) (fields : List (List Char)) :
    Nat → List (List Char) → List LabelledPiece
  | _, [] => []
  | number, raw :: rest =>
    let line := trim raw
    if isSectionLine line then
      piecesFrom options (lowered line == "[events]".toList) fields (number + 1) rest
    else if !inEvents then piecesFrom options inEvents fields (number + 1) rest
    else if isLineOf "format" line then
      piecesFrom options inEvents (namedFields line) (number + 1) rest
    else if isLineOf "dialogue" line then
      ⟨.assLine number, line, dialogue options fields line⟩
        :: piecesFrom options inEvents fields (number + 1) rest
    else piecesFrom options inEvents fields (number + 1) rest

/-- The lines of dialogue of a script, under the numbers of their lines. -/
def pieces (options : ReadOptions) (content : String) : List LabelledPiece :=
  piecesFrom options false eventFields 1 (linesOf (normalizeText content.toList))

/-- Reads a script. -/
def read (options : ReadOptions) (content : String) : Reported (List Subtitle) := do
  let subtitles ← collect options.strict (pieces options content)
  return Subtitle.named "ass" (Subtitle.inOrder subtitles)

end Script
end Montage
