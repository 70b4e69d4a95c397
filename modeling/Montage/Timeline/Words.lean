import Montage.Layer.Document
import Montage.Style.Basic
import Montage.Text.Unicode
import Montage.Timeline.Basic

/-!
# Highlighted words

Words with times are laid out in lines, and every word becomes two layers in the same place: one
at rest, visible as long as its line, and one that covers it while the word is spoken.  The times
are given, or else follow from a text and a speed.
-/

set_option autoImplicit false

namespace Montage
namespace Timeline

/-- A word and the time in which it is spoken. -/
structure TimedWord where
  word : String
  start : Number
  stop : Number
  deriving DecidableEq, Repr

/-- The distance of the centers of neighboring words, in pixels. -/
def wordSpacing : Number := 120

/-- The height of a line, in pixels. -/
def lineHeight : Number := 40

/-! ## Times -/

/-- Whether a spoken word keeps a character: letters, numerals and the marks that end sentences. -/
def isSpoken (c : Char) : Bool := isWordChar c || isBlank c || "!?.,".toList.contains c

/-- A word without marks that are not shown. -/
def spokenPart (word : String) : String := String.ofList (word.toList.filter isSpoken)

variable [Rounding]

/-- The word, start and end that three values are. -/
def timedWordOf (word start stop : Json) : Except Error TimedWord := do
  let start ← start.toQuantity
  let stop ← stop.toQuantity
  return ⟨word.shown, .real start, .real stop⟩

/-- A word with its times, from an object or from three values in a row. -/
def timedWord : Json → Except Error TimedWord
  | .obj members => do
    let needed (key : String) : Except Error Json :=
      match Json.lookup? key members with
      | some value => .ok value
      | none => .error (.construction (.timedWordWithout key))
    let convert (value : Json) : Except Error Quantity :=
      constructing .timedWord (fun cause ↦ cause.isBadValue || cause.isBadKind) value.toQuantity
    let word ← needed "word"
    let start ← convert (← needed "start")
    let stop ← convert (← needed "end")
    return ⟨word.shown, .real start, .real stop⟩
  | value =>
    constructing .timedWordShape (fun cause ↦ cause.isBadValue || cause.isBadKind) do
      match ← value.elements with
      | [word, start, stop] => timedWordOf word start stop
      | _ => throw .badValue

/-- The words of a text, each at its turn: one word after the other at a speed, and none beyond
the limit. -/
def spreadWords (step limit startTime : Number) : Nat → List String → Except Error (List TimedWord)
  | _, [] => .ok []
  | place, word :: rest => do
    let start ← startTime.add (← (Number.whole place).mul step)
    let stop := start.max ((← start.add step).min limit)
    return ⟨spokenPart word, start, stop⟩ :: (← spreadWords step limit startTime (place + 1) rest)

/-- The words of a text with times that follow from a speed. -/
def wordsOfText (text startTime duration wordsPerSecond : Json) :
    Except Error (List TimedWord) := do
  let step ← (Number.whole 1).div (← wordsPerSecond.number)
  let limit ← startTime.add duration
  match wordsOf (← text.asText) with
  | [] => return []
  | words => spreadWords step (← limit.number) (← startTime.number) 0 words

/-! ## Layout -/

omit [Rounding] in
/-- At most `fuel` pieces of a size from the front of a list. -/
def piecesFrom {α : Type} (size : Nat) : Nat → List α → List (List α)
  | _, [] => []
  | 0, _ => []
  | fuel + 1, xs => xs.take size :: piecesFrom size fuel (xs.drop size)

omit [Rounding] in
/-- A list cut into pieces of a size, which is at least one; the last one may be shorter. -/
def pieces {α : Type} (size : Nat) (xs : List α) : List (List α) := piecesFrom size xs.length xs

/-- How far an item stands from the middle of a row, in steps. -/
def fromMiddle (place count : Nat) : Except Error Number := do
  (Number.whole place).sub (← (Number.whole ((count : Int) - 1)).div 2)

/-- A position moved by pixels. -/
def movedBy (position : Position) (dx dy : Number) : Except Error Position := do
  return { position with dx := ← position.dx.add dx, dy := ← position.dy.add dy }

/-- How the words of a block look and where the block stands. -/
structure WordBlock where
  anchor : Position
  rest : Style
  active : Style
  animation : Option Animation
  lineSpacing : Json

/-- A text layer for a word in a window; a window that would end before it starts is empty. -/
def wordLayer (word : String) (start stop : Number) (position : Position) (style : Style)
    (animation : Option Animation) : Except Error Layer := do
  let length := Number.max (.real (.finite 0)) (← stop.sub start)
  Layer.make .text [("text", .str word), ("start_time", .num start), ("duration", .num length)]
    (.ok (some position)) (.ok (some style)) animation

/-- The layers of the words of a line from a place on, two for each word. -/
def lineLayers (block : WordBlock) (lineStart lineStop dy : Number) (count : Nat) :
    Nat → List TimedWord → Except Error (List Layer)
  | _, [] => .ok []
  | place, word :: rest => do
    let dx ← (← fromMiddle place count).mul wordSpacing
    let position ← movedBy block.anchor dx dy
    let atRest ← wordLayer word.word lineStart lineStop position block.rest none
    let spoken ← wordLayer word.word word.start word.stop position block.active block.animation
    return atRest :: spoken :: (← lineLayers block lineStart lineStop dy count (place + 1) rest)

/-- The layers of lines of words from a line on. -/
def blockLayers (block : WordBlock) (count : Nat) :
    Nat → List (List TimedWord) → Except Error (List Layer)
  | _, [] => .ok []
  | place, [] :: rest => blockLayers block count (place + 1) rest
  | place, (word :: words) :: rest => do
    let lineStop := words.foldl (fun stop other ↦ stop.max other.stop) word.stop
    let spaced ← (← fromMiddle place count).mul (← block.lineSpacing.number)
    let dy ← spaced.mul lineHeight
    let layers ← lineLayers block word.start lineStop dy (words.length + 1) 0 (word :: words)
    return layers ++ (← blockLayers block count (place + 1) rest)

/-! ## Requests -/

omit [Rounding] in
/-- What a request for highlighted words may hold. -/
def wordsSignature : Signature := [
  .absent "text", .absent "words", .default "start_time" (.quantity (.finite 0)),
  .default "duration" (.quantity (.finite 5)),
  .default "words_per_second" (.quantity (.finite (5 / 2))), .default "position" (.str "center"),
  .absent "base_style", .absent "highlight_style", .absent "highlight_transition",
  .default "transition_duration" (.quantity (binary64 (2 / 10))), .absent "preset",
  .default "max_words_per_line" (.whole 5), .default "line_spacing" (.quantity (.finite (3 / 2)))]

omit [Rounding] in
/-- The styles of a preset, or what stands for them where none is asked for. -/
def chosenPreset (preset : Json) : Except Error (Option Style.WordPreset) := do
  match ← preset.asKey with
  | .null => return none
  | name =>
    let chosen := match name with
      | .str s => Style.wordPreset? s
      | _ => none
    match chosen with
    | some preset => return some preset
    | none => throw (.construction (.wordPreset name.shown))

/-- The animation of the spoken word: none if it comes at once, and by default a glow or a
growing, as the preset has it. -/
def wordAnimation (transition duration : Json) (glows : Bool) : Except Error (Option Animation) :=
  match transition with
  | .null => Layer.givenAnimation (.str (if glows then "glow" else "scale")) duration
  | .str "instant" => .ok none
  | transition => Layer.givenAnimation transition duration

omit [Rounding] in
/-- Refuses a request with neither a text nor words. -/
def checkWordsGiven (request : Request) : Except Error Unit :=
  match request.get "text", request.get "words" with
  | .null, .null => .error (.construction .noWords)
  | _, _ => .ok ()

/-- Refuses lines without room for a word, and a speed at which no word is ever spoken. -/
def checkWordLimits (request : Request) : Except Error Unit := do
  if ← (request.get "max_words_per_line").isBelow 1 then throw (.construction .wordLimits)
  if (← (request.get "words_per_second").number).le 0 then throw (.construction .wordLimits)

/-- How words look at rest and while they are spoken. -/
def wordStyles (request : Request) (preset : Option Style.WordPreset) :
    Except Error (Style × Style) := do
  let rest := Style.wordRest.merged [preset.map (·.rest), ← Style.coerce (request.get "base_style")]
  let highlight ← Style.coerce (request.get "highlight_style")
  return (rest, rest.merged [some (Style.wordActive.merged [preset.map (·.active)]), highlight])

/-- The words of a request with their times: the words that are given, or else those of its text. -/
def requestedWords (request : Request) : Except Error (List TimedWord) :=
  match request.get "words" with
  | .null =>
    wordsOfText (request.get "text") (request.get "start_time") (request.get "duration")
      (request.get "words_per_second")
  | words => do
    let values ← words.elements
    values.mapM timedWord

/-- Adds words that are highlighted while they are spoken. -/
def addWords (timeline : Timeline) (given : List (String × Json)) : Except Error Timeline := do
  let request ← Request.complete wordsSignature given
  checkWordsGiven request
  let preset ← chosenPreset (request.get "preset")
  checkWordLimits request
  let (rest, active) ← wordStyles request preset
  let animation ← wordAnimation (request.get "highlight_transition")
    (request.get "transition_duration") ((preset.map (·.glows)).getD false)
  let timed ← requestedWords request
  let anchor ← constructing .position (fun cause ↦ cause.isBadValue || cause.isBadKind)
    (Position.coerce (request.get "position"))
  let lines := pieces (← (request.get "max_words_per_line").count).toNat timed
  let block : WordBlock := {
    anchor, rest, active, animation, lineSpacing := request.get "line_spacing" }
  return timeline.append (← blockLayers block lines.length 0 lines)

end Timeline
end Montage
