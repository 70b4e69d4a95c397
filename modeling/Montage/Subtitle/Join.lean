import Montage.Document.Request
import Montage.Report
import Montage.Subtitle.Basic

/-!
# Joining and cutting lists of subtitles

Lists are joined one behind the other: each begins where the one before it ended, with a gap
between them.  A list is cut into chunks that do not last longer than a limit, and each chunk
begins at its own zero.
-/

set_option autoImplicit false

namespace Montage
namespace Subtitle

variable [Rounding]

/-! ## Joining -/

/-- The subtitles joined so far, and where the next list begins. -/
structure Joined where
  subtitles : List Subtitle := []
  offset : Quantity := .finite 0

omit [Rounding] in
/-- The latest end of some subtitles, the first one of several equal ones. -/
def latestEnd? : List Subtitle → Option Quantity
  | [] => none
  | first :: rest => some (rest.foldl (fun latest s ↦ latest.max s.stop) first.stop)

/-- Puts a list behind what is joined so far. -/
def Joined.add (joined : Joined) (gap : Json) (subtitles : List Subtitle) :
    Except Error Joined := do
  let shifted := subtitles.map fun s ↦ s.shifted joined.offset
  match latestEnd? shifted with
  | none => return joined
  | some latest =>
    let next ← (Number.real latest).add (← gap.number)
    return ⟨joined.subtitles ++ shifted, ← next.toQuantity⟩

/-- Joins lists that come one by one. -/
def joinFrom {α : Type} (list : α → Reported (List Subtitle)) (gap : Json) (joined : Joined) :
    List α → Reported (List Subtitle)
  | [] => pure (inOrder joined.subtitles)
  | a :: rest => do
    let subtitles ← list a
    let joined ← (joined.add gap subtitles : Except Error Joined)
    joinFrom list gap joined rest

omit [Rounding] in
/-- The gap between lists where nothing is said. -/
def noGap : Json := .quantity (.finite 0)

/-- Joins lists. -/
def join (lists : List (List Subtitle)) (gap : Json) : Reported (List Subtitle) :=
  joinFrom pure gap {} lists

/-! ## Cutting -/

/-- The chunks of subtitles in order, where `chunk` holds those of the current chunk, the last one
first, and `origin` is its zero. -/
def chunksFrom (limit : Number) (chunk : List Subtitle) (origin : Quantity) :
    List Subtitle → List (List Subtitle)
  | [] => if chunk.isEmpty then [] else [chunk.reverse]
  | subtitle :: rest =>
    if !chunk.isEmpty && limit.lt (.real (subtitle.stop.sub origin)) then
      chunk.reverse :: chunksFrom limit [subtitle.shifted subtitle.start.neg] subtitle.start rest
    else chunksFrom limit (subtitle.shifted origin.neg :: chunk) origin rest

/-- Cuts subtitles into chunks that last at most a limit. -/
def chunks (subtitles : List Subtitle) (limit : Json) : Except Error (List (List Subtitle)) := do
  let limit ← limit.number
  if limit.le 0 then throw (.refused .chunkLength)
  return (chunksFrom limit [] (.finite 0) (sorted subtitles)).map inOrder

end Subtitle
end Montage
