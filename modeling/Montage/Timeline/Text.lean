import Montage.Json.Printer
import Montage.Json.Reader
import Montage.Timeline.Basic

/-!
# Timelines as text

A timeline is written as the JSON text of its document and read back from such a text.  Two
timelines agree if their documents do, numbers being compared by value.
-/

set_option autoImplicit false

namespace Montage
namespace Timeline

variable [Rounding]

omit [Rounding] in
/-- The text of a timeline. -/
def text (timeline : Timeline) (indent : Option String) : String :=
  timeline.encode.text (.timeline indent)

/-- The timeline of a text. -/
def ofText (s : String) : Reported Timeline := do
  let document ← (Json.read s.toList : Except Error Json)
  ofDocument document

/-- A timeline as it is shown in messages. -/
def display (timeline : Timeline) : String :=
  "Timeline(layers=" ++ toString timeline.layers.length ++ ", duration="
    ++ (Number.real timeline.duration).display .plain ++ ")"

omit [Rounding] in
/-- Whether the layers of two timelines agree. -/
def layersAgree (a b : Timeline) : Bool :=
  (Json.arr (a.layers.map Layer.encode)).agrees (.arr (b.layers.map Layer.encode))

omit [Rounding] in
/-- Whether the options of two timelines agree. -/
def optionsAgree (a b : Timeline) : Bool := a.options.encode.agrees b.options.encode

end Timeline
end Montage
