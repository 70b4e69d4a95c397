import Montage.Timeline.Basic

/-!
# Platforms

The places where videos are published expect a shape of the canvas.  A canvas has that shape if
its sides stand in exactly the expected ratio.
-/

set_option autoImplicit false

namespace Montage

/-- A place where videos are published. -/
inductive Platform where
  | tiktok
  | instagram
  | youtube
  | twitter
  | linkedin
  deriving DecidableEq, Repr

namespace Platform

/-- The name of a platform. -/
def name : Platform → String
  | tiktok => "tiktok"
  | instagram => "instagram"
  | youtube => "youtube"
  | twitter => "twitter"
  | linkedin => "linkedin"

/-- The platform of a name. -/
def ofName? (s : String) : Option Platform :=
  [tiktok, instagram, youtube, twitter, linkedin].find? fun platform ↦ platform.name == s

/-- The platform that a request names. -/
def ofRequest (value : Json) : Except Error Platform := do
  let named := match ← value.asKey with
    | .str s => ofName? s
    | _ => none
  match named with
  | some platform => return platform
  | none => throw (.refused (.platform value.shown))

/-- The aspect ratio that a platform expects. -/
def ratio : Platform → String
  | tiktok => "9:16"
  | instagram => "1:1"
  | youtube | twitter | linkedin => "16:9"

/-- The size of a canvas of that ratio. -/
def size : Platform → Int × Int
  | tiktok => (1080, 1920)
  | instagram => (1080, 1080)
  | youtube | twitter | linkedin => (1920, 1080)

/-- The sizes are those of the aspect ratios. -/
theorem ratioSize?_ratio (platform : Platform) :
    ratioSize? platform.ratio = some platform.size := by
  cases platform <;> rfl

/-- Whether a canvas has the shape that a platform expects. -/
def fits (platform : Platform) (canvas : Int × Int) : Bool :=
  canvas.1 * platform.size.2 == canvas.2 * platform.size.1

end Platform

/-- What there is to say about a timeline on a platform. -/
structure PlatformReport where
  isValid : Bool
  warnings : List String
  errors : List String := []
  suggestions : List String
  deriving DecidableEq, Repr

namespace PlatformReport

/-- Nothing to say. -/
def fine : PlatformReport := { isValid := true, warnings := [], suggestions := [] }

/-- The canvas has another shape than the platform expects. -/
def misshaped (platform : Platform) : PlatformReport := {
  isValid := false
  warnings := [platform.name ++ " videos should use " ++ platform.ratio ++ " aspect ratio"]
  suggestions := ["Use timeline.set_aspect_ratio(\"" ++ platform.ratio ++ "\")"] }

/-- A report as a document. -/
def encode (report : PlatformReport) : Json :=
  let texts (lines : List String) : Json := .arr (lines.map .str)
  .obj [("is_valid", .bool report.isValid), ("warnings", texts report.warnings),
    ("errors", texts report.errors), ("suggestions", texts report.suggestions)]

end PlatformReport

/-- Checks the canvas of a timeline against the shape that a platform expects. -/
def Timeline.checkFor [Rounding] (timeline : Timeline) (platform : Platform) :
    Except Error PlatformReport := do
  let canvas ← timeline.options.canvasSize
  return if platform.fits canvas then .fine else .misshaped platform

end Montage
