import Montage.Proofs.Command.Settled
import Montage.Proofs.Timeline.Built

/-!
# Timelines written and read

A timeline that was built, and whose layers start at finite times, comes back from its document as
an equal one with the same command, and that one comes back unchanged.  The one thing that stands
against it is a parameter of a filter that is infinite or undefined: it is written as null, null is
no parameter, and the document of the timeline is refused.
-/

set_option autoImplicit false

namespace Montage
namespace Timeline

variable [rounding : Rounding]

/-- A timeline comes back from its document: without a warning, with equal layers in their order,
with the same options and the same command, and in a form that does not change any more. -/
structure ComesBack (timeline reloaded : Timeline) : Prop where
  read : ofDocument timeline.encode = ⟨.ok reloaded, []⟩
  layers : List.Forall₂ Layer.Equal timeline.layers reloaded.layers
  options : reloaded.options = timeline.options
  arguments : ∀ (path : Json) (context : Context) (profile : Option EncoderProfile),
    Command.arguments reloaded path context profile =
      Command.arguments timeline path context profile
  again : ofDocument reloaded.encode = ⟨.ok reloaded, []⟩

variable {timeline : Timeline}

omit rounding in
theorem settled_isStorable (h : timeline.IsStorable) : timeline.settled.IsStorable :=
  List.forall_mem_map.mpr h

/-- A valid timeline whose layers start at finite times and whose parameters are finite comes back
as the settled timeline. -/
theorem IsValid.comesBack (signs : rounding.KeepsSigns) (valid : timeline.IsValid)
    (hfinite : ∀ layer ∈ timeline.layers, layer.startTime.isFinite = true)
    (hstorable : timeline.IsStorable) : timeline.ComesBack timeline.settled where
  read := ofDocument_encode signs.zero valid hfinite hstorable
  layers := by
    show List.Forall₂ Layer.Equal timeline.layers (timeline.layers.map Layer.settled)
    rw [List.forall₂_map_right_iff]
    exact List.forall₂_same.mpr fun layer _ ↦ layer.equal_settled
  options := rfl
  arguments := Command.arguments_settled signs.zero valid
  again := by
    have hread := ofDocument_encode signs.zero valid.settled (List.forall_mem_map.mpr hfinite)
      (settled_isStorable hstorable)
    rwa [settled_settled] at hread

omit rounding in
/-- **A timeline that was built comes back from its document** exactly if none of its filters has a
parameter that is infinite or undefined; with such a parameter its document is refused. -/
theorem built_comesBack_iff (built : @Built .binary64 timeline)
    (hfinite : ∀ layer ∈ timeline.layers, layer.startTime.isFinite = true) :
    ((∃ reloaded, @ComesBack .binary64 timeline reloaded) ↔ timeline.IsStorable) ∧
      (¬ timeline.IsStorable →
        ∃ cause, (@ofDocument .binary64 timeline.encode).result = .error cause) := by
  let _ : Rounding := .binary64
  refine ⟨⟨?_, fun hstorable ↦ ?_⟩, fun hstorable ↦ ?_⟩
  · rintro ⟨reloaded, hread, -⟩
    by_contra hstorable
    exact ofDocument_encode_of_not hstorable (congrArg Reported.result hread)
  · have valid := built.isValid binary64_keepsSigns
    exact ⟨timeline.settled, valid.comesBack binary64_keepsSigns hfinite hstorable⟩
  · cases hread : (ofDocument timeline.encode).result with
    | error cause => exact ⟨cause, rfl⟩
    | ok reloaded => exact absurd hread (ofDocument_encode_of_not hstorable)

/-- A title with a coordinate that nobody gave, under a blur of a strength. -/
def blurredTitle (sigma : Quantity) : Timeline where
  layers := [
    { duration := some (.finite 5), position := some { x := .text "10%" },
      content := .text "Hello" none },
    { content := .filter ⟨"gblur", [("sigma", .num (.real sigma))]⟩ }]

omit rounding in
theorem blurredTitle_built (sigma : Quantity) : @Built .binary64 (blurredTitle sigma) := by
  let _ : Rounding := .binary64
  have hempty : RenderOptions.decode (.obj []) = .ok {} := rfl
  have titled := (Built.fresh hempty).call (.addText [("text", .str "Hello"),
    ("position", .obj [("x", .str "10%")])]) rfl
  exact titled.call (.addFilter [("name", .str "gblur"),
    ("params", .obj [("sigma", .quantity sigma)])]) rfl

omit rounding in
theorem blurredTitle_isFinite (sigma : Quantity) :
    ∀ layer ∈ (blurredTitle sigma).layers, layer.startTime.isFinite = true := by
  simp [blurredTitle, Quantity.isFinite]

omit rounding in
theorem blurredTitle_isStorable_iff {sigma : Quantity} :
    (blurredTitle sigma).IsStorable ↔ sigma.isFinite = true := by
  simp [blurredTitle, IsStorable, Layer.areStorable, Layer.isStorable]

omit rounding in
/-- A strong blur comes back, and a blur without end does not. -/
theorem blurredTitle_comesBack :
    (∃ reloaded, @ComesBack .binary64 (blurredTitle (.finite 5)) reloaded) ∧
      ∃ cause, (@ofDocument .binary64 (blurredTitle (.infinite false)).encode).result =
        .error cause := by
  have hweak := built_comesBack_iff (blurredTitle_built (.finite 5)) (blurredTitle_isFinite _)
  have hstrong :=
    built_comesBack_iff (blurredTitle_built (.infinite false)) (blurredTitle_isFinite _)
  refine ⟨hweak.1.mpr (blurredTitle_isStorable_iff.mpr rfl), hstrong.2 fun h ↦ ?_⟩
  cases blurredTitle_isStorable_iff.mp h

end Timeline
end Montage
