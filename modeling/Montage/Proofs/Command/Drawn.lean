import Montage.Command.Text
import Montage.Proofs.Number.Exact
import Montage.Proofs.Outcome
import Montage.Proofs.Timeline.Valid

/-!
# Drawn text and the length of the output

The filter that draws a text looks at the length of the output for one reason alone: a text that is
there from the beginning until the end needs no window.  For two outputs of different lengths it is
therefore the same filter, except that the window may be missing (`textFilter_unset`).

A layer is visible from its start until before its end, and an open layer until the timeline ends.
This is what the windows say about every time in the output (`Command.enableOf_isOpenAt`).
-/

set_option autoImplicit false

namespace Montage
namespace Command

variable [Rounding]

/-! ## Windows -/

/-- Whether a layer is there from the beginning until the end of an output of some length. -/
def spans (length : Quantity) (layer : Layer) : Bool :=
  layer.startTime.le (.finite 0) && match layer.endTime with
    | none => true
    | some stop => length.le stop

theorem enableOf_of_spans {canvas : Canvas} {layer : Layer}
    (h : spans canvas.duration layer = true) : enableOf canvas layer = .ok none := by
  rw [enableOf]
  exact if_pos h

theorem enableOf_of_not_spans {canvas : Canvas} {layer : Layer}
    (h : ¬ spans canvas.duration layer = true) : enableOf canvas layer = do
      return some (← Expr.window (.quantity layer.startTime)
        (some (.quantity (effectiveEnd canvas layer)))) := by
  rw [enableOf]
  exact if_neg h

/-- The end of a layer with a duration does not depend on the output. -/
theorem effectiveEnd_congr {layer : Layer} (ended : layer.duration.isSome = true)
    (short long : Canvas) : effectiveEnd short layer = effectiveEnd long layer := by
  obtain ⟨duration, hduration⟩ := Option.isSome_iff_exists.mp ended
  rw [effectiveEnd, effectiveEnd, Layer.endTime, hduration]
  rfl

/-! ## Options of drawn text -/

/-- The options of drawn text apart from its window. -/
def textOptions (canvas : Canvas) (defaultStyle : Option Style) (layer : Layer)
    (drawing : Drawing) : Except Error (List (String × OptionValue)) := do
  let style := effectiveStyle defaultStyle drawing layer
  let size := Number.real (style.fontSize.getD (.finite 24))
  let fontSize ← size.mul (.real (style.scale.getD (.finite 1)))
  let (x, y) ← (layer.position.getD middle).resolve .text
  let moved ← movedOptions canvas layer drawing x y (.num fontSize)
  let moving (key : String) (rest : OptionValue) : OptionValue := (Json.lookup? key moved).getD rest
  let color ← Color.filterText (style.color.getD "white") (style.opacity.map .real)
  let stroke ← strokeOptions style moved
  let box ← boxOptions style
  let shadow ← shadowOptions style
  let lines ← lineOptions style fontSize
  return [("text", .display drawing.text)] ++ fontOptions style
    ++ [("fontsize", moving "fontsize" (.expr (.num fontSize))), ("fontcolor", .plain color)]
    ++ stroke ++ box ++ shadow ++ lines
    ++ [("x", moving "x" (.expr x)), ("y", moving "y" (.expr y))]
    ++ optional "alpha" (Json.lookup? "alpha" moved)

theorem textFilter_eq (canvas : Canvas) (defaultStyle : Option Style) (layer : Layer)
    (drawing : Drawing) : textFilter canvas defaultStyle layer drawing = do
      let options ← textOptions canvas defaultStyle layer drawing
      let enable ← enableOf canvas layer
      return .named "drawtext" (options ++ optional "enable" (enable.map .expr)) := by
  simp only [textFilter, textOptions, bind_assoc, pure_bind]

theorem textOptions_congr {layer : Layer} (ended : layer.duration.isSome = true)
    (short long : Canvas) (defaultStyle : Option Style) (drawing : Drawing) :
    textOptions short defaultStyle layer drawing = textOptions long defaultStyle layer drawing := by
  simp only [textOptions, movedOptions, effectiveEnd_congr ended short long]

/-- No option is called like the window. -/
def NoWindow (options : List (String × OptionValue)) : Prop := ∀ o ∈ options, o.1 ≠ "enable"

omit [Rounding] in
theorem NoWindow.append {options more : List (String × OptionValue)} (h : NoWindow options)
    (hmore : NoWindow more) : NoWindow (options ++ more) := by
  rw [NoWindow, List.forall_mem_append]
  exact ⟨h, hmore⟩

omit [Rounding] in
theorem NoWindow.of_keys {options : List (String × OptionValue)}
    (h : "enable" ∉ options.map Prod.fst) : NoWindow options :=
  fun _ hoption heq ↦ h (heq ▸ List.mem_map_of_mem hoption)

omit [Rounding] in
theorem fontOptions_noWindow (style : Style) : NoWindow (fontOptions style) := by
  rw [fontOptions]
  split <;> exact .of_keys (by simp)

omit [Rounding] in
theorem optional_noWindow {key : String} (hkey : key ≠ "enable") (value : Option OptionValue) :
    NoWindow (optional key value) := by
  cases value with
  | none => exact .of_keys (by simp [optional])
  | some value => exact .of_keys (by simpa [optional] using hkey.symm)

theorem strokeOptions_noWindow {style : Style} {moved options : List (String × OptionValue)}
    (h : strokeOptions style moved = .ok options) : NoWindow options := by
  rw [strokeOptions] at h
  split at h
  · cases pure_eq_ok.mp h
    exact .of_keys (by simp)
  · split at h
    · cases pure_eq_ok.mp h
      exact .of_keys (by simp)
    · obtain ⟨color, -, h⟩ := bind_eq_ok.mp h
      cases pure_eq_ok.mp h
      exact .of_keys (by simp)
  · cases pure_eq_ok.mp h
    exact .of_keys (by simp)

theorem boxOptions_noWindow {style : Style} {options : List (String × OptionValue)}
    (h : boxOptions style = .ok options) : NoWindow options := by
  rw [boxOptions] at h
  split at h
  · cases pure_eq_ok.mp h
    exact .of_keys (by simp)
  · obtain ⟨color, -, h⟩ := bind_eq_ok.mp h
    cases pure_eq_ok.mp h
    exact .of_keys (by simp)

theorem shadowOptions_noWindow {style : Style} {options : List (String × OptionValue)}
    (h : shadowOptions style = .ok options) : NoWindow options := by
  rw [shadowOptions] at h
  split at h
  · cases pure_eq_ok.mp h
    exact .of_keys (by simp)
  · obtain ⟨color, -, h⟩ := bind_eq_ok.mp h
    cases pure_eq_ok.mp h
    exact .of_keys (by simp)

theorem lineOptions_noWindow {style : Style} {fontSize : Number}
    {options : List (String × OptionValue)} (h : lineOptions style fontSize = .ok options) :
    NoWindow options := by
  rw [lineOptions] at h
  split at h
  · cases pure_eq_ok.mp h
    exact .of_keys (by simp)
  · split at h
    · cases pure_eq_ok.mp h
      exact .of_keys (by simp)
    · obtain ⟨factor, -, h⟩ := bind_eq_ok.mp h
      obtain ⟨extra, -, h⟩ := bind_eq_ok.mp h
      obtain ⟨whole, -, h⟩ := bind_eq_ok.mp h
      cases pure_eq_ok.mp h
      exact .of_keys (by simp)

theorem textOptions_noWindow {canvas : Canvas} {defaultStyle : Option Style} {layer : Layer}
    {drawing : Drawing} {options : List (String × OptionValue)}
    (h : textOptions canvas defaultStyle layer drawing = .ok options) : NoWindow options := by
  rw [textOptions] at h
  obtain ⟨fontSize, -, h⟩ := bind_eq_ok.mp h
  obtain ⟨place, -, h⟩ := bind_eq_ok.mp h
  obtain ⟨moved, -, h⟩ := bind_eq_ok.mp h
  obtain ⟨color, -, h⟩ := bind_eq_ok.mp h
  obtain ⟨stroke, hstroke, h⟩ := bind_eq_ok.mp h
  obtain ⟨box, hbox, h⟩ := bind_eq_ok.mp h
  obtain ⟨shadow, hshadow, h⟩ := bind_eq_ok.mp h
  obtain ⟨lines, hlines, h⟩ := bind_eq_ok.mp h
  rw [← pure_eq_ok.mp h]
  refine .append (.append ?_ (.of_keys (by simp))) (optional_noWindow (by decide) _)
  refine .append (.append (.append ?_ (boxOptions_noWindow hbox)) (shadowOptions_noWindow hshadow))
    (lineOptions_noWindow hlines)
  refine .append ?_ (strokeOptions_noWindow hstroke)
  exact .append (.append (.of_keys (by simp)) (fontOptions_noWindow _)) (.of_keys (by simp))

/-! ## Two outputs -/

omit [Rounding] in
/-- Unsetting the window leaves the other options. -/
theorem unset_named {options : List (String × OptionValue)} (h : NoWindow options)
    (window : Option OptionValue) :
    (Filter.named "drawtext" (options ++ optional "enable" window)).unset "enable"
      = .named "drawtext" options := by
  have hkept : ∀ option ∈ options.map fun option ↦ (some option.1, option.2),
      (option.1 != some "enable") = true := by
    refine List.forall_mem_map.mpr fun option hoption ↦ bne_iff_ne.mpr fun heq ↦ ?_
    exact h option hoption (Option.some.inj heq)
  rw [Filter.unset, Filter.named, Filter.named, List.map_append, List.filter_append,
    List.filter_eq_self.mpr hkept]
  cases window <;> simp [optional]

/-- **A text is drawn by the same filter on two outputs**, except that it has no window where it is
there from the beginning until the end. -/
theorem textFilter_unset {short long : Canvas} {defaultStyle : Option Style} {layer : Layer}
    {drawing : Drawing} {filter : Filter} (ended : layer.duration.isSome = true)
    (hspans : spans long.duration layer = true → spans short.duration layer = true)
    (h : textFilter long defaultStyle layer drawing = .ok filter) :
    textFilter short defaultStyle layer drawing =
      .ok (if spans short.duration layer then filter.unset "enable" else filter) := by
  rw [textFilter_eq] at h ⊢
  obtain ⟨options, hoptions, h⟩ := bind_eq_ok.mp h
  obtain ⟨enable, henable, h⟩ := bind_eq_ok.mp h
  rw [← pure_eq_ok.mp h, textOptions_congr ended short long]
  refine bind_eq_ok.mpr ⟨options, hoptions, ?_⟩
  split
  · rename_i hshort
    refine bind_eq_ok.mpr ⟨none, enableOf_of_spans hshort, ?_⟩
    rw [unset_named (textOptions_noWindow hoptions)]
    exact congrArg (fun o ↦ Except.ok (Filter.named "drawtext" o)) (List.append_nil options)
  · rename_i hshort
    rw [enableOf_of_not_spans (mt hspans hshort)] at henable
    rw [enableOf_of_not_spans hshort, effectiveEnd_congr ended short long, henable]
    rfl

/-- A text that spans the output has no window to unset. -/
theorem unset_textFilter_of_spans {canvas : Canvas} {defaultStyle : Option Style} {layer : Layer}
    {drawing : Drawing} {filter : Filter} (hspans : spans canvas.duration layer = true)
    (h : textFilter canvas defaultStyle layer drawing = .ok filter) :
    filter.unset "enable" = filter := by
  rw [textFilter_eq] at h
  obtain ⟨options, hoptions, h⟩ := bind_eq_ok.mp h
  obtain ⟨enable, henable, h⟩ := bind_eq_ok.mp h
  rw [enableOf_of_spans hspans] at henable
  cases henable
  have hplain : options ++ optional "enable" (Option.map OptionValue.expr none) = options :=
    List.append_nil options
  rw [← pure_eq_ok.mp h, unset_named (textOptions_noWindow hoptions), hplain]

end Command

/-! ## What is visible when -/

variable [rounding : Rounding]

/-- Whether a layer is visible at a time on a timeline of some length. -/
def Layer.isVisible (length time : Quantity) (layer : Layer) : Bool :=
  layer.startTime.le time && time.lt (layer.endTime.getD length)

/-- The layers that are visible at a time, in their order. -/
def Timeline.visibleAt (timeline : Timeline) (time : Quantity) : List Layer :=
  timeline.layers.filter (Layer.isVisible timeline.duration time)

omit rounding in
/-- Whether the window of a filter is open at a time. -/
def Expr.isOpenAt (time : Quantity) : Expr → Bool
  | .call "gte" [.var "t", .num (.real start)] => start.le time
  | .call "lt" [.var "t", .num (.real stop)] => time.lt stop
  | .binary .times opened closed => opened.isOpenAt time && closed.isOpenAt time
  | _ => false

/-- **The window of a layer is open while the layer is visible**; a layer without a window is
visible all the time. -/
theorem Command.enableOf_isOpenAt {canvas : Canvas} {layer : Layer} {time : Quantity}
    (begun : Quantity.le (.finite 0) time = true) (running : time.lt canvas.duration = true) :
    ∃ window, enableOf canvas layer = .ok window ∧
      window.all (Expr.isOpenAt time) = layer.isVisible canvas.duration time := by
  by_cases hspans : spans canvas.duration layer = true
  · refine ⟨none, enableOf_of_spans hspans, ?_⟩
    obtain ⟨hstart, hend⟩ := Bool.and_eq_true_iff.mp hspans
    rw [Layer.isVisible, Quantity.le_trans hstart begun]
    cases hstop : layer.endTime with
    | none => exact running.symm
    | some stop =>
      rw [hstop] at hend
      exact (Quantity.lt_of_lt_of_le running hend).symm
  · exact ⟨_, enableOf_of_not_spans hspans, rfl⟩

end Montage
