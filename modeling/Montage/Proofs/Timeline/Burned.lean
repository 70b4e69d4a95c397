import Montage.Proofs.Subtitle.Srt
import Montage.Proofs.Timeline.Captions

/-!
# Subtitles burnt in and written out

Subtitles that are burnt into a timeline and taken out of it again have their texts, their times and
their looks, if no time is before zero and nothing is rounded: the layers keep the starts, and the
lengths of the layers put the ends back where they were.  What else a subtitle says stays in its
layer or is lost, but no SRT document holds it.  So the timeline is written as the same document as
the subtitles (`Timeline.toSrt_burn`).

The sign of a zero is lost on the way, and no written time shows it.
-/

set_option autoImplicit false

namespace Montage

variable [rounding : Rounding]

/-! ## Written times -/

/-- The units of a finite time are those of its value. -/
theorem TimeNotation.units_of_value? (exact : rounding.IsExact) (style : TimeNotation)
    {x : Quantity} {q : Rat} (hx : x.value? = some q) :
    style.units (.real x) = .ok (nearestInt (q * style.unitsPerSecond)).toNat := by
  have hscaled : (Number.real x).mul (.whole style.unitsPerSecond)
      = .ok (.real (x.mul (.finite style.unitsPerSecond))) :=
    Number.mul_whole (Number.toQuantity_whole exact _) x
  have hround : (Number.real (x.mul (.finite style.unitsPerSecond))).roundWhole
      = .ok (nearestInt (q * style.unitsPerSecond)) := by
    rw [Number.roundWhole, Quantity.value?_mul hx rfl (exact _)]
  rw [units, hscaled]
  show (Number.roundWhole _ >>= _) = _
  rw [hround]
  rfl

theorem TimeNotation.window_of_value? (exact : rounding.IsExact) (style : TimeNotation)
    {start stop : Quantity} {first last : Rat} (hstart : start.value? = some first)
    (hstop : stop.value? = some last) : style.window start stop =
      .ok (style.textOfUnits (nearestInt (first * style.unitsPerSecond)).toNat ++ " --> "
        ++ style.textOfUnits (nearestInt (last * style.unitsPerSecond)).toNat) := by
  rw [window, text, units_of_value? exact style hstart, text, units_of_value? exact style hstop]
  rfl

namespace Srt

/-- The sign of a zero does not show in a block. -/
theorem exists_block (exact : rounding.IsExact) (options : WriteOptions) (number : Nat)
    {subtitle : Subtitle} (forward : subtitle.IsForward) :
    ∃ text, block options number subtitle = .ok text ∧
      block options number subtitle.reread = .ok text := by
  obtain ⟨first, hstart⟩ := Quantity.isFinite_iff.mp forward.start
  obtain ⟨last, hstop⟩ := Quantity.isFinite_iff.mp forward.stop
  have hwindow := TimeNotation.srt.window_of_value? exact hstart hstop
  have hunsigned := TimeNotation.srt.window_of_value? exact
    ((Quantity.value?_unsigned subtitle.start).trans hstart)
    ((Quantity.value?_unsigned subtitle.stop).trans hstop)
  rw [block, block, Subtitle.reread, hwindow, hunsigned]
  exact ⟨_, rfl, rfl⟩

theorem exists_blocks_reread (exact : rounding.IsExact) (options : WriteOptions) (number : Nat)
    {subtitles : List Subtitle} (forward : ∀ subtitle ∈ subtitles, subtitle.IsForward) :
    ∃ texts, blocks options number subtitles = .ok texts ∧
      blocks options number (subtitles.map Subtitle.reread) = .ok texts := by
  induction subtitles generalizing number with
  | nil => exact ⟨[], rfl, rfl⟩
  | cons subtitle rest ih =>
    rw [List.forall_mem_cons] at forward
    obtain ⟨text, htext, hreread⟩ := exists_block exact options number forward.1
    obtain ⟨texts, htexts, hrest⟩ := ih (number + 1) forward.2
    refine ⟨text :: texts, ?_, ?_⟩
    · rw [blocks, htext, htexts]
      rfl
    · rw [List.map_cons, blocks, hreread, hrest]
      rfl

end Srt

/-! ## Layers and subtitles -/

namespace Timeline

/-- **A layer that a subtitle became gives the subtitle back**, as far as a document holds it. -/
theorem subtitleOf_timedLayer (exact : rounding.IsExact) (total : Quantity)
    (position : Option Position) (animation : Option Animation) {subtitle : Subtitle}
    (forward : subtitle.IsForward) (hbegun : Quantity.le (.finite 0) subtitle.start = true) :
    subtitleOf total (timedLayer position animation subtitle) = some subtitle.reread := by
  obtain ⟨first, hstart⟩ := Quantity.isFinite_iff.mp forward.start
  obtain ⟨last, hstop⟩ := Quantity.isFinite_iff.mp forward.stop
  have hfirst : 0 ≤ first := (Quantity.le_iff_value? rfl hstart).mp hbegun
  have hclamp : Layer.clampStart subtitle.start = .finite first := by
    rw [Layer.clampStart_of_value? hstart, max_eq_right hfirst]
  have hend : (Quantity.finite first).add subtitle.length = .finite last := by
    rw [Subtitle.length, Quantity.finite_add_of_value? exact
      (Quantity.value?_sub exact hstop hstart), add_sub_cancel]
  show some (Subtitle.mk _ _ _ (Layer.clampStart subtitle.start)
    ((Layer.clampStart subtitle.start).add subtitle.length) _ _ _ _ _) = _
  rw [hclamp, hend, Subtitle.reread, Quantity.unsigned_of_value? hstart,
    Quantity.unsigned_of_value? hstop]
  rfl

/-- **A timeline that subtitles were burnt into is written as the document of the subtitles**,
character for character and whatever the options of the writer are, if no subtitle starts before
zero and times are not rounded. -/
theorem toSrt_burn (exact : rounding.IsExact) (options : WriteOptions) {subtitles : List Subtitle}
    (forward : ∀ s ∈ subtitles, s.IsForward)
    (begun : ∀ s ∈ subtitles, Quantity.le (.finite 0) s.start = true) :
    ∃ timeline text, burn {} subtitles {} = .ok timeline ∧ timeline.toSrt options = .ok text ∧
      Srt.write options subtitles = .ok text := by
  have hperm := Subtitle.sorted_perm subtitles
  have hsorted : ∀ s ∈ Subtitle.sorted subtitles, s.IsForward :=
    fun s hs ↦ forward s (hperm.mem_iff.mp hs)
  have hrising : Subtitle.IsRising (Subtitle.sorted subtitles) :=
    Subtitle.sorted_isRising fun s hs ↦ (Quantity.le_defined (begun s hs)).2
  let timeline : Timeline :=
    append {} ((Subtitle.sorted subtitles).map (timedLayer (some .bottom) none))
  have htaken : timeline.subtitles = (Subtitle.sorted subtitles).map Subtitle.reread := by
    show ((Subtitle.sorted subtitles).map _).filterMap _ = _
    rw [List.filterMap_map, ← List.filterMap_eq_map]
    exact List.filterMap_congr fun s hs ↦ subtitleOf_timedLayer exact _ _ _ (hsorted s hs)
      (begun s (hperm.mem_iff.mp hs))
  -- The layers are in the order of their starts already, so that they are not sorted anew.
  have hagain : Subtitle.sorted ((Subtitle.sorted subtitles).map Subtitle.reread)
      = (Subtitle.sorted subtitles).map Subtitle.reread :=
    Subtitle.sorted_of_isRising (hrising.of_unsigned (by rw [List.map_map]; rfl))
  obtain ⟨texts, htexts, hreread⟩ := Srt.exists_blocks_reread exact options 1 hsorted
  refine ⟨timeline, options.opening ++ String.join texts, burn_timed exact {} forward, ?_, ?_⟩
  · rw [toSrt, htaken, Srt.write, hagain, hreread]
    rfl
  · rw [Srt.write, htexts]
    rfl

/-- A slanted caption with a place of its own, and a plain one that starts before it, at the zero
with a sign. -/
def placedTitles : List Subtitle := [
  { text := "Up there", start := .finite (3 / 2), stop := .finite 4
    position := some { y := .num 40 }
    style := some { fontStyle := some "italic", fontSize := some (.finite 40) } },
  { text := "Once\n\n<b>", start := .negativeZero, stop := .finite (1 / 4) }]

omit rounding in
theorem placedTitles_burnt : Rounding.exact.IsExact ∧ (∀ s ∈ placedTitles, s.IsForward) ∧
    (∀ s ∈ placedTitles, Quantity.le (.finite 0) s.start = true) ∧
    ∃ timeline, @burn .exact {} placedTitles {} = .ok timeline ∧ @toSrt .exact timeline {} =
      .ok ("1\n00:00:00,000 --> 00:00:00,250\nOnce\n\n<b>\n\n"
        ++ "2\n00:00:01,500 --> 00:00:04,000\n<i>Up there</i>\n\n") := by
  let _ : Rounding := .exact
  have exact := Rounding.exact_isExact
  have forward : ∀ s ∈ placedTitles, s.IsForward := by
    rw [placedTitles, List.forall_mem_cons, List.forall_mem_singleton]
    exact ⟨⟨rfl, rfl, by decide +kernel⟩, rfl, rfl, by decide +kernel⟩
  have begun : ∀ s ∈ placedTitles, Quantity.le (.finite 0) s.start = true := by
    rw [placedTitles, List.forall_mem_cons, List.forall_mem_singleton]
    exact ⟨by decide +kernel, by decide +kernel⟩
  obtain ⟨timeline, text, htimeline, htext, hwrite⟩ := toSrt_burn exact {} forward begun
  have hsorted : Subtitle.sorted placedTitles = placedTitles.reverse := by
    have hlt : Quantity.lt .negativeZero (.finite (3 / 2)) = true := by decide +kernel
    simp [Subtitle.sorted, Subtitle.isBefore, placedTitles, List.mergeSort, hlt]
  refine ⟨exact, forward, begun, timeline, htimeline, ?_⟩
  rw [htext, ← hwrite, Srt.write, hsorted]
  exact toOption_eq_some.mp (by decide +kernel)

end Timeline
end Montage
