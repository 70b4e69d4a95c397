import Montage.Proofs.Number.Exact
import Montage.Proofs.Subtitle.Order
import Montage.Proofs.Timeline.Made
import Montage.Timeline.Subtitles

/-!
# Captions with times of their own

A caption that says when it starts and when it ends becomes a layer that starts there, or at zero if
that is later, and that lasts for the difference of its two times.  Neither the cursor nor the
captions before it matter (`captionLayers_eq_ok`, `captionLayers_timed`).
-/

set_option autoImplicit false

namespace Montage

variable [rounding : Rounding]

/-! ## Making caption layers -/

namespace Layer

omit rounding in
theorem clampStart_of_value? {x : Quantity} {start : Rat} (hx : x.value? = some start) :
    clampStart x = .finite (max 0 start) := by
  have hlt := Quantity.lt_iff_value? (x := .finite 0) rfl hx
  rw [clampStart, Quantity.max]
  split
  · rename_i hpos
    rw [hlt] at hpos
    rw [max_eq_right hpos.le]
    cases x <;> cases hx
    · rfl
    · exact absurd hpos (lt_irrefl 0)
  · rename_i hneg
    rw [hlt, not_lt] at hneg
    rw [max_eq_left hneg]

theorem decodeStart_eq_ok {value : Json} {start : Quantity} (h : decodeStart value = .ok start) :
    ∃ x, Decoder.quantity value = .ok x ∧ x.isFinite = true ∧ start = clampStart x := by
  rw [decodeStart] at h
  cases hread : Decoder.quantity.such Quantity.isFinite value with
  | failed paths => rw [hread] at h; cases h
  | ok x =>
    rw [hread] at h
    obtain ⟨hx, hfinite⟩ := Checked.require_eq_ok.mp hread
    exact ⟨x, hx, hfinite, (Checked.ok.inj h).symm⟩

theorem decodeStart_quantity {x start : Quantity} (h : decodeStart (.quantity x) = .ok start) :
    x.isFinite = true ∧ start = clampStart x := by
  obtain ⟨y, hy, hfinite, hstart⟩ := decodeStart_eq_ok h
  cases hy
  exact ⟨hfinite, hstart⟩

theorem decodeLength_eq_ok {value : Json} (hvalue : value ≠ .null) {length : Option Quantity}
    (h : Decoder.optional decodeLength value = .ok length) :
    ∃ x, Decoder.quantity value = .ok x ∧ isLength x = true ∧ length = some x := by
  obtain ⟨x, hread, rfl⟩ := Decoder.exists_of_optional hvalue h
  obtain ⟨hx, hlength⟩ := Checked.require_eq_ok.mp hread
  exact ⟨x, hx, hlength, rfl⟩

theorem decodeLength_quantity {x : Quantity} {length : Option Quantity}
    (h : Decoder.optional decodeLength (.quantity x) = .ok length) :
    isLength x = true ∧ length = some x := by
  obtain ⟨y, hy, hlength⟩ := decodeLength_eq_ok (by rintro ⟨⟩) h
  cases hy
  exact hlength

/-- A layer with a start and a length that can be read, whatever its content. -/
theorem assemble_of_read {document start length : Json} {begin : Quantity} {span : Option Quantity}
    {position : Option Position} {style : Option Style} {animation : Checked (Option Animation)}
    {content : Content} (hstart : Decoder.written? "startTime" document = some start)
    (hlength : Decoder.written? "duration" document = some length)
    (hread : decodeStart start = .ok begin)
    (hspan : Decoder.optional decodeLength length = .ok span) :
    assemble document ⟨.ok position, .ok style, animation⟩ (.ok content) =
      .ok { startTime := begin, duration := span, position, style, content } := by
  rw [assemble, Decoder.field, Decoder.optField, Decoder.field, hstart, hlength]
  dsimp only
  rw [hread, hspan]
  rfl

/-- A layer with a start and a length, whatever its content. -/
theorem assemble_ok {document : Json} {start length : Quantity} {position : Option Position}
    {style : Option Style} {animation : Checked (Option Animation)} {content : Content}
    (hstart : Decoder.written? "startTime" document = some (.quantity start))
    (hlength : Decoder.written? "duration" document = some (.quantity length))
    (hfinite : start.isFinite = true) (hlasting : isLength length = true) :
    assemble document ⟨.ok position, .ok style, animation⟩ (.ok content) =
      .ok { startTime := clampStart start, duration := some length, position, style, content } := by
  refine assemble_of_read hstart hlength ?_ (congrArg (Checked.map some) (if_pos hlasting))
  rw [decodeStart, Decoder.such_quantity, if_pos hfinite]
  rfl

/-- The layer of a caption with a start and a length. -/
def ofCaption (text : String) (start length : Quantity) (position : Option Position)
    (style : Option Style) (animation : Option Animation) : Layer where
  startTime := clampStart start
  duration := some length
  position
  style
  content := .caption { text, animation }

theorem make_caption {text : String} {start length : Quantity} {position : Option Position}
    {style : Option Style} {animation : Option Animation} (hstart : start.isFinite = true)
    (hlength : isLength length = true) :
    make .caption
        [("text", .str text), ("start_time", .quantity start), ("duration", .quantity length)]
        (.ok position) (.ok style) animation
      = .ok (ofCaption text start length position style animation) :=
  constructing_eq_ok.mpr (Checked.toExcept_eq_ok.mpr (assemble_ok rfl rfl hstart hlength))

/-- The start and the length of a layer are read from what is written for them. -/
theorem assemble_eq_ok {document start length : Json} {parts : Parts} {content : Checked Content}
    {layer : Layer} (hstart : Decoder.written? "startTime" document = some start)
    (hlength : Decoder.written? "duration" document = some length)
    (h : assemble document parts content = .ok layer) :
    decodeStart start = .ok layer.startTime ∧
      Decoder.optional decodeLength length = .ok layer.duration := by
  refine (?_ : Checked.All _ fun layer : Layer ↦ decodeStart start = .ok layer.startTime ∧
    Decoder.optional decodeLength length = .ok layer.duration) layer h
  simp only [assemble, Checked.all_seq, Checked.all_map]
  intro x hx d hd _ _ _ _ _ _
  rw [Decoder.field, hstart] at hx
  rw [Decoder.optField, Decoder.field, hlength] at hd
  exact ⟨Checked.within_eq_ok.mp hx, Checked.within_eq_ok.mp hd⟩

theorem make_caption_eq_ok {text start length : Json} {position : Except Error (Option Position)}
    {style : Except Error (Option Style)} {animation : Option Animation} {layer : Layer}
    (h : make .caption [("text", text), ("start_time", start), ("duration", length)] position style
      animation = .ok layer) :
    decodeStart start = .ok layer.startTime ∧
      Decoder.optional decodeLength length = .ok layer.duration := by
  obtain ⟨place, -, h⟩ := bind_eq_ok.mp (constructing_eq_ok.mp h)
  obtain ⟨look, -, h⟩ := bind_eq_ok.mp h
  exact assemble_eq_ok rfl rfl (Checked.toExcept_eq_ok.mp h)

/-- A layer of a caption has the text that is given for it. -/
theorem make_caption_text {text start length : Json} {position : Except Error (Option Position)}
    {style : Except Error (Option Style)} {animation : Option Animation} {layer : Layer}
    (h : make .caption [("text", text), ("start_time", start), ("duration", length)] position style
      animation = .ok layer) :
    ∃ caption, layer.content = .caption caption ∧ text = .str caption.text := by
  obtain ⟨place, -, h⟩ := bind_eq_ok.mp (constructing_eq_ok.mp h)
  obtain ⟨look, -, h⟩ := bind_eq_ok.mp h
  refine (?_ : Checked.All _ fun layer : Layer ↦ ∃ caption, layer.content = .caption caption ∧
    text = .str caption.text) layer (Checked.toExcept_eq_ok.mp h)
  simp only [decodeWith, assemble, decodeContent, decodeCaption, Checked.all_seq, Checked.all_map]
  intro _ _ _ _ _ _ _ _ words hwords _ _ _ _ _ _
  have hread : Decoder.text text = .ok words := Checked.within_eq_ok.mp hwords
  refine ⟨_, rfl, ?_⟩
  cases text <;> cases hread
  rfl

end Layer

/-! ## Times in order -/

/-- A subtitle with finite times that are in order. -/
structure Subtitle.IsForward (subtitle : Subtitle) : Prop where
  start : subtitle.start.isFinite = true
  stop : subtitle.stop.isFinite = true
  ordered : subtitle.start.le subtitle.stop = true

theorem Subtitle.IsForward.isLength (exact : rounding.IsExact) {subtitle : Subtitle}
    (forward : subtitle.IsForward) : Layer.isLength subtitle.length = true := by
  obtain ⟨start, hstart⟩ := Quantity.isFinite_iff.mp forward.start
  obtain ⟨stop, hstop⟩ := Quantity.isFinite_iff.mp forward.stop
  have hle := (Quantity.le_iff_value? hstart hstop).mp forward.ordered
  have hlength := Quantity.value?_sub exact hstop hstart
  have hnot : ¬ subtitle.length.lt (.finite 0) = true := by
    rw [Subtitle.length, Quantity.lt_iff_value? hlength rfl]
    exact not_lt.mpr (sub_nonneg.mpr hle)
  rw [Layer.isLength, Bool.and_eq_true, Bool.not_eq_true', ← Bool.not_eq_true]
  exact ⟨Quantity.isFinite_iff.mpr ⟨_, hlength⟩, hnot⟩

/-! ## What captions have if nothing is said -/

/-- In the middle, a margin above the lower edge of the canvas. -/
def Position.bottom : Position where
  x := .text "50%"
  y := .text "100%"
  anchor := some .bottomCenter
  dy := .real (.finite (-20))

theorem Position.preset_bottom (exact : rounding.IsExact) :
    preset (.str "bottom") (.num defaultMargin) = .ok bottom := by
  have hx : decodeCoordinate (.str "50%") = .ok (.text "50%") := rfl
  have hy : decodeCoordinate (.str "100%") = .ok (.text "100%") := rfl
  have hoffset : decodeOffset (.num (.whole (-20))) = .ok (.real (.finite (-20))) := by
    rw [decodeOffset, Decoder.quantity, Number.toQuantity_whole exact]
    rfl
  refine Checked.toExcept_eq_ok.mpr ?_
  show Position.mk <$> (decodeCoordinate (.str "50%")).within "x"
    <*> (decodeCoordinate (.str "100%")).within "y" <*> _ <*> _
    <*> (decodeOffset (.num (.whole (-20)))).within "dy" = _
  rw [hx, hy, hoffset]
  rfl

theorem Layer.givenPosition_bottom (exact : rounding.IsExact) :
    givenPosition (.str "bottom") = .ok (some .bottom) := by
  show (Position.preset (.str "bottom") (.num Position.defaultMargin)).map some = _
  rw [Position.preset_bottom exact]
  rfl

/-- The motion that captions in a row have if nothing is said. -/
theorem Layer.givenAnimation_fade :
    givenAnimation (.str "fade") Animation.defaultDuration = .ok (some { motion := .fade }) := by
  have hduration : (Decoder.quantity.such fun x ↦ Quantity.lt (.finite 0) x)
      Animation.defaultDuration = .ok (.finite (1 / 2)) := if_pos (by decide +kernel)
  refine constructing_eq_ok.mpr ?_
  show (Checked.toExcept (Animation.mk <$> _ <*> ((Decoder.quantity.such fun x ↦
    Quantity.lt (.finite 0) x) Animation.defaultDuration).within "duration" <*> _ <*> _ <*> _
    <*> _)).map some = _
  rw [hduration]
  rfl

namespace Timeline

/-! ## Captions in a row -/

/-- A layer that has the times of a caption: its start, and the difference of its times as its
length. -/
structure CaptionItem.HasTimes (item : CaptionItem) (layer : Layer) : Prop where
  start : Layer.decodeStart item.start = .ok layer.startTime
  length : ∃ length, item.stop.sub item.start = .ok length ∧
    Decoder.optional Layer.decodeLength length = .ok layer.duration

/-- A caption that says when it starts and when it ends, and not how long it stays. -/
structure CaptionItem.IsTimed (item : CaptionItem) : Prop where
  start : item.start ≠ .null
  duration : item.duration = .null
  stop : item.stop ≠ .null

theorem CaptionItem.IsTimed.length_eq {item : CaptionItem} (timed : item.IsTimed)
    (batch : CaptionBatch) : item.length batch item.start = item.stop.sub item.start := by
  rw [CaptionItem.length, timed.duration]
  split
  · rename_i hstop
    exact absurd hstop timed.stop
  · rfl
  · rename_i hnull _
    exact absurd rfl hnull

/-- The start of a caption: its own, or where the cursor stands. -/
def CaptionItem.startFrom (item : CaptionItem) (cursor : Json) : Json :=
  match item.start with
  | .null => cursor
  | start => start

/-- What becomes of a caption: a layer with its text and its times, and a place of the cursor behind
it. -/
structure CaptionItem.Becomes (item : CaptionItem) (batch : CaptionBatch) (cursor : Json)
    (layer : Layer) (next : Json) : Prop where
  text : ∃ caption, layer.content = .caption caption ∧ item.text = .str caption.text
  start : Layer.decodeStart (item.startFrom cursor) = .ok layer.startTime
  length : ∃ duration, item.length batch (item.startFrom cursor) = .ok duration ∧
    Decoder.optional Layer.decodeLength duration = .ok layer.duration ∧
    cursorAfter batch (item.startFrom cursor) duration = .ok next

theorem captionLayers_cons_eq_ok {batch : CaptionBatch} {place : Nat} {cursor : Json}
    {first : Except Error CaptionItem} {rest : List (Except Error CaptionItem)}
    {layers : List Layer} (h : captionLayers batch place cursor (first :: rest) = .ok layers) :
    ∃ item layer next others, first = .ok item ∧ layers = layer :: others ∧
      item.Becomes batch cursor layer next ∧
      captionLayers batch (place + 1) next rest = .ok others := by
  obtain ⟨item, hfirst, h⟩ := bind_eq_ok.mp h
  split at h
  · exact absurd h throw_ne_ok
  obtain ⟨duration, hduration, h⟩ := bind_eq_ok.mp h
  obtain ⟨own, -, h⟩ := bind_eq_ok.mp h
  obtain ⟨animation, -, h⟩ := bind_eq_ok.mp h
  obtain ⟨layer, hlayer, h⟩ := bind_eq_ok.mp h
  obtain ⟨next, hnext, h⟩ := bind_eq_ok.mp h
  obtain ⟨others, hothers, h⟩ := bind_eq_ok.mp h
  obtain ⟨hstart, hlength⟩ := Layer.make_caption_eq_ok hlayer
  exact ⟨item, layer, next, others, hfirst, (pure_eq_ok.mp h).symm,
    ⟨Layer.make_caption_text hlayer, hstart, duration, hduration, hlength, hnext⟩, hothers⟩

/-- **Captions in a row become one layer each**, and a caption that says its times becomes one with
these times. -/
theorem captionLayers_eq_ok {batch : CaptionBatch} {place : Nat} {cursor : Json}
    {items : List (Except Error CaptionItem)} {layers : List Layer}
    (h : captionLayers batch place cursor items = .ok layers) :
    List.Forall₂ (fun item layer ↦ ∃ made, item = .ok made ∧ (made.IsTimed → made.HasTimes layer))
      items layers := by
  induction items generalizing place cursor layers with
  | nil =>
    cases h
    exact .nil
  | cons first rest ih =>
    obtain ⟨item, layer, next, others, hfirst, rfl, becomes, hothers⟩ := captionLayers_cons_eq_ok h
    refine .cons ⟨item, hfirst, fun timed ↦ ?_⟩ (ih hothers)
    have hown : item.startFrom cursor = item.start := by
      rw [CaptionItem.startFrom]
      split
      · exact absurd ‹_› timed.start
      · rfl
    obtain ⟨duration, hduration, hlength, -⟩ := becomes.length
    rw [hown, timed.length_eq] at hduration
    exact ⟨hown ▸ becomes.start, duration, hduration, hlength⟩

/-! ## Subtitles in a row -/

/-- A subtitle as a caption with a place and a motion. -/
def timedItem (position : Option Position) (animation : Option Animation) (subtitle : Subtitle) :
    CaptionItem where
  text := .str subtitle.text
  start := .quantity subtitle.start
  duration := .null
  stop := .quantity subtitle.stop
  position := .ok (subtitle.position.or position)
  style := .ok subtitle.style
  animation := .ok animation

/-- The layer that a subtitle becomes. -/
def timedLayer (position : Option Position) (animation : Option Animation) (subtitle : Subtitle) :
    Layer :=
  .ofCaption subtitle.text subtitle.start subtitle.length (subtitle.position.or position)
    subtitle.style animation

/-- The cursor moves on behind a caption of any times. -/
theorem cursorAfter_quantity (exact : rounding.IsExact) {batch : CaptionBatch}
    (hoverlap : batch.overlap = usualOverlap) (start length : Quantity) :
    ∃ next, cursorAfter batch (.quantity start) (.quantity length) = .ok next := by
  obtain ⟨kept, hkept⟩ : ∃ kept,
      (Number.whole 1).sub (.real (binary64 (1 / 10))) = .ok (.real kept) := by
    refine ⟨Quantity.sub (.finite 1) (binary64 (1 / 10)), ?_⟩
    show ((Number.whole 1).toQuantity >>= _) = _
    rw [Number.toQuantity_whole exact]
    rfl
  refine ⟨.num (.real (start.add (length.mul kept))), ?_⟩
  rw [cursorAfter, hoverlap]
  show ((Number.whole 1).sub (.real (binary64 (1 / 10))) >>= _) = _
  rw [hkept]
  rfl

/-- **Subtitles with finite times in order become layers**, each for itself. -/
theorem captionLayers_timed (exact : rounding.IsExact) {batch : CaptionBatch}
    (hstyle : batch.style = none) (hoverlap : batch.overlap = usualOverlap)
    (position : Option Position) (animation : Option Animation) {subtitles : List Subtitle}
    (h : ∀ s ∈ subtitles, s.IsForward) (place : Nat) (cursor : Json) :
    captionLayers batch place cursor
        (subtitles.map fun s ↦ .ok (timedItem position animation s))
      = .ok (subtitles.map (timedLayer position animation)) := by
  induction subtitles generalizing place cursor with
  | nil => rfl
  | cons first rest ih =>
    rw [List.forall_mem_cons] at h
    obtain ⟨next, hnext⟩ := cursorAfter_quantity exact hoverlap first.start first.length
    rw [List.map_cons, List.map_cons, captionLayers, hstyle]
    show (Layer.make .caption [("text", .str first.text), ("start_time", .quantity first.start),
      ("duration", .quantity first.length)] (.ok (first.position.or position)) (.ok first.style)
      animation >>= fun layer ↦ cursorAfter batch (.quantity first.start) (.quantity first.length)
      >>= fun next ↦ captionLayers batch (place + 1) next _ >>= fun rest ↦ pure (layer :: rest)) = _
    rw [Layer.make_caption h.1.start (h.1.isLength exact)]
    show (cursorAfter batch _ _ >>= _) = _
    rw [hnext]
    show (captionLayers batch (place + 1) next _ >>= _) = _
    rw [ih h.2]
    rfl

/-- **Subtitles that are burnt into a timeline become layers** in the order of their starts. -/
theorem burn_timed (exact : rounding.IsExact) (timeline : Timeline) {subtitles : List Subtitle}
    (h : ∀ s ∈ subtitles, s.IsForward) :
    timeline.burn subtitles {} = .ok (timeline.append
      ((Subtitle.sorted subtitles).map (timedLayer (some .bottom) none))) := by
  have hitems : (Subtitle.sorted subtitles).map (fun s ↦ Except.ok (Burning.item {} s))
      = (Subtitle.sorted subtitles).map fun s ↦
        (.ok (timedItem (some .bottom) none s) : Except Error CaptionItem) := by
    refine List.map_congr_left fun s _ ↦ ?_
    rw [Burning.item, Layer.givenPosition_bottom exact]
    cases hposition : s.position <;> simp only [timedItem, hposition] <;> rfl
  have hsorted : ∀ s ∈ Subtitle.sorted subtitles, s.IsForward :=
    fun s hs ↦ h s ((Subtitle.sorted_perm subtitles).mem_iff.mp hs)
  rw [burn]
  dsimp only
  rw [hitems]
  show (captionLayers _ 0 zeroDelay _ >>= _) = _
  rw [captionLayers_timed exact rfl rfl (some .bottom) none hsorted]
  rfl

end Timeline
end Montage
