import Montage.Proofs.Document.Field
import Montage.Proofs.Timeline.Valid
import Montage.Timeline.Captions
import Montage.Timeline.Words

/-!
# Layers made in rows

Captions and highlighted words become layers one after the other.  Each layer is made from parts
that come from a request, a preset or the layer before it; the parts are valid, and so are the
layers.

Words are moved away from the place of their block.  The distances are quantities, not whole
numbers, since they come from a quotient; so the moved position has an offset that may stand in a
position.
-/

set_option autoImplicit false

namespace Montage

variable [Rounding]

/-! ## Quantities among numbers -/

namespace Number

theorem combine_real {exact : Int → Int → Int} {limited : Quantity → Quantity → Quantity}
    {a b c : Number} (hreal : (∃ x, a = .real x) ∨ ∃ y, b = .real y)
    (h : combine exact limited a b = .ok c) : ∃ z, c = .real z := by
  obtain ⟨x, rfl⟩ | ⟨y, rfl⟩ := hreal
  · obtain ⟨_, -, h⟩ := bind_eq_ok.mp h
    obtain ⟨_, -, h⟩ := bind_eq_ok.mp h
    exact ⟨_, (pure_eq_ok.mp h).symm⟩
  · cases a with
    | whole n =>
      obtain ⟨_, -, h⟩ := bind_eq_ok.mp h
      obtain ⟨_, -, h⟩ := bind_eq_ok.mp h
      exact ⟨_, (pure_eq_ok.mp h).symm⟩
    | real x =>
      obtain ⟨_, -, h⟩ := bind_eq_ok.mp h
      obtain ⟨_, -, h⟩ := bind_eq_ok.mp h
      exact ⟨_, (pure_eq_ok.mp h).symm⟩

/-- A quotient of whole numbers is a quantity. -/
theorem div_whole {a b : Int} {c : Number} (h : div (.whole a) (.whole b) = .ok c) :
    ∃ z, c = .real z := by
  rw [div] at h
  split at h
  · cases h
  split at h
  · cases h
    exact ⟨_, rfl⟩
  split at h
  · cases h
  · cases h
    exact ⟨_, rfl⟩

end Number

namespace Timeline

/-! ## Highlighted words -/

/-- How far a word stands from the middle is a quantity. -/
theorem fromMiddle_real {place count : Nat} {distance : Number}
    (h : fromMiddle place count = .ok distance) : ∃ z, distance = .real z := by
  obtain ⟨half, hhalf, h⟩ := bind_eq_ok.mp h
  exact Number.combine_real (.inr (Number.div_whole hhalf)) h

/-- A position that is moved by quantities is valid. -/
theorem movedBy_isValid {position moved : Position} (valid : position.IsValid) {dx dy : Number}
    (hdx : ∃ z, dx = .real z) (hdy : ∃ z, dy = .real z)
    (h : movedBy position dx dy = .ok moved) : moved.IsValid := by
  obtain ⟨x, hx, h⟩ := bind_eq_ok.mp h
  obtain ⟨y, hy, h⟩ := bind_eq_ok.mp h
  cases pure_eq_ok.mp h
  exact ⟨valid.x, valid.y, .inr (Number.combine_real (.inr hdx) hx),
    .inr (Number.combine_real (.inr hdy) hy)⟩

/-- The parts that all words of a block have in common are valid. -/
structure WordBlock.IsValid (block : WordBlock) : Prop where
  anchor : block.anchor.IsValid
  rest : block.rest.IsValid
  active : block.active.IsValid
  animation : ∀ animation ∈ block.animation, animation.IsValid

theorem wordLayer_isValid {word : String} {start stop : Number} {position : Position}
    {style : Style} {animation : Option Animation} {layer : Layer} (hposition : position.IsValid)
    (hstyle : style.IsValid) (hanimation : ∀ given ∈ animation, given.IsValid)
    (h : wordLayer word start stop position style animation = .ok layer) : layer.IsValid := by
  obtain ⟨_, -, h⟩ := bind_eq_ok.mp h
  exact Layer.makePlaced_isValid hposition hstyle hanimation h

theorem lineLayers_isValid {block : WordBlock} (valid : block.IsValid)
    {lineStart lineStop dy : Number} (hdy : ∃ z, dy = .real z) {count place : Nat}
    {words : List TimedWord} {layers : List Layer}
    (h : lineLayers block lineStart lineStop dy count place words = .ok layers) :
    ∀ layer ∈ layers, layer.IsValid := by
  induction words generalizing place layers with
  | nil =>
    cases h
    exact List.forall_mem_nil _
  | cons word rest ih =>
    obtain ⟨distance, hdistance, h⟩ := bind_eq_ok.mp h
    obtain ⟨dx, hdx, h⟩ := bind_eq_ok.mp h
    obtain ⟨position, hposition, h⟩ := bind_eq_ok.mp h
    obtain ⟨atRest, hatRest, h⟩ := bind_eq_ok.mp h
    obtain ⟨spoken, hspoken, h⟩ := bind_eq_ok.mp h
    obtain ⟨others, hothers, h⟩ := bind_eq_ok.mp h
    cases pure_eq_ok.mp h
    have hplace : position.IsValid :=
      movedBy_isValid valid.anchor (Number.combine_real (.inl (fromMiddle_real hdistance)) hdx)
        hdy hposition
    refine List.forall_mem_cons.mpr ⟨?_, List.forall_mem_cons.mpr ⟨?_, ih hothers⟩⟩
    · exact wordLayer_isValid hplace valid.rest (by rintro _ ⟨⟩) hatRest
    · exact wordLayer_isValid hplace valid.active valid.animation hspoken

/-- **The layers of highlighted words are valid.** -/
theorem blockLayers_isValid {block : WordBlock} (valid : block.IsValid) {count place : Nat}
    {lines : List (List TimedWord)} {layers : List Layer}
    (h : blockLayers block count place lines = .ok layers) : ∀ layer ∈ layers, layer.IsValid := by
  induction lines generalizing place layers with
  | nil =>
    cases h
    exact List.forall_mem_nil _
  | cons line rest ih =>
    cases line with
    | nil => exact ih h
    | cons word words =>
      obtain ⟨distance, hdistance, h⟩ := bind_eq_ok.mp h
      obtain ⟨spacing, -, h⟩ := bind_eq_ok.mp h
      obtain ⟨spaced, hspaced, h⟩ := bind_eq_ok.mp h
      obtain ⟨dy, hdy, h⟩ := bind_eq_ok.mp h
      obtain ⟨first, hfirst, h⟩ := bind_eq_ok.mp h
      obtain ⟨others, hothers, h⟩ := bind_eq_ok.mp h
      cases pure_eq_ok.mp h
      have hreal := Number.combine_real (.inl (fromMiddle_real hdistance)) hspaced
      exact List.forall_mem_append.mpr
        ⟨lineLayers_isValid valid (Number.combine_real (.inl hreal) hdy) hfirst, ih hothers⟩

/-! ## Captions -/

/-- The parts of a caption are valid, if they can be made. -/
structure CaptionItem.IsValid (item : CaptionItem) : Prop where
  position : ∀ o, item.position = .ok o → ∀ position ∈ o, position.IsValid
  style : ∀ o, item.style = .ok o → ∀ style ∈ o, style.IsValid
  animation : ∀ o, item.animation = .ok o → ∀ animation ∈ o, animation.IsValid

theorem captionItem_isValid {position transition transitionDuration value : Json}
    {item : CaptionItem}
    (h : captionItem position transition transitionDuration value = .ok item) : item.IsValid := by
  unfold captionItem at h
  split at h
  · cases h
    refine ⟨fun _ h ↦ Layer.givenPosition_isValid h, ?_, fun _ h ↦ Layer.givenAnimation_isValid h⟩
    rintro _ ⟨⟩ _ ⟨⟩
  · cases h
    exact ⟨fun _ h ↦ Layer.givenPosition_isValid h, fun _ h ↦ Style.coerce_isValid h,
      fun _ h ↦ Layer.givenAnimation_isValid h⟩
  · cases h

/-- The style under a batch of captions is valid. -/
theorem batchStyle_isValid {preset style : Json} {chosen : Option Style}
    (h : batchStyle preset style = .ok chosen) : ∀ given ∈ chosen, given.IsValid := by
  obtain ⟨key, -, h⟩ := bind_eq_ok.mp h
  split at h
  · exact Style.coerce_isValid h
  dsimp only at h
  split at h
  · exact absurd h throw_ne_ok
  · rename_i base hbase
    obtain ⟨own, hown, h⟩ := bind_eq_ok.mp h
    cases pure_eq_ok.mp h
    rintro _ ⟨⟩
    refine Style.IsValid.merged ?_ (List.forall_mem_singleton.mpr (Style.coerce_isValid hown))
    split at hbase
    · exact Style.captionPreset?_isValid hbase
    · cases hbase

/-- **The layers of captions in a row are valid.** -/
theorem captionLayers_isValid {batch : CaptionBatch}
    (hbatch : ∀ style ∈ batch.style, style.IsValid) {place : Nat} {cursor : Json}
    {items : List (Except Error CaptionItem)} (hitems : ∀ item, .ok item ∈ items → item.IsValid)
    {layers : List Layer} (h : captionLayers batch place cursor items = .ok layers) :
    ∀ layer ∈ layers, layer.IsValid := by
  induction items generalizing place cursor layers with
  | nil =>
    cases h
    exact List.forall_mem_nil _
  | cons first rest ih =>
    obtain ⟨item, hfirst, h⟩ := bind_eq_ok.mp h
    have hitem : item.IsValid := hitems item (hfirst ▸ List.mem_cons_self)
    have hrest := fun item h ↦ hitems item (List.mem_cons_of_mem first h)
    split at h
    · exact absurd h throw_ne_ok
    obtain ⟨duration, -, h⟩ := bind_eq_ok.mp h
    obtain ⟨own, hown, h⟩ := bind_eq_ok.mp h
    obtain ⟨animation, hanimation, h⟩ := bind_eq_ok.mp h
    obtain ⟨layer, hlayer, h⟩ := bind_eq_ok.mp h
    obtain ⟨_, -, h⟩ := bind_eq_ok.mp h
    obtain ⟨others, hothers, h⟩ := bind_eq_ok.mp h
    cases pure_eq_ok.mp h
    refine List.forall_mem_cons.mpr ⟨?_, ih hrest hothers⟩
    refine Layer.make_isValid hitem.position ?_ (hitem.animation _ hanimation) hlayer
    rintro _ ⟨⟩
    split
    · rename_i base hbase
      rintro _ ⟨⟩
      exact Style.IsValid.merged (hbatch base hbase)
        (List.forall_mem_singleton.mpr (hitem.style own hown))
    · exact hitem.style own hown

end Timeline
end Montage
