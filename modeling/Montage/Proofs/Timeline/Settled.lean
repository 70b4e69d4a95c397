import Montage.Proofs.Layer.RoundTrip
import Montage.Proofs.Timeline.Valid

/-!
# Timelines brought back

The document of a valid timeline is read as the same timeline with the positions of its layers
settled, as long as every layer starts at a finite time and no parameter of a filter is infinite or
undefined.  Nothing is passed over on the way, so that there is no warning.

One parameter that is not finite is enough for the whole document to be refused.
-/

set_option autoImplicit false

namespace Montage
namespace Timeline

/-- The timeline with the positions of its layers settled. -/
def settled (timeline : Timeline) : Timeline :=
  { timeline with layers := timeline.layers.map Layer.settled }

/-- The parameters of all filters can stand in a document. -/
def IsStorable (timeline : Timeline) : Prop :=
  ∀ layer ∈ timeline.layers, Layer.areStorable layer.content = true

variable {timeline : Timeline}

theorem settled_settled (timeline : Timeline) : timeline.settled.settled = timeline.settled := by
  simp [settled, Function.comp_def, Layer.settled_settled]

theorem IsValid.settled (valid : timeline.IsValid) : timeline.settled.IsValid := by
  refine ⟨List.forall_mem_map.mpr fun layer hlayer ↦ ?_, valid.options⟩
  exact (valid.layers layer hlayer).settled

variable [Rounding]

theorem duration_settled (timeline : Timeline) : timeline.settled.duration = timeline.duration := by
  have hends :
      timeline.settled.layers.filterMap countedEnd = timeline.layers.filterMap countedEnd :=
    List.filterMap_map
  rw [duration, duration, hends]
  rfl

/-! ## Documents -/

/-- Only an object that names a kind is read as a layer. -/
theorem kind_of_decode {document : Json} {layer : Layer} (h : Layer.decode document = .ok layer) :
    ∃ members kind, document = .obj members ∧ Layer.kindOf? document = some kind := by
  rw [Layer.decode] at h
  split at h
  · rename_i kind hkind
    cases document with
    | obj members => exact ⟨members, kind, rfl, hkind⟩
    | _ => cases hkind
  · cases h

/-- A layer that can be read is read, and then the others are. -/
theorem decodeLayers_cons {document : Json} {layer : Layer} (rest : List Json)
    (h : Layer.decode document = .ok layer) :
    decodeLayers (document :: rest) = (do
      let layers ← decodeLayers rest
      return layer :: layers) := by
  obtain ⟨members, kind, rfl, hkind⟩ := kind_of_decode h
  have hmember : Json.member? "kind" (.obj members) = .ok (Json.lookup? "kind" members) := rfl
  have hlayer : constructing .timelineDocument Error.isInvalid
      (Layer.decode (.obj members)).toExcept = .ok layer :=
    constructing_eq_ok.mpr (Checked.toExcept_eq_ok.mpr h)
  rw [decodeLayers, Reported.lift_bind hmember, hkind]
  exact Reported.lift_bind hlayer _

theorem decodeLayers_encode (hzero : Rounding.round 0 = .finite 0) {layers : List Layer}
    (valid : ∀ layer ∈ layers, layer.IsValid)
    (hfinite : ∀ layer ∈ layers, layer.startTime.isFinite = true)
    (hstorable : ∀ layer ∈ layers, Layer.areStorable layer.content = true) :
    decodeLayers (layers.map Layer.encode) = ⟨.ok (layers.map Layer.settled), []⟩ := by
  induction layers with
  | nil => rfl
  | cons layer rest ih =>
    rw [List.forall_mem_cons] at valid hfinite hstorable
    have hlayer := Layer.decode_encode hzero valid.1 hfinite.1 hstorable.1
    rw [List.map_cons, decodeLayers_cons _ hlayer, ih valid.2 hfinite.2 hstorable.2]
    rfl

/-- Layers of known kinds are read only if each of them is. -/
theorem decodeLayers_cons_eq_ok {document : Json} {rest : List Json} {layers : List Layer}
    (hkind : Layer.kindOf? document ≠ none)
    (h : (decodeLayers (document :: rest)).result = .ok layers) :
    ∃ layer others, Layer.decode document = .ok layer ∧
      (decodeLayers rest).result = .ok others := by
  rw [decodeLayers] at h
  obtain ⟨_, -, h⟩ := Reported.bind_eq_ok.mp h
  split at h
  · exact absurd ‹_› hkind
  · obtain ⟨layer, hlayer, h⟩ := Reported.bind_eq_ok.mp h
    obtain ⟨others, hothers, -⟩ := Reported.bind_eq_ok.mp h
    exact ⟨layer, others, Checked.toExcept_eq_ok.mp (constructing_eq_ok.mp hlayer), hothers⟩

omit [Rounding] in
theorem kindOf?_encode_ne_none (layer : Layer) : Layer.kindOf? layer.encode ≠ none := by
  rw [Layer.kindOf?_encode]
  cases layer.content <;> rintro ⟨⟩

/-- One layer that is refused spoils the document. -/
theorem decodeLayers_encode_of_not {layers : List Layer}
    (h : ∃ layer ∈ layers, Layer.areStorable layer.content = false) {read : List Layer} :
    (decodeLayers (layers.map Layer.encode)).result ≠ .ok read := by
  induction layers generalizing read with
  | nil =>
    obtain ⟨_, hmem, -⟩ := h
    cases hmem
  | cons layer rest ih =>
    intro hread
    obtain ⟨_, others, hlayer, hothers⟩ :=
      decodeLayers_cons_eq_ok (kindOf?_encode_ne_none layer) hread
    obtain ⟨refused, hmem, hrefused⟩ := h
    rcases List.mem_cons.mp hmem with rfl | hmem
    · exact Layer.decode_encode_of_not hrefused _ hlayer
    · exact ih ⟨refused, hmem, hrefused⟩ hothers

omit [Rounding] in
/-- Options are written even if nothing was said about them. -/
theorem encode_options_isTruthy (options : RenderOptions) : options.encode.isTruthy = true := by
  simp [RenderOptions.encode, Json.isTruthy, always]

omit [Rounding] in
theorem layers_member (timeline : Timeline) :
    memberOr timeline.encode "layers" (.arr []) =
      .ok (.arr (timeline.layers.map Layer.encode)) := by
  obtain ⟨layers, options⟩ := timeline
  cases layers <;> rfl

omit [Rounding] in
theorem options_member (timeline : Timeline) :
    memberOr timeline.encode "globalOptions" (.obj []) = .ok timeline.options.encode := by
  show (pure (if timeline.options.encode.isTruthy then timeline.options.encode else _) :
    Except Error Json) = _
  rw [if_pos (encode_options_isTruthy _)]
  rfl

/-- **A timeline that can stand in a document is settled by its document**, without a warning. -/
theorem ofDocument_encode (hzero : Rounding.round 0 = .finite 0) (valid : timeline.IsValid)
    (hfinite : ∀ layer ∈ timeline.layers, layer.startTime.isFinite = true)
    (hstorable : timeline.IsStorable) :
    ofDocument timeline.encode = ⟨.ok timeline.settled, []⟩ := by
  have hlayers := decodeLayers_encode hzero valid.layers hfinite hstorable
  have hoptions : constructing .timelineDocument Error.isInvalid
      (RenderOptions.decode timeline.options.encode).toExcept = .ok timeline.options :=
    constructing_eq_ok.mpr (Checked.toExcept_eq_ok.mpr (RenderOptions.decode_encode valid.options))
  have helements : Json.elements (.arr (timeline.layers.map Layer.encode)) =
      .ok (timeline.layers.map Layer.encode) := rfl
  rw [ofDocument, Reported.lift_bind (layers_member timeline), Reported.lift_bind helements,
    Reported.silent_bind hlayers, Reported.lift_bind (options_member timeline),
    Reported.lift_bind hoptions]
  rfl

/-- **A timeline with a parameter that is not finite is not brought back at all.** -/
theorem ofDocument_encode_of_not (h : ¬ timeline.IsStorable) {read : Timeline} :
    (ofDocument timeline.encode).result ≠ .ok read := by
  intro hread
  rw [ofDocument, Reported.lift_bind (layers_member timeline)] at hread
  obtain ⟨documents, hdocuments, hread⟩ := Reported.bind_eq_ok.mp hread
  obtain ⟨layers, hlayers, -⟩ := Reported.bind_eq_ok.mp hread
  cases hdocuments
  refine decodeLayers_encode_of_not ?_ hlayers
  simpa [IsStorable] using h

end Timeline
end Montage
