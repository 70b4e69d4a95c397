import Montage.Proofs.Command.Streams
import Montage.Proofs.Outcome

/-!
# Painting, stage by stage

What one layer does to the graph is said once, by `paintLayer_cases`: it lays a picture over the
canvas with two stages, it draws on the canvas with one, or it is only heard.  `Advances` is what
all three have in common, and it is kept when layers follow each other, so that
`paintLayers_advances` says of a whole timeline that its pictures lead from the streams that are
drawn for them to one finished canvas.
-/

set_option autoImplicit false

namespace Montage
namespace Command

/-- The streams with the pictures of layers, in the order of the layers. -/
def picturePads (inputs : List Input) (layers : List Layer) : List Pad :=
  layers.filterMap fun layer ↦ picturePad inputs layer.content

/-- The streams with the sounds of layers, in the order of the layers. -/
def soundPads (inputs : List Input) (layers : List Layer) : List Pad :=
  layers.filterMap fun layer ↦ soundPad inputs layer.content

theorem picturePads_cons (inputs : List Input) (layer : Layer) (layers : List Layer) :
    picturePads inputs (layer :: layers)
      = (picturePad inputs layer.content).toList ++ picturePads inputs layers := by
  rw [picturePads, List.filterMap_cons]
  cases picturePad inputs layer.content <;> rfl

theorem soundPads_cons (inputs : List Input) (layer : Layer) (layers : List Layer) :
    soundPads inputs (layer :: layers)
      = (soundPad inputs layer.content).toList ++ soundPads inputs layers := by
  rw [soundPads, List.filterMap_cons]
  cases soundPad inputs layer.content <;> rfl

/-- First the pictures and then the sounds are the uses that were counted layer by layer. -/
theorem pads_perm (inputs : List Input) (layers : List Layer) :
    (picturePads inputs layers ++ soundPads inputs layers).Perm (padsOf inputs layers) := by
  induction layers with
  | nil => exact .nil
  | cons layer rest ih =>
    rw [picturePads_cons, soundPads_cons, padsOf, List.flatMap_cons, List.append_assoc,
      List.append_assoc]
    refine List.Perm.append_left _ ?_
    rw [← List.append_assoc]
    refine (List.perm_append_comm.append_right _).trans ?_
    rw [List.append_assoc]
    exact ih.append_left _

theorem picturePad_eq {inputs : List Input} {content : Content} :
    picturePad inputs content = (Picture.ofContent content).map fun picture ↦
      ⟨indexOf inputs picture.source.path, false⟩ := by
  cases content <;> rfl

theorem length_picturePads (inputs : List Input) (layers : List Layer) :
    (picturePads inputs layers).length
      = (layers.filterMap fun layer ↦ Picture.ofContent layer.content).length := by
  rw [picturePads]
  simp only [picturePad_eq]
  rw [← List.map_filterMap, List.length_map]

theorem soundPad_eq {inputs : List Input} {content : Content} :
    soundPad inputs content = (Sound.ofContent content).map fun sound ↦
      ⟨indexOf inputs sound.source.path, true⟩ := by
  cases content with
  | video video => cases h : video.audio <;> simp [soundPad, Sound.ofContent, h, Sound.source]
  | _ => rfl

theorem length_soundPads (inputs : List Input) (layers : List Layer) :
    (soundPads inputs layers).length
      = (layers.filterMap fun layer ↦ Sound.ofContent layer.content).length := by
  rw [soundPads]
  simp only [soundPad_eq]
  rw [← List.map_filterMap, List.length_map]

variable [Rounding]

/-! ## One layer -/

/-- The stages that lay a picture over the canvas, given their filters. -/
def laidOver (inputs : List Input) (session : Session) (current : String) (picture : Picture)
    (prepare : List Filter) (overlay : Filter) : Painted :=
  let prepared := numbered "l" session.prepared
  let (stream, splits) := takeStream ⟨indexOf inputs picture.source.path, false⟩ session.splits
  let output := numbered "v" session.painted
  { stages := [{ inputs := [stream], filters := prepare, outputs := [prepared] },
      { inputs := [current, prepared], filters := [overlay], outputs := [output] }]
    output
    session := { session with
      splits, prepared := session.prepared + 1, painted := session.painted + 1 } }

/-- What painting a picture does. -/
theorem paintPicture_eq_ok {canvas : Canvas} {inputs : List Input} {session : Session}
    {current : String} {layer : Layer} {picture : Picture} {painted : Painted} :
    paintPicture canvas inputs session current layer picture = .ok painted
      ↔ ∃ prepare overlay, preparation canvas layer picture = .ok prepare
        ∧ overlayFilter canvas layer picture = .ok overlay
        ∧ laidOver inputs session current picture prepare overlay = painted := by
  simp only [paintPicture, bind_eq_ok, pure_eq_ok]
  constructor
  · rintro ⟨prepare, hprepare, overlay, hoverlay, h⟩
    exact ⟨prepare, overlay, hprepare, hoverlay, h⟩
  · rintro ⟨prepare, overlay, hprepare, hoverlay, h⟩
    exact ⟨prepare, hprepare, overlay, hoverlay, h⟩

/-- **What painting one layer can do.** -/
theorem paintLayer_cases {canvas : Canvas} {options : RenderOptions} {inputs : List Input}
    {session : Session} {current : String} {layer : Layer} {result : Option Painted}
    (h : paintLayer canvas options inputs session current layer = .ok result) :
    (∃ picture prepare overlay, Picture.ofContent layer.content = some picture
      ∧ preparation canvas layer picture = .ok prepare
      ∧ overlayFilter canvas layer picture = .ok overlay
      ∧ result = some (laidOver inputs session current picture prepare overlay))
    ∨ (∃ drawing filter, Picture.ofContent layer.content = none
      ∧ drawingOf layer.content = some drawing
      ∧ textFilter canvas options.defaultStyle layer drawing = .ok filter
      ∧ result = some (paintWith session current [filter]))
    ∨ (∃ effect filters, layer.content = .filter effect ∧ effect.isAudio = false
      ∧ effectFilters canvas layer effect = .ok filters
      ∧ result = some (paintWith session current filters))
    ∨ (Picture.ofContent layer.content = none ∧ drawingOf layer.content = none
      ∧ (∀ effect, layer.content = .filter effect → effect.isAudio = true)
      ∧ result = none) := by
  rw [paintLayer] at h
  split at h
  · rename_i picture hpicture
    obtain ⟨painted, hpainted, hresult⟩ := bind_eq_ok.mp h
    obtain ⟨prepare, overlay, hprepare, hoverlay, rfl⟩ := paintPicture_eq_ok.mp hpainted
    rw [pure_eq_ok] at hresult
    exact .inl ⟨picture, prepare, overlay, hpicture, hprepare, hoverlay, hresult.symm⟩
  · rename_i hpicture
    split at h
    · rename_i _ drawing hdrawing
      obtain ⟨filter, hfilter, hresult⟩ := bind_eq_ok.mp h
      rw [pure_eq_ok] at hresult
      exact .inr (.inl ⟨drawing, filter, hpicture, hdrawing, hfilter, hresult.symm⟩)
    · rename_i effect hdrawing heffect
      split at h
      · rename_i haudio
        rw [pure_eq_ok] at h
        refine .inr (.inr (.inr ⟨hpicture, hdrawing, fun other hother ↦ ?_, h.symm⟩))
        rw [heffect, Content.filter.injEq] at hother
        rwa [← hother]
      · rename_i haudio
        obtain ⟨filters, hfilters, hresult⟩ := bind_eq_ok.mp h
        rw [pure_eq_ok] at hresult
        exact .inr (.inr (.inl ⟨effect, filters, heffect, by simpa using haudio, hfilters,
          hresult.symm⟩))
    · rename_i hdrawing hother
      rw [pure_eq_ok] at h
      exact .inr (.inr (.inr ⟨hpicture, hdrawing,
        fun effect heffect ↦ absurd heffect (hother effect), h.symm⟩))

/-! ## Many layers -/

/-- What painting does to open streams, copies and labels, where the streams of `pads` are laid
over the canvas. -/
structure Advances (pads : List Pad) (session : Session) (current : String) (painted : Painted) :
    Prop where
  flow : Stage.Flow (current ::ₘ ↑(drawn pads session.splits).1) painted.stages {painted.output}
  splits : painted.session.splits = (drawn pads session.splits).2
  sounds : painted.session.sounds = session.sounds
  prepared : painted.session.prepared = session.prepared + pads.length
  written : ∃ n, painted.session.painted = session.painted + n
    ∧ (Stage.written painted.stages).Perm
      ((List.range' session.prepared pads.length).map (numbered "l")
        ++ (List.range' session.painted n).map (numbered "v"))
  last : (painted.stages = [] ∧ painted.output = current)
    ∨ ∃ front stage, painted.stages = front ++ [stage] ∧ stage.outputs = [painted.output]

namespace Advances

variable {pads more : List Pad} {session : Session} {current : String} {first later : Painted}

omit [Rounding] in
theorem refl (session : Session) (current : String) :
    Advances [] session current ⟨[], current, session⟩ where
  flow := .nil _
  splits := rfl
  sounds := rfl
  prepared := rfl
  written := ⟨0, rfl, .nil⟩
  last := .inl ⟨rfl, rfl⟩

omit [Rounding] in
theorem trans (h : Advances pads session current first)
    (k : Advances more first.session first.output later) :
    Advances (pads ++ more) session current
      { later with stages := first.stages ++ later.stages } where
  flow := by
    have hflow := k.flow
    rw [h.splits] at hflow
    rw [drawn_append, ← Multiset.coe_add, ← Multiset.cons_add]
    exact (h.flow.frame _).append hflow
  splits := by rw [drawn_append, k.splits, h.splits]
  sounds := by rw [k.sounds, h.sounds]
  prepared := by rw [k.prepared, h.prepared, List.length_append, Nat.add_assoc]
  written := by
    obtain ⟨n, hn, hfirst⟩ := h.written
    obtain ⟨m, hm, hlater⟩ := k.written
    refine ⟨n + m, by rw [hm, hn, Nat.add_assoc], ?_⟩
    rw [h.prepared, hn] at hlater
    rw [Stage.written_append, List.length_append, ← List.range'_append_1, ← List.range'_append_1,
      List.map_append, List.map_append]
    refine (hfirst.append hlater).trans ?_
    rw [List.append_assoc, List.append_assoc]
    refine List.Perm.append_left _ ?_
    rw [← List.append_assoc, ← List.append_assoc]
    exact List.perm_append_comm.append_right _
  last := by
    rcases k.last with ⟨hstages, houtput⟩ | ⟨front, stage, hstages, houtput⟩
    · rw [hstages, List.append_nil, houtput]
      exact h.last
    · exact .inr ⟨first.stages ++ front, stage, by rw [hstages, List.append_assoc], houtput⟩

omit [Rounding] in
theorem paintWith (session : Session) (current : String) (filters : List Filter) :
    Advances [] session current (paintWith session current filters) where
  flow := Stage.Flow.single ⟨[current], filters, [numbered "v" session.painted]⟩
  splits := rfl
  sounds := rfl
  prepared := rfl
  written := ⟨1, rfl, .refl _⟩
  last := .inr ⟨[], _, rfl, rfl⟩

omit [Rounding] in
theorem laidOver (inputs : List Input) (session : Session) (current : String) (picture : Picture)
    (prepare : List Filter) (overlay : Filter) :
    Advances [⟨indexOf inputs picture.source.path, false⟩] session current
      (laidOver inputs session current picture prepare overlay) where
  flow := by
    refine .cons {current} ?_ (.cons 0 ?_ (.nil _))
    · rw [add_comm]
      rfl
    · rw [add_comm]
      rfl
  splits := rfl
  sounds := rfl
  prepared := rfl
  written := ⟨1, rfl, .refl _⟩
  last := .inr ⟨[_], _, rfl, rfl⟩

end Advances

/-- A layer moves the canvas on by its picture, if it has one. -/
theorem paintLayer_advances {canvas : Canvas} {options : RenderOptions} {inputs : List Input}
    {session : Session} {current : String} {layer : Layer} {result : Option Painted}
    (h : paintLayer canvas options inputs session current layer = .ok result) :
    Advances (picturePad inputs layer.content).toList session current
      (result.getD ⟨[], current, session⟩) := by
  rw [picturePad_eq]
  rcases paintLayer_cases h with ⟨picture, prepare, overlay, hpicture, -, -, rfl⟩
    | ⟨drawing, filter, hpicture, -, -, rfl⟩ | ⟨effect, filters, heffect, -, -, rfl⟩
    | ⟨hpicture, -, -, rfl⟩
  · rw [hpicture]
    exact .laidOver inputs session current picture prepare overlay
  · rw [hpicture]
    exact .paintWith session current [filter]
  · rw [heffect]
    exact .paintWith session current filters
  · rw [hpicture]
    exact .refl session current

/-- What painting layers does: the first one is painted, and the others onto what it leaves. -/
theorem paintLayers_cons {canvas : Canvas} {options : RenderOptions} {inputs : List Input}
    {session : Session} {current : String} {layer : Layer} {rest : List Layer} {painted : Painted}
    (h : paintLayers canvas options inputs session current (layer :: rest) = .ok painted) :
    ∃ result first later, paintLayer canvas options inputs session current layer = .ok result
      ∧ first = result.getD ⟨[], current, session⟩
      ∧ paintLayers canvas options inputs first.session first.output rest = .ok later
      ∧ painted = { later with stages := first.stages ++ later.stages } := by
  rw [paintLayers] at h
  obtain ⟨result, hlayer, h⟩ := bind_eq_ok.mp h
  cases result with
  | none => exact ⟨none, _, painted, hlayer, rfl, h, rfl⟩
  | some first =>
    obtain ⟨later, hlater, h⟩ := bind_eq_ok.mp h
    rw [pure_eq_ok] at h
    exact ⟨some first, first, later, hlayer, rfl, hlater, h.symm⟩

/-- **The pictures lead from their streams and the canvas to one finished canvas.** -/
theorem paintLayers_advances {canvas : Canvas} {options : RenderOptions} {inputs : List Input}
    {session : Session} {current : String} {layers : List Layer} {painted : Painted}
    (h : paintLayers canvas options inputs session current layers = .ok painted) :
    Advances (picturePads inputs layers) session current painted := by
  induction layers generalizing session current painted with
  | nil =>
    rw [paintLayers, Except.ok.injEq] at h
    exact h ▸ .refl session current
  | cons layer rest ih =>
    obtain ⟨result, first, later, hlayer, rfl, hlater, rfl⟩ := paintLayers_cons h
    rw [picturePads_cons]
    exact (paintLayer_advances hlayer).trans (ih hlater)

omit [Rounding] in
theorem Advances.left {pads : List Pad} {session : Session} {current : String} {painted : Painted}
    (h : Advances pads session current painted) : LeftOf session.splits painted.session.splits :=
  h.splits ▸ drawn_left pads session.splits

/-- Every picture is prepared from a stream of its own file, and a stage follows that lays it over
the canvas. -/
theorem paintLayers_prepares {canvas : Canvas} {options : RenderOptions} {inputs : List Input}
    {session : Session} {current : String} {layers before after : List Layer} {layer : Layer}
    {picture : Picture} {painted : Painted} (hl : layers = before ++ layer :: after)
    (hp : Picture.ofContent layer.content = some picture)
    (h : paintLayers canvas options inputs session current layers = .ok painted) :
    ∃ front preparing laying back, painted.stages = front ++ preparing :: laying :: back
      ∧ Prepares session.splits ⟨indexOf inputs picture.source.path, false⟩
        (preparation canvas layer picture)
        (numbered "l" (session.prepared + (picturePads inputs before).length)) preparing := by
  subst hl
  induction before generalizing session current painted with
  | nil =>
    obtain ⟨result, first, later, hlayer, rfl, -, rfl⟩ := paintLayers_cons h
    rcases paintLayer_cases hlayer with ⟨other, prepare, overlay, hother, hprepare, -, rfl⟩
      | ⟨-, -, hnone, -⟩ | ⟨effect, -, heffect, -⟩ | ⟨hnone, -⟩
    · obtain rfl : other = picture := Option.some.inj (hother.symm.trans hp)
      exact ⟨[], _, _, later.stages, rfl, hprepare, rfl, _, rfl, (takeStream_spec _ _).1⟩
    · rw [hnone] at hp
      cases hp
    · rw [heffect] at hp
      cases hp
    · rw [hnone] at hp
      cases hp
  | cons first before ih =>
    obtain ⟨result, one, later, hlayer, hone, hlater, rfl⟩ := paintLayers_cons h
    have hfirst := paintLayer_advances hlayer
    rw [← hone] at hfirst
    have hlength : (picturePads inputs (first :: before)).length
        = (picturePad inputs first.content).toList.length + (picturePads inputs before).length := by
      rw [picturePads_cons, List.length_append]
    obtain ⟨front, preparing, laying, back, hstages, hprepares⟩ := ih hlater
    rw [hlength, ← Nat.add_assoc, ← hfirst.prepared]
    refine ⟨one.stages ++ front, preparing, laying, back, ?_, hprepares.of_left hfirst.left⟩
    rw [hstages, List.append_assoc]

end Command
end Montage
