import Montage.Command.Basic
import Montage.Proofs.Layer.Extended
import Montage.Proofs.Outcome
import Montage.Timeline.Basic

/-!
# Timelines with more in their documents

A document of a timeline may hold more than its reader knows: layers of kinds that do not exist yet,
anywhere among the others, and unknown members in every object that is read member by member
(`Timeline.DocumentExtends`).  It is then read as the document without them, as the same timeline or
with the same refusal (`Timeline.ofDocument_result_of_extends`).

For every layer of an unknown kind there is one warning and for nothing else, so that every layer
that was put in adds exactly one warning to those of an accepted document
(`Timeline.ofDocument_of_extends`).  As the timeline is the same, so is every command that renders
it.
-/

set_option autoImplicit false

namespace Montage

/-! ## Options -/

/-- What is known of a kept part of the output. -/
def TrimRange.known : Known where
  plain := ["start", "end"]

/-- What is known of a kept rectangle. -/
def CropBox.known : Known where
  plain := ["width", "height", "x", "y"]

/-- What is known of a size. -/
def ScaleSize.known : Known where
  plain := ["width", "height"]

namespace RenderOptions

/-- What is known of the options of a timeline. -/
def known : Known where
  plain := ["aspectRatio", "width", "height", "fps", "quality", "codec", "duration",
    "backgroundColor"]
  parts := [("trim", Extends TrimRange.known), ("crop", Extends CropBox.known),
    ("scale", Extends ScaleSize.known), ("defaultStyle", Extends Style.known)]

variable [Rounding] {a b : Json}

theorem decodeTrim_of_extends (h : Extends TrimRange.known a b) : decodeTrim a = decodeTrim b :=
  h.object_eq fun h ↦ by simp (disch := decide) only [h.field_plain, h.optField_plain]

omit [Rounding] in
theorem decodeCrop_of_extends (h : Extends CropBox.known a b) : decodeCrop a = decodeCrop b :=
  h.object_eq fun h ↦ by simp (disch := decide) only [h.needed_plain, h.field_plain]

omit [Rounding] in
theorem decodeScale_of_extends (h : Extends ScaleSize.known a b) : decodeScale a = decodeScale b :=
  h.object_eq fun h ↦ by simp (disch := decide) only [h.needed_plain]

/-- **An extended document changes options as the document does.** -/
theorem decodeOver_of_extends (base : RenderOptions) (h : Extends known a b) :
    base.decodeOver a = base.decodeOver b := by
  refine h.object_eq fun h ↦ ?_
  have htrim := h.field_part "trim" base.trim decodeTrim_of_extends (by simp [known])
  have hcrop := h.field_part "crop" base.crop decodeCrop_of_extends (by simp [known])
  have hscale := h.field_part "scale" base.scale decodeScale_of_extends (by simp [known])
  have hstyle := h.field_part "defaultStyle" base.defaultStyle Style.decode_of_extends
    (by simp [known])
  simp (disch := decide) only [htrim, hcrop, hscale, hstyle, h.field_plain]

end RenderOptions

namespace Timeline

/-! ## Extended documents -/

/-- The second list of layers is the first one with layers of unknown kinds put in, and with more in
the documents of the others. -/
inductive LayersExtend : List Json → List Json → List Json → Prop where
  | nil : LayersExtend [] [] []
  | kept {a b : Json} {inserted documents more : List Json} (grown : Extends (Layer.knownOf a) a b)
      (h : LayersExtend inserted documents more) :
      LayersExtend inserted (a :: documents) (b :: more)
  | inserted {members : List (String × Json)} {inserted documents more : List Json}
      (unknown : Layer.kindOf? (.obj members) = none) (h : LayersExtend inserted documents more) :
      LayersExtend (.obj members :: inserted) documents (.obj members :: more)

/-- What stands for the layers in a document and in an extended one.  Layers are put into a list. -/
inductive LayersMember : List Json → Option Json → Option Json → Prop where
  | same (value : Option Json) : LayersMember [] value value
  | list {inserted documents more : List Json} (h : LayersExtend inserted documents more) :
      LayersMember inserted (some (.arr documents)) (some (.arr more))

/-- The document of a timeline and an extended one: with some layers of unknown kinds put in, and
with unknown members in any of the objects that are read member by member. -/
inductive DocumentExtends (inserted : List Json) : Json → Json → Prop where
  | mk {members more : List (String × Json)}
      (layers : LayersMember inserted (Json.lookup? "layers" members) (Json.lookup? "layers" more))
      (options : Option.Rel (Extends RenderOptions.known) (Json.lookup? "globalOptions" members)
        (Json.lookup? "globalOptions" more)) :
      DocumentExtends inserted (.obj members) (.obj more)

theorem LayersExtend.refl (documents : List Json) : LayersExtend [] documents documents := by
  induction documents with
  | nil => exact .nil
  | cons document rest ih => exact .kept (.same document) ih

section

variable [Rounding] {inserted documents more : List Json}

/-! ## Layers -/

/-- Layers are read one after the other. -/
theorem decodeLayers_result_cons (document : Json) (rest : List Json) :
    (decodeLayers (document :: rest)).result = (document.member? "kind" >>= fun _ ↦
      match Layer.kindOf? document with
      | none => (decodeLayers rest).result
      | some _ =>
        constructing .timelineDocument Error.isInvalid (Layer.decode document).toExcept >>=
          fun layer ↦ (decodeLayers rest).result >>= fun layers ↦ .ok (layer :: layers)) := by
  rw [decodeLayers, Reported.result_bind]
  cases Layer.kindOf? document <;> simp only [Reported.result_bind] <;> rfl

/-- Layers of unknown kinds, and unknown members in the others, make no difference to the layers
that are read. -/
theorem decodeLayers_result_of_extends (h : LayersExtend inserted documents more) :
    (decodeLayers more).result = (decodeLayers documents).result := by
  induction h with
  | nil => rfl
  | kept grown _ ih =>
    rw [decodeLayers_result_cons, decodeLayers_result_cons, ih,
      Layer.member?_kind_of_extends grown, Layer.kindOf?_of_extends grown,
      Layer.decode_of_extends grown]
  | inserted unknown _ ih =>
    rw [decodeLayers_result_cons, unknown]
    exact ih

/-- Whether a document is passed over among those of layers. -/
def isPassedOver (document : Json) : Bool := (Layer.kindOf? document).isNone

/-- **There is one warning for every document that is passed over**, and no other one. -/
theorem decodeLayers_warnings {layers : List Layer}
    (h : (decodeLayers documents).result = .ok layers) :
    (decodeLayers documents).warnings =
      List.replicate (documents.countP isPassedOver) .layerKind := by
  induction documents generalizing layers with
  | nil => rfl
  | cons document rest ih =>
    rw [decodeLayers_result_cons] at h
    obtain ⟨member, hmember, h⟩ := bind_eq_ok.mp h
    rw [decodeLayers, Reported.lift_bind hmember]
    cases hkind : Layer.kindOf? document with
    | none =>
      rw [hkind] at h
      have hpassed : isPassedOver document = true := by rw [isPassedOver, hkind]; rfl
      rw [List.countP_cons_of_pos hpassed, List.replicate_succ, ← ih h]
      rfl
    | some kind =>
      rw [hkind] at h
      obtain ⟨layer, hlayer, h⟩ := bind_eq_ok.mp h
      obtain ⟨others, hothers, -⟩ := bind_eq_ok.mp h
      have hpassed : ¬ isPassedOver document = true := by rw [isPassedOver, hkind]; exact nofun
      rw [List.countP_cons_of_neg hpassed, ← ih hothers]
      dsimp only
      rw [Reported.lift_bind hlayer, Reported.warnings_bind hothers]
      exact List.append_nil _

omit [Rounding] in
theorem LayersExtend.countP (h : LayersExtend inserted documents more) :
    more.countP isPassedOver = inserted.length + documents.countP isPassedOver := by
  induction h with
  | nil => rfl
  | kept grown _ ih =>
    rw [List.countP_cons, List.countP_cons, ih, isPassedOver, isPassedOver,
      Layer.kindOf?_of_extends grown, Nat.add_assoc]
  | inserted unknown _ ih =>
    rw [List.countP_cons_of_pos (by rw [isPassedOver, unknown]; rfl), ih, List.length_cons,
      Nat.add_right_comm]

/-! ## Documents -/

omit [Rounding] in
/-- The documents of the layers in the document of a timeline. -/
def layersOf (document : Json) : Except Error (List Json) :=
  memberOr document "layers" (.arr []) >>= Json.elements

/-- The options in the document of a timeline. -/
def optionsOf (document : Json) : Except Error RenderOptions :=
  memberOr document "globalOptions" (.obj []) >>= fun options ↦
    constructing .timelineDocument Error.isInvalid (RenderOptions.decode options).toExcept

/-- A timeline is read from its layers and its options, in this order. -/
theorem ofDocument_result (document : Json) :
    (ofDocument document).result = (layersOf document >>= fun documents ↦
      (decodeLayers documents).result >>= fun layers ↦
        optionsOf document >>= fun options ↦ .ok { layers, options }) := by
  simp only [ofDocument, Reported.result_bind, layersOf, optionsOf, bind_assoc]
  rfl

/-- The warnings of an accepted document are those of its layers. -/
theorem ofDocument_warnings {document : Json} {timeline : Timeline}
    (h : (ofDocument document).result = .ok timeline) :
    ∃ documents, layersOf document = .ok documents ∧
      (ofDocument document).warnings =
        List.replicate (documents.countP isPassedOver) .layerKind := by
  rw [ofDocument_result] at h
  obtain ⟨documents, hdocuments, h⟩ := bind_eq_ok.mp h
  obtain ⟨layers, hlayers, h⟩ := bind_eq_ok.mp h
  obtain ⟨options, hoptions, h⟩ := bind_eq_ok.mp h
  refine ⟨documents, hdocuments, ?_⟩
  rw [← decodeLayers_warnings hlayers]
  obtain ⟨value, hvalue, helements⟩ := bind_eq_ok.mp hdocuments
  obtain ⟨value', hvalue', hdecoded⟩ := bind_eq_ok.mp hoptions
  rw [ofDocument, Reported.lift_bind hvalue, Reported.lift_bind helements,
    Reported.warnings_bind hlayers, Reported.lift_bind hvalue', Reported.lift_bind hdecoded]
  exact List.append_nil _

/-! ## Reading extended documents -/

variable {document extended : Json} {timeline : Timeline}

omit [Rounding] in
theorem memberOr_obj (members : List (String × Json)) (key : String) (fallback : Json) :
    memberOr (.obj members) key fallback =
      .ok (((Json.lookup? key members).filter Json.isTruthy).getD fallback) := by
  have hmember : Json.member? key (.obj members) = .ok (Json.lookup? key members) := rfl
  rw [memberOr, bind_of_ok hmember]
  cases Json.lookup? key members with
  | none => rfl
  | some value =>
    dsimp only
    rw [Option.filter_some]
    split <;> rfl

omit [Rounding] in
theorem layersOf_of_extends (h : DocumentExtends inserted document extended) :
    Agree (LayersExtend inserted) (layersOf document) (layersOf extended) := by
  obtain ⟨hlayers, -⟩ := h
  rename_i members more
  rw [layersOf, layersOf, memberOr_obj, memberOr_obj]
  generalize Json.lookup? "layers" members = x, Json.lookup? "layers" more = y at hlayers ⊢
  cases hlayers with
  | same value => exact .refl LayersExtend.refl _
  | list h =>
    have hitems (items : List Json) :
        (((some (Json.arr items)).filter Json.isTruthy).getD (.arr [])).elements = .ok items := by
      cases items <;> rfl
    rw [bind_of_ok rfl, bind_of_ok rfl, hitems, hitems]
    exact .ok h

theorem optionsOf_of_extends (h : DocumentExtends inserted document extended) :
    optionsOf document = optionsOf extended := by
  obtain ⟨-, hoptions⟩ := h
  rename_i members more
  rw [optionsOf, optionsOf, memberOr_obj, memberOr_obj, bind_of_ok rfl, bind_of_ok rfl]
  generalize Json.lookup? "globalOptions" members = x,
    Json.lookup? "globalOptions" more = y at hoptions ⊢
  cases hoptions with
  | none => rfl
  | some hab =>
    cases hab with
    | same value => rfl
    | object h =>
      -- an object without members stands for itself, too
      have hwhole (members : List (String × Json)) :
          ((some (Json.obj members)).filter Json.isTruthy).getD (.obj []) = .obj members := by
        cases members <;> rfl
      rw [hwhole, hwhole, RenderOptions.decode, RenderOptions.decodeOver_of_extends {} (.object h)]

/-- **A document and an extended one are read as the same timeline**, or refused for the same
cause. -/
theorem ofDocument_result_of_extends (h : DocumentExtends inserted document extended) :
    (ofDocument extended).result = (ofDocument document).result := by
  rw [ofDocument_result, ofDocument_result]
  refine (Agree.eq ((layersOf_of_extends h).bind fun documents more hmore ↦ ?_)).symm
  rw [decodeLayers_result_of_extends hmore, optionsOf_of_extends h]
  exact .refl (fun _ ↦ rfl) _

/-- The arguments of the command that renders the timeline of a document. -/
def argumentsOf (document path : Json) (context : Context) (profile : Option EncoderProfile) :
    Except Error (List Json) :=
  (ofDocument document).result >>= fun timeline ↦ Command.arguments timeline path context profile

/-- **Documents of timelines are forward compatible.**  If a document is accepted, then so is every
one that extends it by layers of unknown kinds, put in anywhere among its layers, and by unknown
members in any of the objects that are read member by member.  It gives the same timeline, and so
the same command for every output, context and encoder; and every layer that was put in adds exactly
one warning. -/
theorem ofDocument_of_extends (h : DocumentExtends inserted document extended)
    (accepted : (ofDocument document).result = .ok timeline) :
    (ofDocument extended).result = .ok timeline ∧
    (∀ path context profile,
      argumentsOf extended path context profile = argumentsOf document path context profile) ∧
    (ofDocument extended).warnings =
      (ofDocument document).warnings ++ List.replicate inserted.length .layerKind := by
  have hresult := ofDocument_result_of_extends h
  rw [accepted] at hresult
  refine ⟨hresult, fun path context profile ↦ ?_, ?_⟩
  · rw [argumentsOf, argumentsOf, hresult, accepted]
  · obtain ⟨documents, hdocuments, hwarnings⟩ := ofDocument_warnings accepted
    obtain ⟨more, hmore, hwarnings'⟩ := ofDocument_warnings hresult
    have hlayers := layersOf_of_extends h
    rw [hdocuments, hmore] at hlayers
    cases hlayers with
    | ok hextends =>
      rw [hwarnings', hwarnings, hextends.countP, List.replicate_append_replicate, Nat.add_comm]

end

/-! ## A document of a later version -/

/-- A picture that fades in. -/
def fadingPicture : Json := .obj [
  ("layers", .arr [.obj [
    ("kind", .str "image"), ("source", .str "a.png"), ("start_time", .whole 1),
    ("position", .obj [("x", .str "50%")]), ("transition", .obj [("type", .str "fade_in")])]]),
  ("globalOptions", .obj [("fps", .whole 24), ("trim", .obj [("end", .whole 4)])])]

/-- A layer of a kind that does not exist yet. -/
def hologram (source : String) : Json := .obj [("kind", .str "hologram"), ("source", .str source)]

/-- The picture between two layers of a later version, and with more said about all of it. -/
def laterPicture : Json := .obj [
  ("version", .whole 2),
  ("layers", .arr [hologram "b", .obj [
    ("kind", .str "image"), ("depth", .whole 3), ("source", .str "a.png"), ("start_time", .whole 1),
    ("position", .obj [("x", .str "50%"), ("z", .whole 9)]),
    ("transition", .obj [("easing", .null), ("type", .str "fade_in")]), ("volume", .str "loud")],
    hologram "c"]),
  ("globalOptions", .obj [
    ("fps", .whole 24), ("trim", .obj [("end", .whole 4), ("snap", .bool true)]), ("hdr", .null)])]

theorem laterPicture_extends :
    DocumentExtends [hologram "b", hologram "c"] fadingPicture laterPicture := by
  have hposition : Extends Position.known (.obj [("x", .str "50%")])
      (.obj [("x", .str "50%"), ("z", .whole 9)]) :=
    .object (.insert (by decide) _ [_] [])
  have htransition : Extends Animation.known (.obj [("type", .str "fade_in")])
      (.obj [("easing", .null), ("type", .str "fade_in")]) :=
    .object (.insert (by decide) _ [] _)
  have htrim : Extends TrimRange.known (.obj [("end", .whole 4)])
      (.obj [("end", .whole 4), ("snap", .bool true)]) :=
    .object (.insert (by decide) _ [_] [])
  refine .mk (.list (.inserted rfl (.kept (.object ?_) (.inserted rfl .nil)))) (.some (.object ?_))
  · exact .kept <| .added (by decide) <| .kept <| .kept <|
      .grown (.of_part (by decide) rfl hposition) <|
      .grown (.of_part (by decide) rfl htransition) <| .added (by decide) .nil
  · exact .kept <| .grown (.of_part (by decide) rfl htrim) <| .added (by decide) .nil

attribute [local instance] Rounding.binary64

/-- A document of a later version is read as the picture that it holds, with two warnings. -/
theorem laterPicture_accepted : ∃ timeline, (ofDocument fadingPicture).result = .ok timeline ∧
    (ofDocument laterPicture).result = .ok timeline ∧
    (∀ path context profile, argumentsOf laterPicture path context profile =
      argumentsOf fadingPicture path context profile) ∧
    (ofDocument laterPicture).warnings = [.layerKind, .layerKind] := by
  have hok : (ofDocument fadingPicture).result.toOption.isSome = true := by decide +kernel
  obtain ⟨timeline, htimeline⟩ := Option.isSome_iff_exists.mp hok
  have accepted := toOption_eq_some.mp htimeline
  obtain ⟨hresult, harguments, hwarnings⟩ := ofDocument_of_extends laterPicture_extends accepted
  have hsilent : (ofDocument fadingPicture).warnings = [] := by decide +kernel
  rw [hsilent] at hwarnings
  exact ⟨timeline, accepted, hresult, harguments, hwarnings⟩

end Timeline
end Montage
