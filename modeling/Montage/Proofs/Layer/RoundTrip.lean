import Montage.Proofs.Layer.Valid

/-!
# Layers brought back

The document of a valid layer is read as the same layer with its position settled, as long as the
layer starts at a finite time and no parameter of a filter is infinite or undefined.  Such a
parameter is written as null, which is no parameter: a layer that has one is not brought back.
-/

set_option autoImplicit false

namespace Montage

theorem Fit.ofName?_name (fit : Fit) : Fit.ofName? fit.name = some fit := by
  cases fit <;> decide

namespace Layer

/-- The layer with its position settled. -/
def settled (layer : Layer) : Layer :=
  { layer with position := layer.position.map Position.settled }

/-- The animation of content that has one. -/
def animationOf : Content → Option Animation
  | .video v => v.transition
  | .image i => i.transition
  | .text _ transition => transition
  | .caption c => c.animation
  | .audio _ | .filter _ => none

theorem areCamel_encodeContent (content : Content) : AreCamel (encodeContent content) := by
  cases content <;> repeat' apply areCamel_append
  all_goals first
    | exact areCamel_always _ (by decide)
    | exact areCamel_ifSome _ _ (by decide)

theorem isRecord_encode (layer : Layer) : layer.encode.IsRecord := by
  refine .of_camel ?_
  refine areCamel_append (areCamel_append (areCamel_append (areCamel_append ?_ ?_) ?_) ?_) ?_
  · exact areCamel_always _ (by decide)
  · exact areCamel_ifSome _ _ (by decide)
  · exact areCamel_ifSome _ _ (by decide)
  · exact areCamel_ifSome _ _ (by decide)
  · exact areCamel_encodeContent _

/-! ## Reading content -/

variable [Rounding]

omit [Rounding] in
theorem readIf_positiveWhole {name : String} {value : Option Int} (h : ∀ n ∈ value, 0 < n) :
    Decoder.readIf name positiveWhole (value.map .whole) = .ok value :=
  Decoder.readIf_such_whole fun n hn ↦ decide_eq_true (h n hn)

omit [Rounding] in
theorem filledText_str {s : String} (h : isAllBlank s = false) : filledText (.str s) = .ok s :=
  Decoder.such_of_ok rfl (by rw [h]; rfl)

theorem readIf_animation {name : String} {value : Option Animation}
    (h : ∀ animation ∈ value, animation.IsValid) :
    Decoder.readIf name Animation.decode (value.map Animation.encode) = .ok value :=
  Decoder.readIf_same fun animation ha ↦ ⟨by rintro ⟨⟩, Animation.decode_encode (h animation ha)⟩

theorem readIf_style {name : String} {value : Option Style} (h : ∀ style ∈ value, style.IsValid) :
    Decoder.readIf name Style.decode (value.map Style.encode) = .ok value :=
  Decoder.readIf_same fun style hs ↦ ⟨by rintro ⟨⟩, Style.decode_encode (h style hs)⟩

theorem readIf_portion {name : String} {value : Option Quantity}
    (h : ∀ x ∈ value, isPortion x = true) :
    Decoder.readIf name (Decoder.quantity.such fun x ↦ Style.isPositive x && x.le (.finite 1))
      (value.map .quantity) = .ok value :=
  Decoder.readIf_such h

variable {layer : Layer} {parts : Parts}

theorem decodeSource_encode {source : Source} (valid : source.IsValid)
    (hpath : layer.encode.get? "source" = some (.str source.path))
    (hstart : layer.encode.get? "trimStart" = source.trimStart.map .quantity)
    (hstop : layer.encode.get? "trimEnd" = source.trimEnd.map .quantity) :
    decodeSource layer.encode = .ok source := by
  simp only [decodeSource, nonnegative, Decoder.optField_eq, Decoder.needed,
    layer.isRecord_encode.written?, hpath, hstart, hstop]
  simp [filledText_str valid.path, Decoder.readIf_such valid.trimStart,
    Decoder.readIf_such valid.trimEnd]

theorem decodeVideo_encode {video : Video} (hcontent : layer.content = .video video)
    (valid : video.IsValid) (hanimation : parts.animation = .ok video.transition) :
    decodeVideo layer.encode parts = .ok (.video video) := by
  have hsource : decodeSource layer.encode = .ok video.source := by
    apply decodeSource_encode valid.source <;>
      simp [encode, hcontent, encodeContent, encodeSource, Json.get?]
  simp only [decodeVideo, hsource, nonnegative, Decoder.optField_eq, Decoder.field,
    layer.isRecord_encode.written?, hanimation]
  simp [encode, hcontent, encodeContent, encodeSource, Json.get?, Decoder.name, Fit.ofName?_name,
    valid.volume, readIf_positiveWhole valid.width, readIf_positiveWhole valid.height,
    readIf_portion valid.scale, valid.borderWidth]

theorem decodeAudio_encode {audio : Audio} (hcontent : layer.content = .audio audio)
    (valid : audio.IsValid) : decodeAudio layer.encode = .ok (.audio audio) := by
  have hsource : decodeSource layer.encode = .ok audio.source := by
    apply decodeSource_encode valid.source <;>
      simp [encode, hcontent, encodeContent, encodeSource, Json.get?]
  simp only [decodeAudio, hsource, nonnegative, positive, Decoder.optField_eq, Decoder.field,
    layer.isRecord_encode.written?]
  simp [encode, hcontent, encodeContent, encodeSource, Json.get?, valid.volume,
    Decoder.readIf_such valid.fadeIn, Decoder.readIf_such valid.fadeOut,
    Decoder.readIf_such valid.tempo, Decoder.readIf_such valid.lowpass,
    Decoder.readIf_such valid.highpass, Decoder.readIf_such valid.echoDelay,
    readIf_portion valid.echoDecay]

omit [Rounding] in
theorem isRecord_encodePanZoom (zoom : PanZoom) : (encodePanZoom zoom).IsRecord := by
  refine .of_camel (areCamel_append (areCamel_append (areCamel_append ?_ ?_) ?_) ?_) <;>
    exact areCamel_always _ (by decide)

theorem decodePanZoom_encode {zoom : PanZoom} (valid : zoom.IsValid) :
    decodePanZoom (encodePanZoom zoom) = .ok zoom := by
  have hrecord := isRecord_encodePanZoom zoom
  simp only [decodePanZoom, hrecord.object, hrecord.written?, Decoder.field]
  simp [encodePanZoom, Json.get?, valid.startZoom, valid.endZoom, valid.focusX, valid.focusY]

theorem decodeImage_encode {image : Image} (hcontent : layer.content = .image image)
    (valid : image.IsValid) (hanimation : parts.animation = .ok image.transition) :
    decodeImage layer.encode parts = .ok (.image image) := by
  have hsource : decodeSource layer.encode = .ok image.source := by
    apply decodeSource_encode valid.source <;>
      simp [encode, hcontent, encodeContent, encodeSource, Json.get?]
  have hzoom : Decoder.readIf "panZoom" decodePanZoom (image.panZoom.map encodePanZoom) =
      .ok image.panZoom :=
    Decoder.readIf_same fun zoom h ↦ ⟨by rintro ⟨⟩, decodePanZoom_encode (valid.panZoom zoom h)⟩
  simp only [decodeImage, hsource, Decoder.optField_eq, layer.isRecord_encode.written?, hanimation]
  simp [encode, hcontent, encodeContent, encodeSource, Json.get?,
    readIf_positiveWhole valid.width, readIf_positiveWhole valid.height, hzoom]

omit [Rounding] in
theorem decodeText_encode {text : String} {transition : Option Animation}
    (hcontent : layer.content = .text text transition)
    (hanimation : parts.animation = .ok transition) :
    decodeText layer.encode parts = .ok (.text text transition) := by
  simp only [decodeText, Decoder.field, layer.isRecord_encode.written?, hanimation]
  simp [encode, hcontent, encodeContent, Json.get?]

theorem decodeCaption_encode {caption : Caption} (hcontent : layer.content = .caption caption)
    (valid : caption.IsValid) (hanimation : parts.animation = .ok caption.animation) :
    decodeCaption layer.encode parts = .ok (.caption caption) := by
  simp only [decodeCaption, Decoder.optField_eq, Decoder.field, layer.isRecord_encode.written?,
    hanimation]
  simp [encode, hcontent, encodeContent, Json.get?, readIf_style valid.trackStyle]

/-! ## Parameters of filters -/

omit [Rounding] in
/-- The value of a parameter can stand in a document: it is no number that is infinite or
undefined. -/
def isStorable : ParamValue → Bool
  | .num (.real x) => x.isFinite
  | _ => true

omit [Rounding] in
/-- The parameters of a filter can stand in a document; other content always can. -/
def areStorable : Content → Bool
  | .filter effect => effect.params.all fun param ↦ isStorable param.2
  | _ => true

omit [Rounding] in
theorem decodeParam_encode {value : ParamValue} (h : isStorable value = true) :
    decodeParam (encodeParam value) = .ok value := by
  cases value with
  | flag b => rfl
  | text s => rfl
  | num n =>
    cases n with
    | whole n => rfl
    | real x =>
      have hfinite : x.isFinite = true := h
      rw [encodeParam, paramJson, Json.finiteOnly, if_pos hfinite]
      rfl

omit [Rounding] in
/-- A number that is not finite is written as null, and null is no parameter. -/
theorem decodeParam_encode_of_not {value : ParamValue} (h : isStorable value = false) :
    decodeParam (encodeParam value) = .reject := by
  cases value with
  | flag b => cases h
  | text s => cases h
  | num n =>
    cases n with
    | whole n => cases h
    | real x =>
      have hfinite : x.isFinite = false := h
      rw [encodeParam, paramJson, Json.finiteOnly, hfinite]
      rfl

omit [Rounding] in
theorem decodeParams_encode {params : List (String × ParamValue)}
    (h : params.all (fun param ↦ isStorable param.2) = true) :
    decodeParams (.obj (params.map fun (key, value) ↦ (key, encodeParam value))) = .ok params := by
  induction params with
  | nil => rfl
  | cons param params ih =>
    rw [List.all_cons, Bool.and_eq_true] at h
    have hrest := ih h.2
    simp only [decodeParams, List.map_cons, List.foldr_cons] at hrest ⊢
    rw [hrest, decodeParam_encode h.1]
    rfl

omit [Rounding] in
/-- One parameter that cannot stand in a document spoils them all. -/
theorem decodeParams_encode_of_not {params : List (String × ParamValue)}
    (h : params.all (fun param ↦ isStorable param.2) = false) :
    (decodeParams (.obj (params.map fun (key, value) ↦ (key, encodeParam value)))).All
      fun _ ↦ False := by
  induction params with
  | nil => cases h
  | cons param params ih =>
    simp only [decodeParams, List.map_cons, List.foldr_cons] at ih ⊢
    rw [Checked.all_seq, Checked.all_map]
    rw [List.all_cons, Bool.and_eq_false_iff] at h
    rcases h with h | h
    · rw [decodeParam_encode_of_not h]
      rintro _ ⟨⟩
    · intro _ _
      exact ih h

omit [Rounding] in
theorem decodeEffect_encode {effect : Effect} (hcontent : layer.content = .filter effect)
    (valid : isAllBlank effect.name = false) (hstorable : areStorable (.filter effect) = true) :
    decodeEffect layer.encode = .ok (.filter effect) := by
  simp only [decodeEffect, Decoder.field, Decoder.needed, layer.isRecord_encode.written?]
  simp [encode, hcontent, encodeContent, Json.get?, filledText_str valid,
    decodeParams_encode hstorable]

omit [Rounding] in
theorem decodeEffect_encode_of_not {effect : Effect} (hcontent : layer.content = .filter effect)
    (hstorable : areStorable (.filter effect) = false) :
    (decodeEffect layer.encode).All fun _ ↦ False := by
  have hwritten : Decoder.written? "params" layer.encode =
      some (.obj (effect.params.map fun (key, value) ↦ (key, encodeParam value))) := by
    rw [layer.isRecord_encode.written?]
    simp [encode, hcontent, encodeContent, Json.get?]
  rw [decodeEffect, Checked.all_map, Checked.all_seq]
  intro _ _ params hparams
  obtain ⟨hnone, -⟩ | ⟨_, hvalue, hread⟩ := Decoder.field_eq_ok.mp hparams
  · rw [hwritten] at hnone
    cases hnone
  · rw [hwritten] at hvalue
    cases hvalue
    exact decodeParams_encode_of_not hstorable _ hread

/-! ## Reading layers -/

omit [Rounding] in
theorem kindOf?_encode (layer : Layer) :
    kindOf? layer.encode = Kind.ofName? layer.content.kind := by
  have hkind : layer.encode.get? "kind" = some (.str layer.content.kind) := by
    cases hcontent : layer.content <;>
      simp [encode, hcontent, encodeContent, encodeSource, Json.get?, Content.kind]
  rw [kindOf?, hkind]

omit [Rounding] in
/-- No field of the content is called like one that every layer has. -/
theorem lookup?_encodeContent (content : Content) {name : String}
    (h : name ∈ ["startTime", "duration", "position", "style"]) :
    Json.lookup? name (encodeContent content) = none := by
  simp only [List.mem_cons, List.not_mem_nil, or_false] at h
  rcases h with rfl | rfl | rfl | rfl <;> cases content <;> simp [encodeContent, encodeSource]

theorem written_animation (valid : layer.IsValid) {kind : Kind}
    (hkind : Kind.ofName? layer.content.kind = some kind) :
    (Parts.written layer.encode kind.animationField).animation =
      .ok (animationOf layer.content) := by
  have hcontent := valid.content
  show Decoder.optField kind.animationField Animation.decode layer.encode = _
  rw [Decoder.optField_eq, layer.isRecord_encode.written?]
  cases hlayer : layer.content <;> rw [hlayer] at hkind hcontent <;> cases hkind <;>
    simp [encode, hlayer, encodeContent, encodeSource, Json.get?, Kind.animationField, animationOf]
  case video => exact readIf_animation hcontent.transition
  case image => exact readIf_animation hcontent.transition
  case text => exact readIf_animation hcontent
  case caption => exact readIf_animation hcontent.animation
  case audio => rfl
  case filter => rfl

theorem decodeContent_encode (valid : layer.IsValid)
    (hstorable : areStorable layer.content = true) {kind : Kind}
    (hkind : Kind.ofName? layer.content.kind = some kind)
    (hanimation : parts.animation = .ok (animationOf layer.content)) :
    decodeContent kind layer.encode parts = .ok layer.content := by
  have hcontent := valid.content
  cases hlayer : layer.content <;> rw [hlayer] at hkind hcontent hanimation hstorable <;>
    cases hkind
  case video => exact decodeVideo_encode hlayer hcontent hanimation
  case audio => exact decodeAudio_encode hlayer hcontent
  case image => exact decodeImage_encode hlayer hcontent hanimation
  case text => exact decodeText_encode hlayer hanimation
  case caption => exact decodeCaption_encode hlayer hcontent hanimation
  case filter => exact decodeEffect_encode hlayer hcontent hstorable

/-- **A layer that can stand in a document is settled by its document.** -/
theorem decode_encode (hzero : Rounding.round 0 = .finite 0) (valid : layer.IsValid)
    (hfinite : layer.startTime.isFinite = true) (hstorable : areStorable layer.content = true) :
    decode layer.encode = .ok layer.settled := by
  obtain ⟨kind, hkind⟩ : ∃ kind, Kind.ofName? layer.content.kind = some kind := by
    cases layer.content <;> exact ⟨_, rfl⟩
  have hstart : Decoder.field "startTime" (.finite 0) decodeStart layer.encode =
      .ok layer.startTime := by
    rw [Decoder.field, layer.isRecord_encode.written?]
    simp [encode, Json.get?, decodeStart, hfinite]
    rw [Checked.map, clampStart_of_isStart valid.startTime]
    rfl
  have hduration : Decoder.optField "duration" decodeLength layer.encode = .ok layer.duration := by
    rw [Decoder.optField_eq, layer.isRecord_encode.written?]
    simp [encode, Json.get?, lookup?_encodeContent]
    exact Decoder.readIf_such valid.duration
  have hposition : (Parts.written layer.encode kind.animationField).position =
      .ok (layer.position.map Position.settled) := by
    show Decoder.optField "position" Position.decode layer.encode = _
    have hread : Decoder.readIf "position" Position.decode (layer.position.map Position.encode) =
        .ok (layer.position.map Position.settled) :=
      Decoder.readIf_map fun position h ↦
        ⟨by rintro ⟨⟩, Position.decode_encode hzero (valid.position position h)⟩
    rw [Decoder.optField_eq, layer.isRecord_encode.written?]
    simp [encode, Json.get?, lookup?_encodeContent, hread]
  have hstyle : (Parts.written layer.encode kind.animationField).style = .ok layer.style := by
    show Decoder.optField "style" Style.decode layer.encode = _
    rw [Decoder.optField_eq, layer.isRecord_encode.written?]
    simp [encode, Json.get?, lookup?_encodeContent, readIf_style valid.style]
  have hcontent := decodeContent_encode valid hstorable hkind (written_animation valid hkind)
  rw [decode, kindOf?_encode, hkind]
  dsimp only
  rw [decodeWith, assemble, hstart, hduration, hposition, hstyle, hcontent]
  rfl

/-- A layer with a parameter that cannot stand in a document is not brought back at all. -/
theorem decode_encode_of_not (hstorable : areStorable layer.content = false) :
    (decode layer.encode).All fun _ ↦ False := by
  cases hcontent : layer.content with
  | filter effect =>
    rw [hcontent] at hstorable
    rw [decode, kindOf?_encode, hcontent]
    show (decodeWith .filter layer.encode _).All _
    rw [decodeWith, assemble, Checked.all_seq]
    intro _ _
    exact decodeEffect_encode_of_not hcontent hstorable
  | _ =>
    rw [hcontent] at hstorable
    cases hstorable

/-! ## Settled layers -/

omit [Rounding] in
theorem settled_settled (layer : Layer) : layer.settled.settled = layer.settled := by
  obtain ⟨_, _, position, _, _⟩ := layer
  cases position with
  | none => rfl
  | some position =>
    simp only [settled, Option.map_some, Position.settled_settled]

omit [Rounding] in
theorem IsValid.settled (valid : layer.IsValid) : layer.settled.IsValid := by
  refine ⟨valid.startTime, valid.duration, ?_, valid.style, valid.content⟩
  intro position hposition
  obtain ⟨given, hgiven, rfl⟩ := Option.map_eq_some_iff.mp hposition
  exact (valid.position given hgiven).settled

/-- Layers with equal fields, the numbers of positions being compared by value. -/
structure Equal (a b : Layer) : Prop where
  startTime : a.startTime = b.startTime
  duration : a.duration = b.duration
  position : Option.Rel Position.Equal a.position b.position
  style : a.style = b.style
  content : a.content = b.content

omit [Rounding] in
theorem equal_settled (layer : Layer) : layer.Equal layer.settled := by
  refine ⟨rfl, rfl, ?_, rfl, rfl⟩
  rw [settled]
  cases layer.position with
  | none => exact .none
  | some position => exact .some position.equal_settled

end Layer
end Montage
