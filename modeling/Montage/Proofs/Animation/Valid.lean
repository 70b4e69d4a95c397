import Montage.Animation.Basic
import Montage.Proofs.Document.Field

/-!
# Valid animations

An animation is valid if it lasts for some time and its delay is not below zero.  What is read from
a document is valid, and a valid animation is what its document is read as.
-/

set_option autoImplicit false

namespace Montage

theorem Motion.ofName?_name (motion : Motion) : Motion.ofName? motion.name = some motion := by
  cases motion <;> decide

theorem Direction.ofName?_name (direction : Direction) :
    Direction.ofName? direction.name = some direction := by
  cases direction <;> decide

namespace Animation

/-- The times are in their ranges. -/
structure IsValid (animation : Animation) : Prop where
  duration : Quantity.lt (.finite 0) animation.duration = true
  delay : Quantity.le (.finite 0) animation.delay = true

variable [Rounding]

theorem decode_isValid (document : Json) : (decode document).All IsValid := by
  refine Decoder.all_object ?_
  simp only [Checked.all_seq, Checked.all_map]
  intro _ _ duration hduration delay hdelay _ _ _ _ _ _
  exact ⟨Decoder.all_suchField (by decide +kernel) _ hduration,
    Decoder.all_suchField (by decide) _ hdelay⟩

omit [Rounding] in
theorem isRecord_encode (animation : Animation) : animation.encode.IsRecord := by
  refine .of_camel ?_
  repeat' apply areCamel_append
  · exact areCamel_always _ (by decide)
  · exact areCamel_always _ (by decide)
  · exact areCamel_always _ (by decide)
  all_goals exact areCamel_ifSome _ _ (by decide)

/-- **A valid animation is what its document is read as.** -/
theorem decode_encode {animation : Animation} (valid : animation.IsValid) :
    decode animation.encode = .ok animation := by
  have hrecord := animation.isRecord_encode
  have hdirection : Decoder.readIf "direction" (Decoder.name Direction.ofName?)
      (animation.direction.map fun direction ↦ .str direction.name) = .ok animation.direction :=
    Decoder.readIf_same fun direction _ ↦
      ⟨by rintro ⟨⟩, by rw [Decoder.name, direction.ofName?_name]⟩
  simp only [decode, hrecord.object, hrecord.written?, Decoder.optField_eq, Decoder.field,
    Decoder.needed]
  simp [encode, Json.get?, Decoder.name, Motion.ofName?_name, valid.duration, valid.delay,
    hdirection]

/-- An animation of which a document says the kind and the length alone. -/
theorem decode_short (motion : Motion) {duration : Quantity}
    (h : Quantity.lt (.finite 0) duration = true) :
    decode (.obj [("type", .str motion.name), ("duration", .num (.real duration))])
      = .ok { motion, duration } := by
  have hdocument : [("type", Json.str motion.name), ("duration", .num (.real duration))]
      = always "type" (.str motion.name) ++ always "duration" (.quantity duration) := rfl
  have hrecord : Json.IsRecord
      (.obj (always "type" (.str motion.name) ++ always "duration" (.quantity duration))) :=
    .of_camel (areCamel_append (areCamel_always _ (by decide)) (areCamel_always _ (by decide)))
  simp only [hdocument, decode, hrecord.object, hrecord.written?, Decoder.optField_eq, Decoder.field,
    Decoder.needed]
  simp [Json.get?, Decoder.name, Motion.ofName?_name, h]
  rfl

/-- A length that a document says is above zero, if the document can be read. -/
theorem all_decode_short (motion : Motion) (duration : Quantity) :
    (decode (.obj [("type", .str motion.name), ("duration", .num (.real duration))])).All
      fun _ ↦ Quantity.lt (.finite 0) duration = true := by
  refine Decoder.all_object ?_
  simp only [Checked.all_seq, Checked.all_map]
  intro _ _ length hlength _ _ _ _ _ _ _ _
  obtain ⟨hnone, -⟩ | ⟨value, hvalue, hread⟩ := Decoder.field_eq_ok.mp hlength
  · cases hnone
  · cases hvalue
    obtain ⟨hsame, hpositive⟩ := Checked.require_eq_ok.mp hread
    cases hsame
    exact hpositive

theorem coerce_isValid {value duration : Json} {animation : Option Animation}
    (h : coerce value duration = .ok animation) : ∀ given ∈ animation, given.IsValid := by
  unfold coerce at h
  split at h
  · cases h
    rintro _ ⟨⟩
  · split at h
    · cases h
      rintro _ ⟨⟩
    · obtain ⟨made, hmade, rfl⟩ := map_eq_ok.mp h
      rintro _ ⟨⟩
      exact decode_isValid _ made (Checked.toExcept_eq_ok.mp hmade)
  · obtain ⟨made, hmade, rfl⟩ := map_eq_ok.mp h
    rintro _ ⟨⟩
    exact decode_isValid _ made (Checked.toExcept_eq_ok.mp hmade)

end Animation
end Montage
