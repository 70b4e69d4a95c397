import Montage.Proofs.Json.Lines
import Montage.Proofs.Layer.RoundTrip
import Montage.Proofs.Subtitle.Order
import Montage.Subtitle.Format

/-!
# Subtitles read back from JSON

A subtitle is read back from its document with all its fields (`Subtitle.decode_encode`), and a list
of subtitles from the text of its document (`Subtitle.ofText_toText`): in the order of their starts,
with indices from one.  A coordinate of a position that nobody gave is read back as the quantity
zero (`Position.settled`).
-/

set_option autoImplicit false

namespace Montage

/-! ## Lists of documents -/

/-- Items that are written one by one are read one by one. -/
theorem Decoder.list_map {α β : Type} {inner : Decoder β} {encode : α → Json} {f : α → β}
    {values : List α} (h : ∀ a ∈ values, inner (encode a) = .ok (f a)) :
    Decoder.list inner (.arr (values.map encode)) = .ok (values.map f) := by
  have hitems : ∀ place, Decoder.items inner place (values.map encode) = .ok (values.map f) := by
    induction values with
    | nil => exact fun place ↦ rfl
    | cons a values ih =>
      rw [List.forall_mem_cons] at h
      intro place
      rw [List.map_cons, Decoder.items, h.1, ih h.2 (place + 1)]
      rfl
  exact hitems 0

namespace Subtitle

/-! ## Members -/

section Members

variable {α : Type} {key : String}

theorem forall_mem_always {value : Json} {P : String × Json → Prop} :
    (∀ member ∈ always key value, P member) ↔ P (key, value) := List.forall_mem_singleton

theorem forall_mem_ifSome {value : Option α} {encode : α → Json} {P : String × Json → Prop} :
    (∀ member ∈ ifSome key value encode, P member) ↔ ∀ a ∈ value, P (key, encode a) := by
  cases value with
  | none => simp [ifSome]
  | some a => simp [ifSome]

theorem keys_ifSome (value : Option α) (encode : α → Json) :
    ((ifSome key value encode).map Prod.fst).Sublist [key] := by
  cases value with
  | none => exact List.nil_sublist _
  | some a => exact List.Sublist.refl _

end Members

/-! ## Documents of subtitles -/

/-- A subtitle that starts at some time and whose document says all of it: its quantities stand on
the binary grid, its index is short enough for a reader, and its metadata hold no number that is
infinite or undefined. -/
structure IsStorable (entry : Subtitle) : Prop where
  index : entry.index.natAbs < 10 ^ digitLimit
  defined : entry.start ≠ .undefined
  start : entry.start.IsOnGrid
  stop : entry.stop.IsOnGrid
  style : ∀ style ∈ entry.style, style.IsValid ∧ style.encode.IsReadable
  position : ∀ position ∈ entry.position, position.IsValid ∧ position.encode.IsReadable
  animation : ∀ animation ∈ entry.animation, animation.IsValid ∧ animation.encode.IsReadable
  confidence : ∀ x ∈ entry.confidence, x.IsOnGrid
  metadata : (Json.obj entry.metadata).IsReadable
  finite : (Json.obj entry.metadata).finiteOnly = .obj entry.metadata

/-- The subtitle with its position settled. -/
def settled (entry : Subtitle) : Subtitle :=
  { entry with position := entry.position.map Position.settled }

theorem isRecord_encode (entry : Subtitle) : entry.encode.IsRecord := by
  refine .of_camel ?_
  repeat' apply areCamel_append
  all_goals first
    | exact areCamel_always _ (by decide)
    | exact areCamel_ifSome _ _ (by decide)

/-- **A subtitle is read back from its document.** -/
theorem decode_encode [Rounding] (hzero : Rounding.round 0 = .finite 0) {entry : Subtitle}
    (storable : entry.IsStorable) : decode entry.encode = .ok entry.settled := by
  have hrecord := entry.isRecord_encode
  have hstyle : Decoder.readIf "style" Style.decode (entry.style.map Style.encode) =
      .ok entry.style := Layer.readIf_style fun style h ↦ (storable.style style h).1
  have hanimation : Decoder.readIf "animation" Animation.decode
      (entry.animation.map Animation.encode) = .ok entry.animation :=
    Layer.readIf_animation fun animation h ↦ (storable.animation animation h).1
  have hposition : Decoder.readIf "position" Position.decode (entry.position.map Position.encode) =
      .ok (entry.position.map Position.settled) :=
    Decoder.readIf_map fun position h ↦
      ⟨by rintro ⟨⟩, Position.decode_encode hzero (storable.position position h).1⟩
  have hmetadata : decodeMetadata (Json.obj entry.metadata).finiteOnly = .ok entry.metadata := by
    rw [storable.finite]
    rfl
  have hquantity : ∀ x, Decoder.quantity (.quantity x) = .ok x := fun _ ↦ rfl
  simp only [decode, hrecord.object, hrecord.written?, Decoder.optField_eq, Decoder.field,
    Decoder.needed]
  simp [encode, Json.get?, hstyle, hanimation, hposition, hmetadata, hquantity, settled]

theorem encode_isReadable {entry : Subtitle} (storable : entry.IsStorable) :
    entry.encode.IsReadable := by
  refine .obj ?_ ?_
  · have hkeys : (["id"] ++ ["index"] ++ ["text"] ++ ["startTime"] ++ ["endTime"] ++ ["style"]
        ++ ["position"] ++ ["animation"] ++ ["confidence"] ++ ["metadata"]).Nodup := by decide
    simp only [List.map_append]
    refine hkeys.sublist (.append ?_ (.refl _))
    refine .append (.append (.append (.append (.refl _) ?_) ?_) ?_) ?_ <;> exact keys_ifSome _ _
  · simp only [List.forall_mem_append, forall_mem_always, forall_mem_ifSome]
    refine ⟨⟨⟨⟨⟨⟨⟨⟨⟨.str _, .whole storable.index⟩, .str _⟩, .quantity storable.start⟩,
      .quantity storable.stop⟩, fun style h ↦ (storable.style style h).2⟩,
      fun position h ↦ (storable.position position h).2⟩,
      fun animation h ↦ (storable.animation animation h).2⟩,
      fun x h ↦ .quantity (storable.confidence x h)⟩, ?_⟩
    rw [storable.finite]
    exact storable.metadata

/-! ## Texts -/

/-- The indentation that is a number of blanks. -/
def blanks (width : Int) : String := String.ofList (List.replicate width.toNat ' ')

theorem isPlain_captions (width : Option Int) : (Json.Format.captions (width.map blanks)).IsPlain where
  names := rfl
  indent indent hindent c hc := by
    obtain ⟨n, -, rfl⟩ := Option.map_eq_some_iff.mp hindent
    rw [blanks, String.toList_ofList] at hc
    rw [List.eq_of_mem_replicate hc]
    rfl

theorem readJson_text (width : Option Int) {document : Json} (h : document.IsReadable) :
    readJson (document.text (.captions (width.map blanks))) = .ok document := by
  have hbreak : ∀ indent ∈ width.map blanks, '\r' ∉ indent.toList := by
    intro indent hindent hmem
    obtain ⟨n, -, rfl⟩ := Option.map_eq_some_iff.mp hindent
    rw [blanks, String.toList_ofList] at hmem
    exact absurd (List.eq_of_mem_replicate hmem) (by decide)
  have hlines : '\r' ∉ (Json.textAt (.captions (width.map blanks)) 0 document).toList :=
    h.lineFeeds hbreak 0
  obtain ⟨c, s, hopens, hc⟩ := (h.isTaken (isPlain_captions width)).exists_cons 0
  have hnormal : normalizeText (document.text (.captions (width.map blanks))).toList
      = (document.text (.captions (width.map blanks))).toList := by
    rw [Json.text, normalizeText, dropWhile_of_head, unifyLineEnds_of_not_mem hlines]
    rw [hopens]
    rintro d ⟨⟩
    exact beq_eq_false_iff_ne.mpr hc.2.2.2
  rw [readJson, hnormal, Json.read_text (isPlain_captions width) h]

theorem document_isReadable {entries : List Subtitle} (storable : ∀ entry ∈ entries, entry.IsStorable) :
    (document entries).IsReadable := by
  refine .obj (by simp) (List.forall_mem_singleton.mpr (.arr (List.forall_mem_map.mpr fun entry h ↦ ?_)))
  exact encode_isReadable (storable entry ((sorted_perm _).mem_iff.mp h))

/-- **Subtitles are read back from the text of their document**, in the order of their starts and
numbered from one, whatever the indentation. -/
theorem ofText_toText (width : Option Int) {entries : List Subtitle}
    (storable : ∀ entry ∈ entries, entry.IsStorable) :
    @ofText .binary64 none (toText (width.map blanks) entries) =
      .ok ((entries.mergeSort fun a b ↦ !b.start.lt a.start).mapIdx fun place entry ↦
        { entry.settled with index := place + 1 }) := by
  let _ : Rounding := .binary64
  have defined : ∀ entry ∈ entries, entry.start ≠ .undefined := fun entry h ↦ (storable entry h).defined
  have hlist : listOf (document entries) = .arr ((sorted entries).map encode) := rfl
  have hdecode : ofList (.arr ((sorted entries).map encode)) = .ok ((sorted entries).map settled) := by
    have hentry : ∀ entry ∈ sorted entries, decode (encode entry) = .ok entry.settled := fun entry h ↦
      decode_encode binary64_keepsSigns.zero (storable entry ((sorted_perm _).mem_iff.mp h))
    rw [ofList, Decoder.list_map hentry]
  have hrising : IsRising ((sorted entries).map settled) := by
    rw [isRising_iff, List.map_map]
    exact isRising_iff.mp (sorted_isRising defined)
  refine bind_eq_ok.mpr ⟨_, readJson_text width (document_isReadable storable), ?_⟩
  rw [hlist, hdecode]
  show Except.ok (inOrder ((sorted entries).map settled)) = _
  rw [inOrder, sorted_of_isRising hrising, sorted_of_defined defined, numbered]
  refine congrArg Except.ok (List.ext_getElem (by simp) fun place hleft hright ↦ ?_)
  simp

/-- A late line at a place of its own and with notes about it, and a line that starts before it. -/
def notedLines : List Subtitle := [
  { id := "late\r\n", index := 7, text := "\u2028 \"So\"", start := .infinite false, stop := .undefined
    position := some { x := .text "10%", dx := .real .negativeZero }
    confidence := some (.finite (3 / 4))
    metadata := [("speaker", .obj [("name", .null),
      ("tags", .arr [.garbled [0xDC00, 0xD800], .num (.whole (-3)), .bool true])])] },
  { text := "", start := .negativeZero, stop := .finite (-1 / 2) }]

theorem notedLines_read :
    (∀ entry ∈ notedLines, entry.IsStorable) ∧
      @ofText .binary64 none (toText ((some 2).map blanks) notedLines) = .ok [
        { index := 1, text := "", start := .negativeZero, stop := .finite (-1 / 2) },
        { id := "late\r\n", index := 2, text := "\u2028 \"So\"", start := .infinite false
          stop := .undefined
          position := some { x := .text "10%", y := .num (.real (.finite 0))
                             dx := .real .negativeZero, dy := .real (.finite 0) }
          confidence := some (.finite (3 / 4))
          metadata := [("speaker", .obj [("name", .null),
            ("tags", .arr [.garbled [0xDC00, 0xD800], .num (.whole (-3)), .bool true])])] }] := by
  have hholds : ∀ entry ∈ notedLines, entry.IsStorable := by
    rw [notedLines, List.forall_mem_cons, List.forall_mem_singleton]
    have hnotes : (Json.arr [.garbled [0xDC00, 0xD800], .num (.whole (-3)), .bool true]).IsReadable := by
      refine .arr ?_
      simp only [List.forall_mem_cons, List.not_mem_nil, false_imp_iff, implies_true, and_true]
      exact ⟨.garbled ⟨by decide, by decide⟩ (by decide), .whole (by decide +kernel), .bool true⟩
    have hplace : Position.IsValid { x := .text "10%", dx := .real .negativeZero } :=
      ⟨rfl, .inl rfl, .inr ⟨_, rfl⟩, .inl rfl⟩
    constructor
    · refine ⟨by decide +kernel, by decide, by decide, by decide, by simp, ?_, by simp,
        by decide +kernel, ?_, ?_⟩
      · rintro position ⟨⟩
        refine ⟨hplace, .obj (by decide) ?_⟩
        simp only [List.forall_mem_append, forall_mem_always, forall_mem_ifSome]
        exact ⟨⟨⟨⟨.str _, .whole (by decide +kernel)⟩, by simp⟩, .quantity (by decide)⟩,
          .quantity (by decide +kernel)⟩
      · refine .obj (by decide) (List.forall_mem_singleton.mpr (.obj (by decide) ?_))
        simp only [List.forall_mem_cons, List.not_mem_nil, false_imp_iff, implies_true, and_true]
        exact ⟨.null, hnotes⟩
      · simp [Json.finiteOnly, Json.finiteMembers, Json.finiteItems]
    · exact ⟨by decide +kernel, by decide, by decide, by decide +kernel, by simp, by simp, by simp,
        by simp, .obj (by decide) (by simp), rfl⟩
  have hread := ofText_toText (some 2) hholds
  have hsort : (notedLines.mergeSort fun a b ↦ !b.start.lt a.start) = notedLines.reverse := by
    have hlt : Quantity.lt .negativeZero (.infinite false) = true := by decide +kernel
    simp [notedLines, List.mergeSort, hlt]
  rw [hsort] at hread
  exact ⟨hholds, hread⟩

end Subtitle
end Montage
