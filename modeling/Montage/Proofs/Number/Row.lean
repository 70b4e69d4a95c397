import Montage.Proofs.Number.Text

/-!
# Rows of digits

The sides of a ratio, the channels of a color and its alpha are written without a sign and without
an exponent: digits, of any script, with at most one point among them.  Such a text is an `IsRow`,
in which the digits in front of the point and behind it may be missing on one side.  It is read as
the quantity nearest to the number that it writes (`IsRow.read`), and a text of digits and points
that is no row is not read at all (`exists_isRow_of_read`).
-/

set_option autoImplicit false

namespace Montage

/-! ## Digits of all scripts -/

/-- What holds of the ten digits behind each zero holds of every digit. -/
theorem forall_isDecimal {p : Char → Prop}
    (h : ∀ first ∈ zeroDigits, ∀ i < 10, p (Char.ofNat (first + i))) {c : Char}
    (hc : isDecimal c = true) : p c := by
  rw [isDecimal, digitValue?, Option.isSome_map, List.find?_isSome] at hc
  obtain ⟨first, hmem, hrange⟩ := hc
  rw [Bool.and_eq_true, decide_eq_true_eq, decide_eq_true_eq] at hrange
  have := h first hmem (c.toNat - first) (by omega)
  rwa [show first + (c.toNat - first) = c.toNat by omega, Char.ofNat_toNat] at this

/-- No digit is a blank, a mark or a letter with which a name of a quantity begins. -/
theorem isDecimal_plain {c : Char} (hc : isDecimal c = true) :
    isBlank c = false ∧ c ∉ numeralMarks ∧ c.toLower ≠ 'i' ∧ c.toLower ≠ 'n' := by
  refine forall_isDecimal (p := fun c ↦ isBlank c = false ∧ c ∉ numeralMarks ∧ c.toLower ≠ 'i' ∧
    c.toLower ≠ 'n') ?_ hc
  decide +kernel

/-- The value of a digit of any script. -/
def decimalOf (c : Char) : Nat := (digitValue? c).getD 0

theorem digitValue?_of_isDecimal {c : Char} (hc : isDecimal c = true) :
    digitValue? c = some (decimalOf c) := by
  obtain ⟨d, hd⟩ := Option.isSome_iff_exists.mp hc
  rw [decimalOf, hd]
  rfl

theorem natOfDigits_eq_natOfValues (s : List Char) :
    natOfDigits s = natOfValues (s.map decimalOf) := by
  rw [natOfDigits, natOfValues, List.foldl_map]
  rfl

theorem takeDigits_decimal {s rest : List Char} (hs : ∀ c ∈ s, isDecimal c = true)
    (hrest : Numerals.free.EndsAt rest) :
    Numerals.free.takeDigits (s ++ rest) = (s.map decimalOf, rest) := by
  refine takeDigits_of_values (fun c hc ↦ ⟨digitValue?_of_isDecimal (hs c hc), ?_⟩) hrest
  rintro rfl
  exact (isDecimal_plain (hs _ hc)).2.1 (by decide)

/-! ## Rows -/

/-- Digits in front of a point and behind it, at least one in all; without a point there are none
behind it. -/
structure IsRow (s whole fraction : List Char) : Prop where
  digits : ∀ c ∈ whole ++ fraction, isDecimal c = true
  some : whole ++ fraction ≠ []
  text : s = whole ++ '.' :: fraction ∨ s = whole ∧ fraction = []

/-- The number that a row writes. -/
def rowValue (whole fraction : List Char) : Rat :=
  natOfDigits (whole ++ fraction) / 10 ^ fraction.length

/-- A digit of any script or a point. -/
def IsRowChar (c : Char) : Prop := isDecimal c = true ∨ c = '.'

theorem IsRow.chars {s whole fraction : List Char} (h : IsRow s whole fraction) :
    ∀ c ∈ s, IsRowChar c := by
  have hdigits := List.forall_mem_append.mp h.digits
  intro c hc
  obtain rfl | ⟨rfl, -⟩ := h.text
  · rcases List.mem_append.mp hc with hc | hc
    · exact .inl (hdigits.1 c hc)
    · exact (List.mem_cons.mp hc).symm.imp_left (hdigits.2 c)
  · exact .inl (hdigits.1 c hc)

theorem IsRowChar.isBlank_eq {c : Char} (h : IsRowChar c) : isBlank c = false := by
  obtain h | rfl := h
  · exact (isDecimal_plain h).1
  · decide

theorem IsRowChar.lower {c : Char} (h : IsRowChar c) : c.toLower ≠ 'i' ∧ c.toLower ≠ 'n' := by
  obtain h | rfl := h
  · exact (isDecimal_plain h).2.2
  · decide

theorem IsRowChar.ne_sign {c : Char} (h : IsRowChar c) : c ≠ '-' ∧ c ≠ '+' := by
  obtain h | rfl := h
  · have hmarks := (isDecimal_plain h).2.1
    exact ⟨by rintro rfl; exact hmarks (by decide), by rintro rfl; exact hmarks (by decide)⟩
  · decide

theorem takeSign_of_chars {s : List Char} (hs : ∀ c ∈ s, IsRowChar c) : takeSign s = (false, s) := by
  rw [takeSign.eq_def]
  split
  · exact absurd rfl (hs _ List.mem_cons_self).ne_sign.1
  · exact absurd rfl (hs _ List.mem_cons_self).ne_sign.2
  · rfl

theorem stripBy_of_chars {s : List Char} (hs : ∀ c ∈ s, IsRowChar c) : stripBy isSpace s = s := by
  have hsolid : ∀ c ∈ s, isSpace c = false :=
    fun c hc ↦ (Bool.or_eq_false_iff.mp (hs c hc).isBlank_eq).2
  exact stripBy_of_ends (fun c hc ↦ hsolid c (List.mem_of_head? hc))
    fun c hc ↦ hsolid c (List.mem_of_getLast? hc)

/-- A text of digits and points has neither sign nor name. -/
theorem readQuantityBy_of_chars {s : List Char} (hs : ∀ c ∈ s, IsRowChar c) :
    readQuantityBy .free s = readUnsigned .free false s := by
  have hname : namedQuantity? false s = none :=
    namedQuantity?_eq_none false fun c hc ↦ (hs c (List.mem_of_head? hc)).lower
  rw [readQuantityBy, takeSign_of_chars hs]
  dsimp only
  rw [hname]

theorem readQuantity_of_chars {s : List Char} (hs : ∀ c ∈ s, IsRowChar c) {x : Quantity} :
    readQuantity s = .ok x ↔ readQuantityBy .free s = some x := by
  rw [readQuantity, stripBy_of_chars hs]
  cases readQuantityBy .free s <;> simp

/-! ## Reading -/

theorem endsAt_point (s : List Char) : Numerals.free.EndsAt ('.' :: s) :=
  isStandard_free.endsAt_cons (by decide) (by decide) s

theorem quantityOfDecimal_row (whole fraction : List Char) :
    quantityOfDecimal false (natOfDigits (whole ++ fraction)) (-fraction.length) =
      binary64 (rowValue whole fraction) := by
  rw [quantityOfDecimal_eq, rowValue, zpow_neg, zpow_natCast, ← div_eq_mul_inv]
  rfl

/-- **A row is read as the quantity nearest to the number that it writes.** -/
theorem IsRow.read {s whole fraction : List Char} (h : IsRow s whole fraction) :
    readQuantityBy .free s = .some (binary64 (rowValue whole fraction)) := by
  obtain ⟨hwhole, hfraction⟩ := List.forall_mem_append.mp h.digits
  have hsome : whole.map decimalOf ≠ [] ∨ fraction.map decimalOf ≠ [] := by
    simpa [-not_and, not_and_or] using h.some
  rw [readQuantityBy_of_chars h.chars, ← quantityOfDecimal_row, natOfDigits_eq_natOfValues,
    List.map_append]
  obtain rfl | ⟨rfl, rfl⟩ := h.text
  · have htake := takeDigits_decimal hfraction Numerals.endsAt_nil
    rw [List.append_nil] at htake
    have hread := readUnsigned_of_parts _ false (takeDigits_decimal hwhole (endsAt_point fraction))
      htake hsome rfl
    rwa [List.length_map, zero_sub] at hread
  · have htake := takeDigits_decimal hwhole Numerals.endsAt_nil
    rw [List.append_nil] at htake
    exact readUnsigned_of_parts [] false htake rfl hsome rfl

theorem IsRow.readQuantity_eq {s whole fraction : List Char} (h : IsRow s whole fraction) :
    readQuantity s = .ok (binary64 (rowValue whole fraction)) :=
  (readQuantity_of_chars h.chars).mpr h.read

/-- Digits alone are read as a whole number, unless they are too many. -/
theorem readWhole_decimal {s : List Char} (hne : s ≠ []) (hs : ∀ c ∈ s, isDecimal c = true) :
    readWhole s = if digitLimit < s.length then .error .badValue else .ok (natOfDigits s : Int) := by
  have hchars : ∀ c ∈ s, IsRowChar c := fun c hc ↦ .inl (hs c hc)
  have htake := takeDigits_decimal hs Numerals.endsAt_nil
  rw [List.append_nil] at htake
  obtain ⟨d, ds, hds⟩ := List.exists_cons_of_ne_nil fun h ↦ hne (List.map_eq_nil_iff.mp h)
  rw [readWhole, stripBy_of_chars hchars, takeSign_of_chars hchars]
  dsimp only
  rw [htake, natOfDigits_eq_natOfValues, ← List.length_map decimalOf, hds]
  rfl

theorem rowValue_nonneg (whole fraction : List Char) : 0 ≤ rowValue whole fraction := by
  rw [rowValue]
  positivity

/-- A text of digits and points is cut at its first point. -/
theorem exists_cut {s : List Char} (hs : ∀ c ∈ s, IsRowChar c) :
    ∃ digits rest, s = digits ++ rest ∧ (∀ c ∈ digits, isDecimal c = true) ∧
      (rest = [] ∨ ∃ more, rest = '.' :: more ∧ ∀ c ∈ more, IsRowChar c) := by
  refine ⟨s.takeWhile isDecimal, s.dropWhile isDecimal, List.takeWhile_append_dropWhile.symm,
    fun c hc ↦ List.mem_takeWhile_imp hc, ?_⟩
  have hrest : ∀ c ∈ s.dropWhile isDecimal, IsRowChar c :=
    fun c hc ↦ hs c ((List.dropWhile_sublist isDecimal).subset hc)
  cases hdrop : s.dropWhile isDecimal with
  | nil => exact .inl rfl
  | cons c more =>
    rw [hdrop, List.forall_mem_cons] at hrest
    have hstop : isDecimal c = false := by
      have := List.head?_dropWhile_not isDecimal s
      rw [hdrop] at this
      exact this
    obtain rfl : c = '.' := hrest.1.resolve_left (by rw [hstop]; exact Bool.false_ne_true)
    exact .inr ⟨more, rfl, hrest.2⟩

/-- **A text of digits and points that is read is a row.** -/
theorem exists_isRow_of_read {s : List Char} (hs : ∀ c ∈ s, IsRowChar c) {x : Quantity}
    (h : readQuantityBy .free s = some x) : ∃ whole fraction, IsRow s whole fraction := by
  rw [readQuantityBy_of_chars hs, readUnsigned_eq] at h
  obtain ⟨whole, rest, rfl, hwhole, hrest⟩ := exists_cut hs
  obtain rfl | ⟨more, rfl, hmore⟩ := hrest
  · refine ⟨whole, [], by rwa [List.append_nil], ?_, .inr ⟨List.append_nil whole, rfl⟩⟩
    rintro hnil
    rw [hnil] at h
    cases h
  · have hpoint : Numerals.free.takeFraction ('.' :: more) = Numerals.free.takeDigits more := rfl
    rw [takeDigits_decimal hwhole (endsAt_point more)] at h
    dsimp only at h
    rw [hpoint] at h
    obtain ⟨fraction, left, rfl, hfraction, hleft⟩ := exists_cut hmore
    obtain rfl | ⟨again, rfl, -⟩ := hleft
    · rw [List.append_nil]
      refine ⟨whole, fraction, List.forall_mem_append.mpr ⟨hwhole, hfraction⟩, ?_, .inl rfl⟩
      intro hnil
      obtain ⟨rfl, rfl⟩ := List.append_eq_nil_iff.mp hnil
      cases h
    · -- a second point is no exponent
      rw [takeDigits_decimal hfraction (endsAt_point again)] at h
      dsimp only at h
      split at h
      · cases h
      · cases h

end Montage
