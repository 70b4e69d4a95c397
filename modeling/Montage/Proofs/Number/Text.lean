import Mathlib.Data.List.Basic
import Montage.Proofs.Number.Monotone
import Montage.Proofs.Number.Numeral
import Montage.Proofs.Text.Lines

/-!
# The text of numbers

A number is written with letters, digits, points and signs, and never with nothing at all.  A number
that is not below zero is written with digits and points alone unless its text has an exponent, and
a number of the grid has one only if it is small or large.

Readers of free text bring every number of the grid back from its text, and the infinite ones too.
-/

set_option autoImplicit false

namespace Montage

/-! ## Characters -/

/-- A character of a name: a Latin letter, a digit or an underscore. -/
def isNameChar (c : Char) : Bool := c.isAlphanum || c == '_'

/-- A character of a numeral. -/
def isNumeralChar (c : Char) : Bool := isNameChar c || c == '.' || c == '-' || c == '+'

theorem isNumeralChar_of_name {c : Char} (h : isNameChar c = true) : isNumeralChar c = true := by
  simp [isNumeralChar, h]

theorem isNumeralChar_of_digit {c : Char} (h : c.isDigit = true) : isNumeralChar c = true := by
  simp [isNumeralChar, isNameChar, Char.isAlphanum, h]

theorem toDigits_numeral (n : Nat) : ∀ c ∈ Nat.toDigits 10 n, isNumeralChar c = true := by
  intro c hc
  exact isNumeralChar_of_digit (isDigit_of_mem_toDigits hc)

theorem replicate_numeral (n : Nat) : ∀ c ∈ List.replicate n '0', isNumeralChar c = true := by
  intro c hc
  rw [List.eq_of_mem_replicate hc]
  rfl

theorem padZeros_numeral {digits : List Char} (width : Nat)
    (h : ∀ c ∈ digits, isNumeralChar c = true) :
    ∀ c ∈ padZeros width digits, isNumeralChar c = true := by
  rw [padZeros, List.forall_mem_append]
  exact ⟨replicate_numeral _, h⟩

theorem exponent_numeral (layout : Layout) (e : Int) :
    ∀ c ∈ layout.exponent e, isNumeralChar c = true := by
  rw [Layout.exponent, List.forall_mem_cons, List.forall_mem_cons]
  refine ⟨rfl, ?_, padZeros_numeral _ (toDigits_numeral _)⟩
  split <;> rfl

theorem layout_numeral (layout : Layout) (d : Decimal) :
    ∀ c ∈ layout.text d, isNumeralChar c = true := by
  have hdigits : ∀ c ∈ d.digits, isNumeralChar c = true := toDigits_numeral d.significand
  rw [Layout.text]
  dsimp only
  split
  · split
    · simp only [List.cons_append, List.forall_mem_cons, List.forall_mem_append]
      exact ⟨rfl, rfl, replicate_numeral _, hdigits⟩
    split
    · simp only [List.forall_mem_append, List.forall_mem_cons]
      exact ⟨⟨hdigits, replicate_numeral _⟩, rfl, rfl, by simp⟩
    · simp only [List.forall_mem_append, List.forall_mem_cons]
      exact ⟨fun c hc ↦ hdigits c (List.mem_of_mem_take hc), rfl,
        fun c hc ↦ hdigits c (List.mem_of_mem_drop hc)⟩
  · split
    · rename_i first heq
      rw [heq] at hdigits
      rw [List.forall_mem_cons]
      exact ⟨hdigits first List.mem_cons_self, exponent_numeral _ _⟩
    · rename_i first rest heq
      rw [heq, List.forall_mem_cons] at hdigits
      simp only [List.cons_append, List.forall_mem_cons, List.forall_mem_append]
      exact ⟨hdigits.1, rfl, hdigits.2, exponent_numeral _ _⟩
    · exact exponent_numeral _ _

theorem toString_int_numeral (n : Int) : ∀ c ∈ (toString n).toList, isNumeralChar c = true := by
  rw [toList_toString_int, List.forall_mem_append]
  refine ⟨?_, toDigits_numeral _⟩
  split
  · exact List.all_eq_true.mp (by decide)
  · simp

theorem display_numeral (layout : Layout) (x : Quantity) :
    ∀ c ∈ (x.display layout).toList, isNumeralChar c = true := by
  cases x with
  | finite q =>
    rw [Quantity.display]
    split
    · exact List.all_eq_true.mp (by decide : "0.0".toList.all isNumeralChar = true)
    split
    · rw [String.toList_ofList, List.forall_mem_cons]
      exact ⟨rfl, layout_numeral _ _⟩
    · rw [String.toList_ofList]
      exact layout_numeral _ _
  | negativeZero => exact List.all_eq_true.mp (by decide : "-0.0".toList.all isNumeralChar = true)
  | infinite negative =>
    cases negative with
    | false => exact List.all_eq_true.mp (by decide : "inf".toList.all isNumeralChar = true)
    | true => exact List.all_eq_true.mp (by decide : "-inf".toList.all isNumeralChar = true)
  | undefined => exact List.all_eq_true.mp (by decide : "nan".toList.all isNumeralChar = true)

/-- **A number is written with letters, digits, points and signs.** -/
theorem text_numeral (n : Number) : ∀ c ∈ n.text.toList, isNumeralChar c = true := by
  cases n with
  | whole n => exact toString_int_numeral n
  | real x =>
    rw [Number.text]
    split
    · split
      · exact toString_int_numeral _
      · exact display_numeral _ _
    · exact display_numeral _ _

theorem layout_ne_nil (layout : Layout) (d : Decimal) : layout.text d ≠ [] := by
  have hdigits : d.digits ≠ [] := Nat.toDigits_ne_nil
  rw [Layout.text]
  dsimp only
  split
  · split
    · simp
    split <;> simp
  · split <;> simp [Layout.exponent]

theorem toString_int_ne_nil (n : Int) : (toString n).toList ≠ [] := by
  rw [toList_toString_int, Ne, List.append_eq_nil_iff, not_and]
  exact fun _ ↦ Nat.toDigits_ne_nil

theorem display_ne_nil (layout : Layout) (x : Quantity) : (x.display layout).toList ≠ [] := by
  cases x with
  | finite q =>
    rw [Quantity.display]
    split
    · simp
    split <;> simp [layout_ne_nil]
  | negativeZero => simp [Quantity.display]
  | infinite negative => cases negative <;> simp [Quantity.display]
  | undefined => simp [Quantity.display]

theorem text_ne_nil (n : Number) : n.text.toList ≠ [] := by
  cases n with
  | whole n => exact toString_int_ne_nil n
  | real x =>
    rw [Number.text]
    split
    · split
      · exact toString_int_ne_nil _
      · exact display_ne_nil _ _
    · exact display_ne_nil _ _

/-! ## Blanks -/

/-- A letter is a capital or a small one, of the Latin alphabet. -/
theorem toNat_of_isAlpha {c : Char} (h : c.isAlpha = true) :
    (0x41 ≤ c.toNat ∧ c.toNat ≤ 0x5a) ∨ (0x61 ≤ c.toNat ∧ c.toNat ≤ 0x7a) := by
  rcases Bool.or_eq_true_iff.mp h with hcapital | hsmall
  · exact .inl (of_decide_eq_true hcapital)
  · obtain ⟨hlow, hhigh⟩ := Bool.and_eq_true_iff.mp hsmall
    exact .inr ⟨of_decide_eq_true hlow, of_decide_eq_true hhigh⟩

/-- No character of a numeral is blank. -/
theorem isBlank_of_numeral {c : Char} (h : isNumeralChar c = true) : isBlank c = false := by
  have hrange : (0x41 ≤ c.toNat ∧ c.toNat ≤ 0x5a) ∨ (0x61 ≤ c.toNat ∧ c.toNat ≤ 0x7a)
      ∨ (0x2b ≤ c.toNat ∧ c.toNat ≤ 0x39) ∨ c.toNat = 0x5f := by
    simp only [isNumeralChar, isNameChar, Char.isAlphanum, Bool.or_eq_true, beq_iff_eq] at h
    obtain ((((hletter | hdigit) | rfl) | rfl) | rfl) | rfl := h
    · exact (toNat_of_isAlpha hletter).imp_right .inl
    · have hlow : 0x30 ≤ c.toNat := (isDigit_iff.mp hdigit).1
      exact .inr (.inr (.inl ⟨by omega, (isDigit_iff.mp hdigit).2⟩))
    · exact .inr (.inr (.inr rfl))
    all_goals exact .inr (.inr (.inl (by decide)))
  simp only [isBlank, isSpace, Bool.or_eq_false_iff, Bool.and_eq_false_iff, decide_eq_false_iff_not,
    beq_eq_false_iff_ne]
  omega

theorem isSpace_of_numeral {c : Char} (h : isNumeralChar c = true) : isSpace c = false :=
  (Bool.or_eq_false_iff.mp (isBlank_of_numeral h)).2

section

variable {s : List Char} (h : ∀ c ∈ s, isNumeralChar c = true)
include h

theorem stripBy_numeral : stripBy isSpace s = s :=
  stripBy_of_ends (fun c hc ↦ isSpace_of_numeral (h c (List.mem_of_head? hc)))
    fun c hc ↦ isSpace_of_numeral (h c (List.mem_of_getLast? hc))

theorem trim_numeral : trim s = s :=
  stripBy_of_ends (fun c hc ↦ isBlank_of_numeral (h c (List.mem_of_head? hc)))
    fun c hc ↦ isBlank_of_numeral (h c (List.mem_of_getLast? hc))

theorem endsSolid_numeral (hne : s ≠ []) : EndsSolid s := by
  obtain ⟨c, hc⟩ := Option.isSome_iff_exists.mp (List.getLast?_isSome.mpr hne)
  exact ⟨c, hc, isBlank_of_numeral (h c (List.mem_of_getLast? hc))⟩

end

theorem isBlank_of_isDigit {c : Char} (h : c.isDigit = true) : isBlank c = false :=
  isBlank_of_numeral (isNumeralChar_of_digit h)

/-! ## Whole numbers read back -/

theorem takeSign_digit {c : Char} (hc : c.isDigit = true) (s : List Char) :
    takeSign (c :: s) = (false, c :: s) := by
  rw [takeSign.eq_def]
  split
  · rename_i heq
    rw [(List.cons.inj heq).1] at hc
    exact absurd hc (by decide)
  · rename_i heq
    rw [(List.cons.inj heq).1] at hc
    exact absurd hc (by decide)
  · rfl

/-- A numeral is read as its number, as long as it is not too long for a reader. -/
theorem readWhole_toDigits {n : Nat} (hn : n < 10 ^ digitLimit) :
    readWhole (Nat.toDigits 10 n) = .ok n := by
  have hlength : ¬ digitLimit < (Nat.toDigits 10 n).length := by
    rw [not_lt, Nat.length_toDigits_le_iff (by decide) (by decide)]
    exact hn
  obtain ⟨d, ds, hdigits, hd⟩ := toDigits_eq_cons n
  have htake := takeDigits_digits isStandard_free (fun c hc ↦ isDigit_of_mem_toDigits (n := n) hc)
  rw [readWhole, stripBy_numeral (toDigits_numeral n), hdigits, takeSign_digit hd, ← hdigits]
  dsimp only
  rw [htake]
  split
  · rename_i heq
    rw [Prod.mk.injEq, List.map_eq_nil_iff] at heq
    exact absurd heq.1 Nat.toDigits_ne_nil
  · rename_i heq
    rw [← (Prod.mk.inj heq).1, List.length_map, if_neg hlength, natOfValues_toDigits]
    rfl
  · rename_i h
    exact absurd rfl (h _)

/-! ## Quantities read back -/

/-- The names of quantities open with one of two letters. -/
theorem namedQuantity?_eq_none (negative : Bool) {s : List Char}
    (h : ∀ c ∈ s.head?, c.toLower ≠ 'i' ∧ c.toLower ≠ 'n') : namedQuantity? negative s = none := by
  have hname : ∀ (d : Char) (name : String), name.toList.head? = some d →
      (d = 'i' ∨ d = 'n') → (String.ofList (s.map Char.toLower) == name) = false := by
    intro d name hd hletter
    rw [beq_eq_false_iff_ne]
    rintro rfl
    rw [String.toList_ofList, List.head?_map, Option.map_eq_some_iff] at hd
    obtain ⟨c, hc, rfl⟩ := hd
    exact hletter.elim (h c hc).1 (h c hc).2
  rw [namedQuantity?, hname 'i' "inf" rfl (.inl rfl), hname 'i' "infinity" rfl (.inl rfl),
    hname 'n' "nan" rfl (.inr rfl)]
  rfl

/-- The names of quantities do not open with a digit. -/
theorem namedQuantity?_digit (negative : Bool) {c : Char} (hc : c.isDigit = true) (s : List Char) :
    namedQuantity? negative (c :: s) = none := by
  have hlower : c.toLower = c := by
    have hhigh : c.toNat ≤ 0x39 := (isDigit_iff.mp hc).2
    refine dif_neg ?_
    rintro ⟨hlow, -⟩
    have hlow : 0x41 ≤ c.toNat := hlow
    omega
  refine namedQuantity?_eq_none negative ?_
  rintro _ ⟨⟩
  rw [hlower]
  constructor <;> (rintro rfl; cases hc)

/-- A number is read with its sign, if digits open it behind that. -/
theorem readQuantity_of_readUnsigned {negative : Bool} {s t : List Char} {x : Quantity}
    (ht : ∀ c ∈ t, isNumeralChar c = true) (hsign : takeSign t = (negative, s))
    (hopen : ∃ d ds, s = d :: ds ∧ d.isDigit = true) (h : readUnsigned .free negative s = some x) :
    readQuantity t = .ok x := by
  obtain ⟨d, ds, rfl, hd⟩ := hopen
  rw [readQuantity, stripBy_numeral ht, readQuantityBy, hsign]
  dsimp only
  rw [namedQuantity?_digit negative hd, h]

theorem takeSign_of_opens {s : List Char} (h : ∃ d ds, s = d :: ds ∧ d.isDigit = true) :
    takeSign s = (false, s) := by
  obtain ⟨d, ds, rfl, hd⟩ := h
  exact takeSign_digit hd ds

theorem minus_numeral {s : List Char} (h : ∀ c ∈ s, isNumeralChar c = true) :
    ∀ c ∈ '-' :: s, isNumeralChar c = true := by
  rw [List.forall_mem_cons]
  exact ⟨rfl, h⟩

theorem readUnsigned_toDigits (negative : Bool) (n : Nat) :
    readUnsigned .free negative (Nat.toDigits 10 n) = some (quantityOfDecimal negative n 0) := by
  have htake := takeDigits_digits isStandard_free (fun c hc ↦ isDigit_of_mem_toDigits (n := n) hc)
  have hsome : (Nat.toDigits 10 n).map digitOf ≠ [] := by
    rw [Ne, List.map_eq_nil_iff]
    exact Nat.toDigits_ne_nil
  have hread := readUnsigned_of_parts [] negative htake rfl (.inl hsome) rfl
  rwa [List.append_nil, natOfValues_toDigits] at hread

/-- A whole number of the grid is read back from its digits. -/
theorem IsOnGrid.readQuantity_toString {n : Int} (h : IsOnGrid n) :
    readQuantity (toString n).toList = .ok (.finite n) := by
  have hpositive : ∀ m : Nat, 0 < m → IsOnGrid m → ∀ negative,
      quantityOfDecimal negative m 0 = .finite (if negative then -(m : Rat) else m) := by
    intro m hm hgrid negative
    refine quantityOfDecimal_of_binary64 negative ?_ (Nat.cast_pos.mpr hm)
    rwa [zpow_zero, mul_one]
  cases n with
  | ofNat m =>
    show readQuantity m.repr.toList = _
    rw [Nat.toList_repr]
    have hvalue : quantityOfDecimal false m 0 = .finite (m : Nat) := by
      rcases Nat.eq_zero_or_pos m with rfl | hm
      · rfl
      · exact hpositive m hm h false
    have hread := readUnsigned_toDigits false m
    rw [hvalue] at hread
    exact readQuantity_of_readUnsigned (toDigits_numeral m)
      (takeSign_of_opens (toDigits_eq_cons m)) (toDigits_eq_cons m) hread
  | negSucc m =>
    show readQuantity ("-" ++ (m + 1).repr).toList = _
    rw [String.toList_append, Nat.toList_repr, show "-".toList = ['-'] from rfl,
      List.singleton_append]
    have hgrid : IsOnGrid (m + 1 : Nat) := by
      have := isOnGrid_neg h
      rwa [Int.cast_negSucc, neg_neg] at this
    have hread := readUnsigned_toDigits true (m + 1)
    rw [hpositive (m + 1) m.succ_pos hgrid true, if_pos rfl, ← Int.cast_negSucc] at hread
    exact readQuantity_of_readUnsigned (minus_numeral (toDigits_numeral _)) rfl
      (toDigits_eq_cons _) hread

/-- A digit opens the text of a decimal. -/
theorem layout_eq_cons (layout : Layout) (d : Decimal) :
    ∃ c s, layout.text d = c :: s ∧ c.isDigit = true := by
  obtain ⟨c, s, hdigits, hc⟩ : ∃ c s, d.digits = c :: s ∧ c.isDigit = true :=
    toDigits_eq_cons d.significand
  rw [Layout.text]
  dsimp only
  split
  · split
    · exact ⟨'0', _, rfl, rfl⟩
    split
    · rw [hdigits]
      exact ⟨c, _, rfl, hc⟩
    · rename_i hpositive _
      obtain ⟨k, hk⟩ : ∃ k, d.point.toNat = k + 1 := ⟨d.point.toNat - 1, by omega⟩
      rw [hdigits, hk]
      exact ⟨c, _, rfl, hc⟩
  · rw [hdigits]
    split
    · rename_i heq
      cases heq
      exact ⟨c, _, rfl, hc⟩
    · rename_i heq
      cases heq
      exact ⟨c, _, rfl, hc⟩
    · rename_i heq
      cases heq

/-- **A number of the grid is read back from its text.** -/
theorem IsOnGrid.readQuantity_text {q : Rat} (h : IsOnGrid q) :
    readQuantity (Number.real (.finite q)).text.toList = .ok (.finite q) := by
  rw [Number.text, Quantity.value?]
  dsimp only
  split
  · rename_i hden
    have hwhole : (q.num : Rat) = q := (Rat.den_eq_one_iff q).mp hden
    rw [← hwhole] at h
    have hread := h.readQuantity_toString
    rwa [hwhole] at hread
  · rename_i hden
    have hne : q ≠ 0 := by
      rintro rfl
      exact hden rfl
    rw [Quantity.display, if_neg (fun hzero ↦ hne (Rat.num_eq_zero.mp hzero))]
    split
    · rename_i hnegative
      have hread := (isOnGrid_neg h).readUnsigned_shortest
        (neg_pos.mpr (Rat.num_neg.mp hnegative)) isStandard_free true .plain
      rw [if_pos rfl, neg_neg] at hread
      rw [String.toList_ofList]
      exact readQuantity_of_readUnsigned (minus_numeral (layout_numeral _ _)) rfl
        (layout_eq_cons _ _) hread
    · rename_i hnegative
      have hpos : 0 < q := lt_of_le_of_ne (Rat.num_nonneg.mp (not_lt.mp hnegative)) hne.symm
      have hread := h.readUnsigned_shortest hpos isStandard_free false .plain
      rw [String.toList_ofList]
      exact readQuantity_of_readUnsigned (layout_numeral _ _)
        (takeSign_of_opens (layout_eq_cons _ _)) (layout_eq_cons _ _) hread

theorem readQuantity_infinite (negative : Bool) :
    readQuantity (Number.real (.infinite negative)).text.toList = .ok (.infinite negative) := by
  cases negative <;> rfl

/-! ## Numbers without an exponent -/

theorem layout_positional {layout : Layout} {d : Decimal}
    (hpoint : layout.above < d.point ∧ d.point ≤ layout.upTo) :
    ∀ c ∈ layout.text d, c.isDigit = true ∨ c = '.' := by
  have hdigits : ∀ c ∈ d.digits, c.isDigit = true ∨ c = '.' :=
    fun c hc ↦ .inl (isDigit_of_mem_toDigits hc)
  have hzeros : ∀ n, ∀ c ∈ List.replicate n '0', c.isDigit = true ∨ c = '.' := by
    intro n c hc
    rw [List.eq_of_mem_replicate hc]
    exact .inl rfl
  rw [Layout.text]
  dsimp only
  rw [if_pos hpoint]
  split
  · rw [List.cons_append, List.cons_append, List.forall_mem_cons, List.forall_mem_cons,
      List.forall_mem_append]
    exact ⟨.inl rfl, .inr rfl, hzeros _, hdigits⟩
  split
  · rw [List.forall_mem_append, List.forall_mem_append, List.forall_mem_cons,
      List.forall_mem_singleton]
    exact ⟨⟨hdigits, hzeros _⟩, .inr rfl, .inl rfl⟩
  · rw [List.forall_mem_append, List.forall_mem_cons]
    exact ⟨fun c hc ↦ hdigits c (List.mem_of_mem_take hc), .inr rfl,
      fun c hc ↦ hdigits c (List.mem_of_mem_drop hc)⟩

theorem layout_plain {layout : Layout} {d : Decimal} (h : 'e' ∉ layout.text d) :
    ∀ c ∈ layout.text d, c.isDigit = true ∨ c = '.' := by
  refine layout_positional (Decidable.not_not.mp fun hexponent ↦ h ?_)
  -- an exponent begins with its letter
  rw [Layout.text]
  dsimp only
  rw [if_neg hexponent]
  split <;> simp [Layout.exponent]

/-- A number that is not below zero is written as a whole number or as its shortest decimal. -/
theorem text_cases {q : Rat} (hq : 0 ≤ q) :
    (∀ c ∈ (Number.real (.finite q)).text.toList, c.isDigit = true) ∨
      0 < q ∧ (Number.real (.finite q)).text.toList = Layout.plain.text (shortest q) := by
  rw [Number.text, Quantity.value?]
  dsimp only
  have hnum : 0 ≤ q.num := Rat.num_nonneg.mpr hq
  split
  · obtain ⟨n, hn⟩ := Int.eq_ofNat_of_zero_le hnum
    rw [hn]
    refine .inl fun c hc ↦ ?_
    have hc : c ∈ n.repr.toList := hc
    rw [Nat.toList_repr] at hc
    exact isDigit_of_mem_toDigits hc
  · rename_i hden
    have hne : ¬ q.num = 0 := by
      intro hzero
      rw [Rat.num_eq_zero] at hzero
      rw [hzero] at hden
      exact hden rfl
    refine .inr ⟨Rat.num_pos.mp (by omega), ?_⟩
    rw [Quantity.display, if_neg hne, if_neg (not_lt.mpr hnum), String.toList_ofList]

/-- **A number that is not below zero has digits and points alone**, unless it has an exponent. -/
theorem text_plain {q : Rat} (hq : 0 ≤ q) (h : 'e' ∉ (Number.real (.finite q)).text.toList) :
    ∀ c ∈ (Number.real (.finite q)).text.toList, c.isDigit = true ∨ c = '.' := by
  obtain hdigits | ⟨-, htext⟩ := text_cases hq
  · exact fun c hc ↦ .inl (hdigits c hc)
  · rw [htext] at h ⊢
    exact layout_plain h

/-- The value of the shortest decimal is on the same side of a point of the grid as the number. -/
theorem IsOnGrid.lt_shortest {p q : Rat} (hp : IsOnGrid p) (hq : IsOnGrid q) (hpos : 0 < p)
    (hlt : p < q) : p < (shortest q).value := by
  by_contra hle
  have hvalue : 0 ≤ (shortest q).value := mul_nonneg (Nat.cast_nonneg _) (ten_zpow_pos _).le
  have hround := binary64_le_binary64 hvalue (not_lt.mp hle)
  rw [hq.binary64_shortest (hpos.trans hlt), hp] at hround
  exact absurd ((Quantity.le_iff_value? rfl rfl).mp hround) hlt.not_ge

theorem IsOnGrid.shortest_lt {p q : Rat} (hp : IsOnGrid p) (hq : IsOnGrid q) (hpos : 0 < q)
    (hlt : q < p) : (shortest q).value < p := by
  by_contra hle
  have hround := binary64_le_binary64 (hpos.trans hlt).le (not_lt.mp hle)
  rw [hq.binary64_shortest hpos, hp] at hround
  exact absurd ((Quantity.le_iff_value? rfl rfl).mp hround) hlt.not_ge

/-- **A number of the grid has no exponent** unless it is small or large. -/
theorem IsOnGrid.text_positional {q : Rat} (h : IsOnGrid q) (hlow : 1 / 1024 ≤ q)
    (hhigh : q ≤ 1024) : ∀ c ∈ (Number.real (.finite q)).text.toList, c.isDigit = true ∨ c = '.' := by
  have hpos : 0 < q := by linarith
  obtain hdigits | ⟨-, htext⟩ := text_cases hpos.le
  · exact fun c hc ↦ .inl (hdigits c hc)
  have habove : 1 / 2048 < (shortest q).value :=
    IsOnGrid.lt_shortest (by decide +kernel) h (by norm_num) (by linarith)
  have hbelow : (shortest q).value < 2048 :=
    IsOnGrid.shortest_lt (by decide +kernel) h hpos (by linarith)
  have hsome : 0 < (shortest q).significand := by
    refine Nat.pos_of_ne_zero fun hzero ↦ ?_
    rw [Decimal.value, hzero, Nat.cast_zero, zero_mul] at habove
    norm_num at habove
  obtain ⟨hpointLow, hpointHigh⟩ := Decimal.point_spec hsome
  rw [htext]
  refine layout_positional ⟨?_, ?_⟩
  · have hpower : (10 : Rat) ^ (-4 : Int) < 10 ^ (shortest q).point := by
      refine lt_trans ?_ (habove.trans hpointHigh)
      norm_num
    exact (zpow_lt_zpow_iff_right₀ (by norm_num)).mp hpower
  · have hpower : (10 : Rat) ^ ((shortest q).point - 1) < 10 ^ (4 : Int) := by
      refine lt_trans (hpointLow.trans_lt hbelow) ?_
      norm_num
    have hlt := (zpow_lt_zpow_iff_right₀ (by norm_num)).mp hpower
    show (shortest q).point ≤ 16
    omega

end Montage
