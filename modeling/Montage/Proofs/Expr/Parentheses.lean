import Montage.Proofs.Expr.Value

/-!
# When parentheses do not matter

How texts are put together: an operand that is read as a strong one is read as a weak one
(`Derives.weaken`), two operands of the strengths that an operation asks for make one
(`Derives.operation`), and parentheses make an operand of every strength.

On the right of a sum or of a product parentheses are left out although the operand is no stronger
than the operation.  The text is then read as a different tree, of the same value because sums and
products are associative (`Derives.regroup`).
-/

set_option autoImplicit false

namespace Montage
namespace Formula

/-! ## Text without blanks -/

theorem condensed_append (s t : List Char) : condensed (s ++ t) = condensed s ++ condensed t := by
  rw [condensed, List.filter_append]
  rfl

theorem condensed_cons {c : Char} (hc : isBlank c = false) (s : List Char) :
    condensed (c :: s) = c :: condensed s := by
  rw [condensed, List.filter_cons_of_pos (by rw [hc]; rfl)]
  rfl

theorem condensed_eq_self {s : List Char} (h : ∀ c ∈ s, isBlank c = false) : condensed s = s :=
  List.filter_eq_self.mpr fun c hc ↦ by rw [h c hc]; rfl

theorem isBlank_of_numeral {c : Char} (h : isNumeralChar c = true) : isBlank c = false := by
  have hlow : c.toNat < 128 := by
    simp only [isNumeralChar, Bool.or_eq_true, beq_iff_eq] at h
    rcases h with ((h | rfl) | rfl) | rfl
    · exact Reading.toNat_lt_of_name h
    all_goals decide
  have hascii : ∀ n : Fin 128, isNumeralChar (Char.ofNat n) = true →
      isBlank (Char.ofNat n) = false := by decide
  have hc := hascii ⟨c.toNat, hlow⟩
  rw [Char.ofNat_toNat] at hc
  exact hc h

theorem isBlank_sign (operation : Operation) : isBlank operation.sign = false := by
  cases operation <;> decide

theorem condensed_identifier {s : String} (h : IsIdentifier s) :
    condensed s.toList = s.toList :=
  condensed_eq_self fun c hc ↦ isBlank_of_numeral (isNumeralChar_of_name (h.chars c hc))

theorem condensed_number (n : Number) : condensed n.text.toList = n.text.toList :=
  condensed_eq_self fun c hc ↦ isBlank_of_numeral (text_numeral n c hc)

namespace Derives

variable {p q : Nat} {s r : List Char} {a b : Formula}

/-! ## Strength -/

theorem alone (hp : p = 1 ∨ p = 2) (h : Derives (.operand (p + 1)) s a) :
    Derives (.operand p) s a := by
  rw [← List.append_nil s]
  exact .chain hp h .done

/-- What is read as a strong operand is read as a weak one. -/
theorem weaken (h : Derives (.operand q) s a) (hp : 1 ≤ p) (hpq : p ≤ q) (hq : q ≤ 4) :
    Derives (.operand p) s a := by
  obtain rfl | hlt := hpq.eq_or_lt
  · exact h
  have hthree : q = 3 ∨ q = 4 → Derives (.operand 3) s a := by
    rintro (rfl | rfl)
    · exact h
    · exact .unsigned h
  have htwo : q ≠ 1 → Derives (.operand 2) s a := fun hone ↦ by
    obtain rfl | hq' : q = 2 ∨ (q = 3 ∨ q = 4) := by omega
    · exact h
    · exact alone (.inr rfl) (hthree hq')
  obtain rfl | rfl | rfl : p = 1 ∨ p = 2 ∨ p = 3 := by omega
  · exact alone (.inl rfl) (htwo (by omega))
  · exact htwo (by omega)
  · exact hthree (by omega)

/-- Where no sign of an operation stands behind the first character, there is one operand only. -/
theorem stronger_of_no_sign (h : Derives (.operand p) s a) (hp : p = 1 ∨ p = 2)
    (hs : ∀ c ∈ s.tail, ∀ operation : Operation, c ≠ operation.sign) :
    Derives (.operand (p + 1)) s a := by
  cases h with
  | chain _ first rest =>
    cases rest with
    | done =>
      rw [List.append_nil]
      exact first
    | @next _ _ _ _ _ _ operation =>
      obtain ⟨c, s, rfl, -⟩ := first.head
      exact absurd rfl (hs operation.sign (by simp) operation)
  | _ => omega

/-! ## Operations -/

theorem more_trans {x y z : Formula} (h : Derives (.more p x) s y) (h' : Derives (.more p y) r z) :
    Derives (.more p x) (s ++ r) z := by
  generalize hπ : Part.more p x = π at h
  induction h generalizing x with
  | done =>
    cases hπ
    exact h'
  | next hp operand rest _ ih =>
    cases hπ
    rw [List.cons_append, List.append_assoc]
    exact .next hp operand (ih h' rfl)
  | _ => cases hπ

/-- More of a sum or a product goes on with an operand of that strength. -/
theorem append_more (hp : p = 1 ∨ p = 2) (h : Derives (.operand p) s a)
    (h' : Derives (.more p a) r b) : Derives (.operand p) (s ++ r) b := by
  cases h with
  | chain _ first rest =>
    rw [List.append_assoc]
    exact .chain hp first (more_trans rest h')
  | _ => omega

/-- An operation is read from the left. -/
theorem operation {operation : Operation} (hp : operation.precedence = p) {t : List Char}
    (ha : Derives (.operand p) s a) (hb : Derives (.operand (p + 1)) t b) :
    Derives (.operand p) (s ++ operation.sign :: t) (.binary operation a b) := by
  refine append_more (by cases operation <;> simp_all [Operation.precedence]) ha ?_
  rw [← List.append_nil t]
  exact .next hp hb .done

theorem parentheses (hp : 1 ≤ p) (hq : p ≤ 4) (h : Derives (.operand q) s a) (hone : 1 ≤ q)
    (hfour : q ≤ 4) : Derives (.operand p) ('(' :: (s ++ [')'])) a :=
  (Derives.group (h.weaken le_rfl hone hfour)).weaken hp hq le_rfl

/-! ## Sums and products on the right -/

variable {K : Type} [Field K] [DecidableEq K] {I : Interpretation K}

theorem regroup_more {operation : Operation} (hp : operation.precedence = p)
    (hseparates : operation.separatesRight = false) {x : Formula} (h : Derives (.more p x) r b)
    {vb : K} (hb : b.value I = some vb) :
    ∃ vx, x.value I = some vx ∧ ∀ (y : Formula) (va : K), y.value I = operation.apply va vx →
      ∃ c, Derives (.more p y) r c ∧ c.value I = operation.apply va vb := by
  generalize hπ : Part.more p x = π at h
  induction h generalizing x with
  | done =>
    cases hπ
    exact ⟨vb, hb, fun y va hy ↦ ⟨y, .done, hy⟩⟩
  | @next _ _ _ _ z _ other hp' operand rest _ ih =>
    cases hπ
    obtain ⟨vxz, hxz, hrest⟩ := ih hb rfl
    obtain ⟨vx, vz, hx, hz, happly⟩ := value_binary_eq_some.mp hxz
    refine ⟨vx, hx, fun y va hy ↦ ?_⟩
    obtain ⟨c, hc, hvalue⟩ := hrest (.binary other y z) va (by
      rw [Formula.value, hy, hz]
      exact Operation.apply_assoc (hp'.trans hp.symm) hseparates happly)
    exact ⟨c, .next hp' operand hc, hvalue⟩
  | _ => cases hπ

/-- **Parentheses on the right of a sum or a product do not matter.**  Without them the text is read
as another tree, which has the same value. -/
theorem regroup {operation : Operation} (hp : operation.precedence = p)
    (hseparates : operation.separatesRight = false) {t : List Char} {va vb : K}
    (ha : Derives (.operand p) s a) (hva : a.value I = some va) (hb : Derives (.operand p) t b)
    (hvb : b.value I = some vb) :
    ∃ c, Derives (.operand p) (s ++ operation.sign :: t) c
      ∧ c.value I = operation.apply va vb := by
  cases hb with
  | @chain _ _ _ x _ hchain first rest =>
    obtain ⟨vx, hvx, hrest⟩ := regroup_more hp hseparates rest hvb
    obtain ⟨c, hc, hvalue⟩ := hrest (.binary operation a x) va (by
      rw [Formula.value, hva, hvx]
      rfl)
    exact ⟨c, append_more hchain ha (.next hp first hc), hvalue⟩
  | _ => cases operation <;> cases hp

end Derives

/-! ## Texts that stand for themselves -/

/-- What passes for one operand consists of characters of words, but for a sign at its front. -/
theorem exists_of_isSimple {text : String} (h : Expr.isSimple text = true) : ∃ c rest,
    condensed text.toList = condensed (c :: rest) ∧ isNumeralChar c = true
      ∧ ∀ d ∈ rest, isWordChar d = true := by
  have hword : ∀ d : Char, (d.isDigit || d == '.') = true → isWordChar d = true := by
    intro d hd
    rw [Bool.or_eq_true, beq_iff_eq] at hd
    rcases hd with hd | rfl
    · exact isWordChar_of_digit hd
    · rfl
  have hnumeral : ∀ d, isWordChar d = true → isNumeralChar d = true := by
    intro d hd
    rw [isWordChar] at hd
    rw [isNumeralChar, hd, Bool.true_or, Bool.true_or]
  rw [Expr.isSimple] at h
  dsimp only at h
  have hbody : condensed text.toList = condensed
      (if text.toList.getLast? = some '\n' then text.toList.dropLast else text.toList) := by
    split
    · rename_i hlast
      conv_lhs => rw [← List.dropLast_append_getLast? '\n' hlast]
      rw [condensed_append]
      exact List.append_nil _
    · rfl
  split at h
  · cases h
  · rename_i c rest heq
    rw [heq] at h hbody
    refine ⟨c, rest, hbody, ?_⟩
    rw [Bool.or_eq_true, Bool.and_eq_true, Bool.and_eq_true] at h
    rcases h with ⟨hletter, hrest⟩ | ⟨-, hdigits⟩
    · exact ⟨hnumeral c (isWordChar_of_letter hletter),
        fun d hd ↦ isWordChar_of_name (List.all_eq_true.mp hrest d hd)⟩
    · split at hdigits
      · rename_i hsign
        rw [hsign]
        exact ⟨rfl, fun d hd ↦ hword d (List.all_eq_true.mp hdigits d hd)⟩
      · have hall := fun d hd ↦ hword d (List.all_eq_true.mp hdigits d hd)
        exact ⟨hnumeral c (hall c List.mem_cons_self),
          fun d hd ↦ hall d (List.mem_cons_of_mem c hd)⟩

/-- A text that passes for one operand has no sign of an operation but at its front. -/
theorem no_sign_of_isSimple {text : String} (h : Expr.isSimple text = true) :
    ∀ c ∈ (condensed text.toList).tail, ∀ operation : Operation, c ≠ operation.sign := by
  obtain ⟨c, rest, htext, hc, hrest⟩ := exists_of_isSimple h
  rw [htext, condensed_cons (isBlank_of_numeral hc), List.tail_cons]
  rintro d hd operation rfl
  have := hrest _ (List.mem_of_mem_filter hd)
  rw [isWordChar_sign] at this
  cases this

/-- What is written by a caller and passes for one operand is read as a factor. -/
theorem Derives.factor_of_isSimple {text : String} {a : Formula}
    (h : Expr.isSimple text = true) (hread : Reads text a) :
    Derives (.operand 3) (condensed text.toList) a := by
  have hs := no_sign_of_isSimple h
  exact stronger_of_no_sign (stronger_of_no_sign hread (.inl rfl) hs) (.inr rfl) hs

end Formula
end Montage
