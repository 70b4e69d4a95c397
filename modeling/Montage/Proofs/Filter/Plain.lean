import Mathlib.Data.List.Basic
import Montage.Filter.Graph
import Montage.Proofs.Filter.Token
import Montage.Proofs.Number.Text

/-!
# Characters that need no escape

The names of filters and options, numerals and formulas are written into a graph as they are.
They hold no character that any of the readers takes for its own: that is said of numerals in
`Montage.Proofs.Number.Text`, and checked here for names and for every formula over names.
-/

set_option autoImplicit false

namespace Montage

/-! ## Names -/

/-- A text that is a name. -/
structure IsName (s : String) : Prop where
  nonempty : s.toList ≠ []
  chars : ∀ c ∈ s.toList, isNameChar c = true

/-- A character of a formula. -/
def isFormulaChar (c : Char) : Bool :=
  isNumeralChar c || c == '*' || c == '/' || c == '(' || c == ')' || c == ','

theorem isFormulaChar_of_numeral {c : Char} (h : isNumeralChar c = true) :
    isFormulaChar c = true := by
  simp [isFormulaChar, h]

/-! ## Formulas -/

mutual

/-- An expression of numbers and names alone, without text that a caller gave. -/
def Expr.IsFormula : Expr → Prop
  | .num _ => True
  | .var name => IsName name
  | .raw _ => False
  | .binary _ left right => left.IsFormula ∧ right.IsFormula
  | .call function args => IsName function ∧ Expr.AreFormulas args

/-- Expressions of numbers and names alone. -/
def Expr.AreFormulas : List Expr → Prop
  | [] => True
  | arg :: rest => arg.IsFormula ∧ Expr.AreFormulas rest

end

theorem parenthesized_formula {wanted : Bool} {s : List Char}
    (h : ∀ c ∈ s, isFormulaChar c = true) :
    ∀ c ∈ Expr.parenthesized wanted s, isFormulaChar c = true := by
  cases wanted with
  | false => exact h
  | true =>
    rw [Expr.parenthesized, if_pos rfl, List.cons_append, List.forall_mem_cons,
      List.forall_mem_append]
    exact ⟨rfl, h, List.all_eq_true.mp (by decide)⟩

theorem IsName.formula {s : String} (h : IsName s) : ∀ c ∈ s.toList, isFormulaChar c = true :=
  fun c hc ↦ isFormulaChar_of_numeral (isNumeralChar_of_name (h.chars c hc))

theorem sign_formula (operation : Operation) : isFormulaChar operation.sign = true := by
  cases operation <;> rfl

mutual

/-- **A formula is written with letters, digits and the marks of formulas.** -/
theorem text_formula : ∀ (e : Expr), e.IsFormula → ∀ c ∈ e.text, isFormulaChar c = true
  | .num n, _ => by
    rw [Expr.text]
    exact fun c hc ↦ isFormulaChar_of_numeral (text_numeral n c hc)
  | .var name, h => by
    rw [Expr.IsFormula] at h
    rw [Expr.text]
    exact h.formula
  | .raw _, h => by
    rw [Expr.IsFormula] at h
    exact h.elim
  | .binary operation left right, h => by
    rw [Expr.IsFormula] at h
    rw [Expr.text, List.forall_mem_append, List.forall_mem_cons]
    exact ⟨parenthesized_formula (text_formula left h.1), sign_formula operation,
      parenthesized_formula (text_formula right h.2)⟩
  | .call function args, h => by
    rw [Expr.IsFormula] at h
    rw [Expr.text, List.forall_mem_append, List.forall_mem_append, List.forall_mem_cons]
    exact ⟨⟨h.1.formula, rfl, argsText_formula args h.2⟩, List.all_eq_true.mp (by decide)⟩

theorem argsText_formula :
    ∀ (args : List Expr), Expr.AreFormulas args → ∀ c ∈ Expr.argsText args, isFormulaChar c = true
  | [], _ => by simp [Expr.argsText]
  | [arg], h => by
    rw [Expr.AreFormulas] at h
    rw [Expr.argsText]
    exact text_formula arg h.1
  | arg :: next :: rest, h => by
    rw [Expr.AreFormulas] at h
    rw [Expr.argsText, List.forall_mem_append, List.forall_mem_cons]
    · exact ⟨text_formula arg h.1, rfl, argsText_formula (next :: rest) h.2⟩
    · simp

end

/-! ## What the readers make of them -/

theorem ne_of_formula {c d : Char} (hc : isFormulaChar c = true) (hd : isFormulaChar d = false) :
    c ≠ d := by
  rintro rfl
  rw [hc] at hd
  cases hd

theorem ne_of_numeral {c d : Char} (hc : isNumeralChar c = true) (hd : isNumeralChar d = false) :
    c ≠ d := by
  rintro rfl
  rw [hc] at hd
  cases hd

namespace Reading

open Montage.Filter

theorem not_space_of_formula {c : Char} (h : isFormulaChar c = true) : isEdgeSpace c = false := by
  simp [isEdgeSpace, ne_of_formula h (d := ' ') rfl, ne_of_formula h (d := '\n') rfl,
    ne_of_formula h (d := '\t') rfl, ne_of_formula h (d := '\r') rfl]

/-- A formula is one token among options. -/
theorem reads_formula {s : List Char} (h : ∀ c ∈ s, isFormulaChar c = true) :
    Reads isColon s s := by
  refine .plain fun c hc ↦ ⟨⟨?_, ?_, ?_⟩, not_space_of_formula (h c hc)⟩
  · simpa [isColon] using ne_of_formula (h c hc) (d := ':') rfl
  · exact ne_of_formula (h c hc) rfl
  · exact ne_of_formula (h c hc) rfl

/-- A numeral is part of one token in a graph. -/
theorem reads_numeral {s : List Char} (h : ∀ c ∈ s, isNumeralChar c = true) :
    Reads isArgsStop s s := by
  refine .plain fun c hc ↦
    ⟨⟨?_, ne_of_numeral (h c hc) rfl, ne_of_numeral (h c hc) rfl⟩,
      not_space_of_formula (isFormulaChar_of_numeral (h c hc))⟩
  simp [isArgsStop, ne_of_numeral (h c hc) (d := '[') rfl, ne_of_numeral (h c hc) (d := ']') rfl,
    ne_of_numeral (h c hc) (d := ',') rfl, ne_of_numeral (h c hc) (d := ';') rfl]

/-- The name of a filter is one token. -/
theorem reads_name {s : List Char} (h : ∀ c ∈ s, isNameChar c = true) :
    Reads isNameStop s s := by
  refine .plain fun c hc ↦ ?_
  have hc := isNumeralChar_of_name (h c hc)
  refine ⟨⟨?_, ne_of_numeral hc rfl, ne_of_numeral hc rfl⟩,
    not_space_of_formula (isFormulaChar_of_numeral hc)⟩
  simp [isNameStop, ne_of_numeral hc (d := '=') rfl, ne_of_numeral hc (d := ',') rfl,
    ne_of_numeral hc (d := ';') rfl, ne_of_numeral hc (d := '[') rfl]

/-! ## Keys -/

theorem toNat_lt_of_name {c : Char} (h : isNameChar c = true) : c.toNat < 128 := by
  rw [isNameChar, Bool.or_eq_true, beq_iff_eq] at h
  rcases h with h | rfl
  · rcases Bool.or_eq_true_iff.mp h with hletter | hdigit
    · have := toNat_of_isAlpha hletter
      omega
    · have hhigh : c.toNat ≤ 0x39 := (isDigit_iff.mp hdigit).2
      omega
  · decide

theorem isKeyChar_of_name {c : Char} (h : isNameChar c = true) : isKeyChar c = true := by
  have hascii : ∀ n : Fin 128, isNameChar (Char.ofNat n) = true →
      isKeyChar (Char.ofNat n) = true := by decide
  have hc := hascii ⟨c.toNat, toNat_lt_of_name h⟩
  rw [Char.ofNat_toNat] at hc
  exact hc h

theorem takeKey_name {s : List Char} (hne : s ≠ []) (h : ∀ c ∈ s, isNameChar c = true)
    (rest : List Char) : takeKey (s ++ '=' :: rest) = (some s, rest) := by
  have hkey : ∀ c ∈ s, isKeyChar c = true := fun c hc ↦ isKeyChar_of_name (h c hc)
  have hmark : isKeyChar '=' = false := by decide
  rw [takeKey, List.dropWhile_append_of_pos hkey, List.takeWhile_append_of_pos hkey,
    List.dropWhile_cons_of_neg (by simp [hmark]), List.takeWhile_cons_of_neg (by simp [hmark])]
  simp [hne]

theorem takeKey_numeral {s rest : List Char} (h : ∀ c ∈ s, isNumeralChar c = true)
    (hrest : Stops isColon rest) : takeKey (s ++ rest) = (none, s ++ rest) := by
  have hhead : ∀ c ∈ ((s ++ rest).dropWhile isKeyChar).head?, c ≠ '=' := by
    induction s with
    | nil =>
      cases rest with
      | nil => simp
      | cons d later =>
        have hd : d = ':' := by simpa [isColon] using hrest d rfl
        have hmark : isKeyChar ':' = false := by decide
        simp [hd, hmark]
    | cons d s ih =>
      rw [List.forall_mem_cons] at h
      rw [List.cons_append, List.dropWhile_cons]
      split
      · exact ih h.2
      · rintro c ⟨⟩
        exact ne_of_numeral h.1 rfl
  rw [takeKey]
  split
  · rename_i heq
    rw [heq] at hhead
    exact absurd rfl (hhead '=' rfl)
  · rfl

end Reading
end Montage
