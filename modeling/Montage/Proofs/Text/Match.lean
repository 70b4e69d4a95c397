import Montage.Proofs.Text.Lines
import Montage.Text.Match

/-!
# Matches in a text that is put together

What a pattern does with a text depends on what stands behind each character, so that a text is
known to be without matches only together with all that may follow it (`Throughout`).  Such a text
is passed over: what is removed, or found first, or found in all, is what is removed or found in the
rest.
-/

set_option autoImplicit false

namespace Montage

/-- Holds from every character of a text on, whatever follows the text. -/
def Throughout (P : List Char → Prop) : List Char → Prop
  | [] => True
  | c :: s => (∀ rest, P (c :: (s ++ rest))) ∧ Throughout P s

namespace Throughout

variable {P Q : List Char → Prop} {s t : List Char}

theorem append (hs : Throughout P s) (ht : Throughout P t) : Throughout P (s ++ t) := by
  induction s with
  | nil => exact ht
  | cons c s ih =>
    refine ⟨fun rest ↦ ?_, ih hs.2⟩
    have := hs.1 (t ++ rest)
    rwa [← List.append_assoc] at this

theorem imp (h : Throughout P s) (himp : ∀ s, P s → Q s) : Throughout Q s := by
  induction s with
  | nil => trivial
  | cons c s ih => exact ⟨fun rest ↦ himp _ (h.1 rest), ih h.2⟩

theorem and (hs : Throughout P s) (ht : Throughout Q s) : Throughout (fun s ↦ P s ∧ Q s) s := by
  induction s with
  | nil => trivial
  | cons c s ih => exact ⟨fun rest ↦ ⟨hs.1 rest, ht.1 rest⟩, ih hs.2 ht.2⟩

/-- What depends on the first character alone holds throughout a text of such characters. -/
theorem of_chars (h : ∀ c ∈ s, ∀ rest, P (c :: rest)) : Throughout P s := by
  induction s with
  | nil => trivial
  | cons c s ih =>
    rw [List.forall_mem_cons] at h
    exact ⟨fun rest ↦ h.1 _, ih h.2⟩

end Throughout

/-! ## Removing -/

section

variable {length : List Char → Nat}

/-- A match in front goes. -/
theorem removeFrom_match {s : List Char} (h : length s ≠ 0) :
    removeFrom length 0 s = removeFrom length (length s) s := by
  cases s with
  | nil => rw [removeFrom, removeFrom]
  | cons c s =>
    obtain ⟨n, hn⟩ := Nat.exists_eq_succ_of_ne_zero h
    rw [removeFrom, hn, removeFrom]

theorem removeFrom_sublist (skip : Nat) (s : List Char) : (removeFrom length skip s).Sublist s := by
  induction s generalizing skip with
  | nil => exact List.nil_sublist _
  | cons c s ih =>
    cases skip with
    | succ skip => exact (ih skip).cons c
    | zero =>
      rw [removeFrom]
      split
      · exact (ih 0).cons_cons c
      · exact (ih _).cons c

/-- Removing leaves what is left in its order. -/
theorem removeMatches_sublist (s : List Char) : (removeMatches length s).Sublist s :=
  removeFrom_sublist 0 s

theorem removeFrom_skip (s rest : List Char) :
    removeFrom length s.length (s ++ rest) = removeFrom length 0 rest := by
  induction s with
  | nil => rfl
  | cons c s ih => rw [List.length_cons, List.cons_append, removeFrom, ih]

/-- A text without matches stays. -/
theorem Throughout.removeMatches {s : List Char} (h : Throughout (fun s ↦ length s = 0) s)
    (rest : List Char) :
    Montage.removeMatches length (s ++ rest) = s ++ Montage.removeMatches length rest := by
  induction s with
  | nil => rfl
  | cons c s ih =>
    rw [List.cons_append, Montage.removeMatches, removeFrom, h.1 rest]
    exact congrArg (c :: ·) (ih h.2)

theorem Throughout.removeMatches_alone {s : List Char} (h : Throughout (fun s ↦ length s = 0) s) :
    Montage.removeMatches length s = s := by
  have hnil : Montage.removeMatches length [] = [] := rfl
  have := h.removeMatches []
  rwa [hnil, List.append_nil] at this

/-- A match goes. -/
theorem removeMatches_hit {s rest : List Char} (hne : s ≠ []) (h : length (s ++ rest) = s.length) :
    removeMatches length (s ++ rest) = removeMatches length rest := by
  obtain ⟨c, s, rfl⟩ := List.exists_cons_of_ne_nil hne
  rw [List.cons_append] at h
  rw [removeMatches, List.cons_append, removeFrom, h, List.length_cons]
  exact removeFrom_skip s rest

end

/-! ## Finding -/

section

variable {α : Type} {pattern : List Char → Option α}

/-- What stands behind a text without matches is found first. -/
theorem Throughout.firstMatch? {s : List Char} (h : Throughout (fun s ↦ pattern s = none) s)
    (rest : List Char) : Montage.firstMatch? pattern (s ++ rest) = Montage.firstMatch? pattern rest := by
  induction s with
  | nil => rfl
  | cons c s ih => rw [List.cons_append, Montage.firstMatch?, h.1 rest, Option.none_or, ih h.2]

theorem Throughout.firstMatch?_alone {s : List Char} (h : Throughout (fun s ↦ pattern s = none) s) :
    Montage.firstMatch? pattern s = pattern [] := by
  have := h.firstMatch? []
  rwa [List.append_nil] at this

/-- What is found first is found somewhere. -/
theorem exists_of_firstMatch? {s : List Char} {a : α} (h : Montage.firstMatch? pattern s = some a) :
    ∃ front behind, s = front ++ behind ∧ pattern behind = some a := by
  induction s with
  | nil => exact ⟨[], [], rfl, h⟩
  | cons c s ih =>
    rw [Montage.firstMatch?, Option.or_eq_some_iff] at h
    rcases h with h | ⟨-, h⟩
    · exact ⟨[], c :: s, rfl, h⟩
    · obtain ⟨front, behind, rfl, hbehind⟩ := ih h
      exact ⟨c :: front, behind, rfl, hbehind⟩

theorem firstMatch?_hit {s : List Char} {a : α} (h : pattern s = some a) :
    firstMatch? pattern s = some a := by
  cases s with
  | nil => exact h
  | cons c s => rw [firstMatch?, h, Option.some_or]

end

/-! ## Finding all -/

section

variable {α : Type} {pattern : List Char → Option (α × Nat)}

theorem matchesFrom_skip (s rest : List Char) :
    matchesFrom pattern s.length (s ++ rest) = matchesFrom pattern 0 rest := by
  induction s with
  | nil => rfl
  | cons c s ih => rw [List.length_cons, List.cons_append, matchesFrom, ih]

/-- A text without matches is passed over. -/
theorem Throughout.allMatches {s : List Char} (h : Throughout (fun s ↦ pattern s = none) s)
    (rest : List Char) : Montage.allMatches pattern (s ++ rest) = Montage.allMatches pattern rest := by
  induction s with
  | nil => rfl
  | cons c s ih =>
    rw [List.cons_append, Montage.allMatches, matchesFrom, h.1 rest]
    exact ih h.2

theorem Throughout.allMatches_alone {s : List Char} (h : Throughout (fun s ↦ pattern s = none) s) :
    Montage.allMatches pattern s = [] := by
  have := h.allMatches []
  rwa [List.append_nil] at this

/-- A match gives its part. -/
theorem allMatches_hit {s rest : List Char} {a : α} (hne : s ≠ [])
    (h : pattern (s ++ rest) = some (a, s.length)) :
    allMatches pattern (s ++ rest) = a :: allMatches pattern rest := by
  obtain ⟨c, s, rfl⟩ := List.exists_cons_of_ne_nil hne
  rw [List.cons_append] at h
  rw [allMatches, List.cons_append, matchesFrom, h]
  exact congrArg (a :: ·) (matchesFrom_skip s rest)

end

/-! ## Up to a mark -/

theorem lengthThrough_append {stop : Char} {s : List Char} (hs : stop ∉ s) (rest : List Char) :
    lengthThrough stop (s ++ stop :: rest) = s.length + 1 := by
  rw [lengthThrough, span_part hs]

/-- A mark is reached where it stands, and nowhere else. -/
theorem lengthThrough_cases (stop : Char) (s : List Char) :
    (lengthThrough stop s = 0 ∧ stop ∉ s) ∨ ∃ front behind, s = front ++ stop :: behind ∧
      stop ∉ front ∧ lengthThrough stop s = front.length + 1 := by
  by_cases hmem : stop ∈ s
  · obtain ⟨front, behind, rfl, hfront⟩ := List.eq_append_cons_of_mem hmem
    exact .inr ⟨front, behind, rfl, hfront, lengthThrough_append hfront behind⟩
  · refine .inl ⟨?_, hmem⟩
    have hspan : s.span (· ≠ stop) = (s, []) := by
      have hall : ∀ c ∈ s, decide (c ≠ stop) = true :=
        fun c hc ↦ decide_eq_true fun heq ↦ hmem (heq ▸ hc)
      have hnone : ∀ c ∈ ([] : List Char).head?, decide (c ≠ stop) = false := by simp
      have hspan := span_append hall hnone
      rwa [List.append_nil] at hspan
    rw [lengthThrough, hspan]

end Montage
