import Mathlib.Data.List.DropRight
import Mathlib.Data.List.TakeDrop
import Montage.Text.Split

/-!
# Lines of a text

Cutting a text at a separator and joining the parts again changes nothing, and the parts of a text
that is put together are those of what it is put together from.  What stands in front of a text
goes to its first part, what stands behind it to its last one.

A text ends solid if its last character is not blank: trimming at the end leaves it alone.  Line
ends of either kind are brought back to the line feeds that they were made from.
-/

set_option autoImplicit false

namespace Montage

-- Characters are finitely many, so what is said of the characters of a list could also be decided by
-- looking at all characters there are; looking at the list comes first.
instance (priority := 2000) decidableForallMem {α : Type} (p : α → Prop) [DecidablePred p]
    (items : List α) : Decidable (∀ a ∈ items, p a) :=
  List.decidableBAll p items

/-! ## Cutting -/

section

variable {sep : Char}

variable (sep) in
theorem splitAll_ne_nil (s : List Char) : splitAll sep s ≠ [] := by
  cases s with
  | nil => simp [splitAll]
  | cons c s =>
    rw [splitAll]
    split
    · simp
    · split <;> simp

theorem splitAll_cons_sep (s : List Char) : splitAll sep (sep :: s) = [] :: splitAll sep s := by
  rw [splitAll, if_pos rfl]

/-- What is no separator goes to the first part. -/
theorem splitAll_cons {c : Char} (hc : c ≠ sep) {s part : List Char} {parts : List (List Char)}
    (h : splitAll sep s = part :: parts) : splitAll sep (c :: s) = (c :: part) :: parts := by
  rw [splitAll, if_neg hc, h]

/-- A text without separators in front goes to the first part. -/
theorem splitAll_append {front : List Char} (hfront : sep ∉ front) {s part : List Char}
    {parts : List (List Char)} (h : splitAll sep s = part :: parts) :
    splitAll sep (front ++ s) = (front ++ part) :: parts := by
  induction front with
  | nil => exact h
  | cons c front ih =>
    rw [List.mem_cons, not_or] at hfront
    exact splitAll_cons (Ne.symm hfront.1) (ih hfront.2)

theorem splitAll_of_not_mem {s : List Char} (hs : sep ∉ s) : splitAll sep s = [s] := by
  have := splitAll_append (s := []) hs (splitAll.eq_1 sep)
  rwa [List.append_nil] at this

/-- A separator ends a part. -/
theorem splitAll_append_sep (s t : List Char) :
    splitAll sep (s ++ sep :: t) = splitAll sep s ++ splitAll sep t := by
  induction s with
  | nil =>
    rw [List.nil_append, splitAll_cons_sep, splitAll]
    rfl
  | cons c s ih =>
    rw [List.cons_append]
    by_cases hc : c = sep
    · rw [hc, splitAll_cons_sep, splitAll_cons_sep, ih, List.cons_append]
    · obtain ⟨part, parts, h⟩ := List.exists_cons_of_ne_nil (splitAll_ne_nil sep s)
      rw [h, List.cons_append] at ih
      rw [splitAll_cons hc ih, splitAll_cons hc h, List.cons_append]

/-- A part in front of a separator is the first one. -/
theorem splitAll_part {part : List Char} (hpart : sep ∉ part) (s : List Char) :
    splitAll sep (part ++ sep :: s) = part :: splitAll sep s := by
  rw [splitAll_append_sep, splitAll_of_not_mem hpart, List.singleton_append]

theorem not_mem_of_mem_splitAll {s part : List Char} (h : part ∈ splitAll sep s) : sep ∉ part := by
  induction s generalizing part with
  | nil =>
    rw [splitAll, List.mem_singleton] at h
    rw [h]
    exact List.not_mem_nil
  | cons c s ih =>
    by_cases hc : c = sep
    · rw [hc, splitAll_cons_sep, List.mem_cons] at h
      rcases h with rfl | h
      · exact List.not_mem_nil
      · exact ih h
    · obtain ⟨first, parts, hs⟩ := List.exists_cons_of_ne_nil (splitAll_ne_nil sep s)
      rw [splitAll_cons hc hs, List.mem_cons] at h
      rcases h with rfl | h
      · rw [List.mem_cons, not_or]
        exact ⟨Ne.symm hc, ih (hs ▸ List.mem_cons_self)⟩
      · exact ih (hs ▸ List.mem_cons_of_mem _ h)

theorem joinWith_cons_cons (between part next : List Char) (parts : List (List Char)) :
    joinWith between (part :: next :: parts) = part ++ between ++ joinWith between (next :: parts) :=
  rfl

theorem joinWith_cons (between part : List Char) (parts : List (List Char)) :
    joinWith between (part :: parts) = part ++ parts.flatMap (between ++ ·) := by
  induction parts generalizing part with
  | nil => simp [joinWith]
  | cons next parts ih =>
    rw [joinWith_cons_cons, ih, List.flatMap_cons, List.append_assoc, List.append_assoc]

theorem joinWith_append (between : List Char) {front back : List (List Char)} (hfront : front ≠ [])
    (hback : back ≠ []) :
    joinWith between (front ++ back) = joinWith between front ++ (between ++ joinWith between back) := by
  obtain ⟨first, front, rfl⟩ := List.exists_cons_of_ne_nil hfront
  obtain ⟨next, back, rfl⟩ := List.exists_cons_of_ne_nil hback
  rw [List.cons_append, joinWith_cons, joinWith_cons, joinWith_cons, List.flatMap_append,
    List.flatMap_cons, List.append_assoc, List.append_assoc]

theorem joinWith_concat (between : List Char) (parts : List (List Char)) (last back : List Char) :
    joinWith between (parts ++ [last ++ back]) = joinWith between (parts ++ [last]) ++ back := by
  by_cases hparts : parts = []
  · rw [hparts]
    rfl
  · rw [joinWith_append _ hparts (List.cons_ne_nil _ _), joinWith_append _ hparts (List.cons_ne_nil _ _),
      List.append_assoc, List.append_assoc]
    rfl

variable (sep) in
/-- The parts with the separators between them are the text. -/
theorem joinWith_splitAll (s : List Char) : joinWith [sep] (splitAll sep s) = s := by
  induction s with
  | nil => rfl
  | cons c s ih =>
    obtain ⟨part, parts, hs⟩ := List.exists_cons_of_ne_nil (splitAll_ne_nil sep s)
    rw [hs] at ih
    by_cases hc : c = sep
    · rw [hc, splitAll_cons_sep, hs, joinWith_cons_cons, ih]
      rfl
    · rw [splitAll_cons hc hs]
      cases parts with
      | nil => rw [← ih, joinWith, joinWith]
      | cons next parts =>
        rw [joinWith_cons_cons] at ih ⊢
        rw [← ih, List.cons_append, List.cons_append]

/-- What is joined holds what the parts and the separator hold. -/
theorem mem_joinWith {between : List Char} {parts : List (List Char)} {c : Char}
    (h : c ∈ joinWith between parts) : c ∈ between ∨ ∃ part ∈ parts, c ∈ part := by
  induction parts with
  | nil => cases h
  | cons part parts ih =>
    cases parts with
    | nil => exact .inr ⟨part, List.mem_cons_self, h⟩
    | cons next parts =>
      rw [joinWith_cons_cons, List.mem_append, List.mem_append] at h
      rcases h with (h | h) | h
      · exact .inr ⟨part, List.mem_cons_self, h⟩
      · exact .inl h
      · refine (ih h).imp_right ?_
        rintro ⟨found, hfound, hc⟩
        exact ⟨found, List.mem_cons_of_mem _ hfound, hc⟩

theorem mem_of_mem_splitAll {s part : List Char} (h : part ∈ splitAll sep s) {c : Char}
    (hc : c ∈ part) : c ∈ s := by
  induction s generalizing part with
  | nil =>
    rw [splitAll, List.mem_singleton] at h
    rwa [h] at hc
  | cons d s ih =>
    by_cases hd : d = sep
    · rw [hd, splitAll_cons_sep, List.mem_cons] at h
      rcases h with rfl | h
      · cases hc
      · exact List.mem_cons_of_mem _ (ih h hc)
    · obtain ⟨first, parts, hs⟩ := List.exists_cons_of_ne_nil (splitAll_ne_nil sep s)
      rw [splitAll_cons hd hs, List.mem_cons] at h
      rcases h with rfl | h
      · rcases List.mem_cons.mp hc with rfl | hc
        · exact List.mem_cons_self
        · exact List.mem_cons_of_mem _ (ih (hs ▸ List.mem_cons_self) hc)
      · exact List.mem_cons_of_mem _ (ih (hs ▸ List.mem_cons_of_mem _ h) hc)

/-- Texts without separators are the parts of what they are joined to. -/
theorem splitAll_joinWith {parts : List (List Char)} (hne : parts ≠ [])
    (h : ∀ part ∈ parts, sep ∉ part) : splitAll sep (joinWith [sep] parts) = parts := by
  induction parts with
  | nil => exact absurd rfl hne
  | cons part parts ih =>
    rw [List.forall_mem_cons] at h
    cases parts with
    | nil => exact splitAll_of_not_mem h.1
    | cons next parts =>
      rw [joinWith_cons_cons, List.append_assoc, List.singleton_append, splitAll_part h.1,
        ih (List.cons_ne_nil _ _) h.2]

/-- Parts with a separator behind each are the parts again, and an empty one behind the last
separator. -/
theorem splitAll_flatMap {parts : List (List Char)} (h : ∀ part ∈ parts, sep ∉ part) :
    splitAll sep (parts.flatMap (· ++ [sep])) = parts ++ [[]] := by
  induction parts with
  | nil => rfl
  | cons part parts ih =>
    rw [List.forall_mem_cons] at h
    rw [List.flatMap_cons, List.append_assoc, List.singleton_append, splitAll_part h.1, ih h.2,
      List.cons_append]

/-- What stands behind a text goes to its last part. -/
theorem exists_lastPart (sep : Char) (s : List Char) : ∃ parts last,
    ∀ back, sep ∉ back → splitAll sep (s ++ back) = parts ++ [last ++ back] := by
  by_cases hs : sep ∈ s
  · obtain ⟨last, front, hreverse, hlast⟩ := List.eq_append_cons_of_mem (List.mem_reverse.mpr hs)
    have htext : s = front.reverse ++ sep :: last.reverse := by
      rw [← List.reverse_reverse s, hreverse]
      simp
    refine ⟨splitAll sep front.reverse, last.reverse, fun back hback ↦ ?_⟩
    have hend : sep ∉ last.reverse ++ back := by
      rw [List.mem_append, List.mem_reverse, not_or]
      exact ⟨hlast, hback⟩
    rw [htext, List.append_assoc, List.cons_append, splitAll_append_sep, splitAll_of_not_mem hend]
  · refine ⟨[], s, fun back hback ↦ splitAll_of_not_mem ?_⟩
    rw [List.mem_append, not_or]
    exact ⟨hs, hback⟩

/-! ## The first separator -/

/-- A span ends where the characters stop that it goes over. -/
theorem span_append {p : Char → Bool} {front rest : List Char} (hfront : ∀ c ∈ front, p c = true)
    (hrest : ∀ c ∈ rest.head?, p c = false) : (front ++ rest).span p = (front, rest) := by
  rw [List.span_eq_takeWhile_dropWhile, List.takeWhile_append_of_pos hfront,
    List.dropWhile_append_of_pos hfront]
  cases rest with
  | nil => rw [List.takeWhile_nil, List.dropWhile_nil, List.append_nil]
  | cons c rest =>
    have hc := hrest c rfl
    rw [List.takeWhile_cons_of_neg (by simp [hc]), List.dropWhile_cons_of_neg (by simp [hc]),
      List.append_nil]

theorem span_part {part : List Char} (hpart : sep ∉ part) (s : List Char) :
    (part ++ sep :: s).span (· ≠ sep) = (part, sep :: s) := by
  refine span_append (fun c hc ↦ decide_eq_true fun heq ↦ hpart (heq ▸ hc)) ?_
  rintro c ⟨⟩
  exact decide_eq_false fun hne ↦ hne rfl

theorem cutAt_part {part : List Char} (hpart : sep ∉ part) (s : List Char) :
    cutAt sep (part ++ sep :: s) = (part, s) := by
  rw [cutAt, span_part hpart]
  rfl

theorem splitMost_part {part : List Char} (hpart : sep ∉ part) (cuts : Nat) (s : List Char) :
    splitMost sep (cuts + 1) (part ++ sep :: s) = part :: splitMost sep cuts s := by
  rw [splitMost, span_part hpart]

/-! ## A property of all parts -/

variable {P : List Char → Prop}

theorem forall_splitAll_front {front s : List Char} (hfront : sep ∉ front)
    (h : ∀ part ∈ splitAll sep s, P part) (keeps : ∀ part, P part → P (front ++ part)) :
    ∀ part ∈ splitAll sep (front ++ s), P part := by
  obtain ⟨first, parts, hs⟩ := List.exists_cons_of_ne_nil (splitAll_ne_nil sep s)
  rw [hs, List.forall_mem_cons] at h
  rw [splitAll_append hfront hs, List.forall_mem_cons]
  exact ⟨keeps first h.1, h.2⟩

theorem forall_splitAll_back {back s : List Char} (hback : sep ∉ back)
    (h : ∀ part ∈ splitAll sep s, P part) (keeps : ∀ part, P part → P (part ++ back)) :
    ∀ part ∈ splitAll sep (s ++ back), P part := by
  by_cases hs : sep ∈ s
  · -- what stands behind the last separator is the last part
    obtain ⟨last, front, hsplit, hlast⟩ := List.eq_append_cons_of_mem (List.mem_reverse.mpr hs)
    obtain rfl : s = front.reverse ++ sep :: last.reverse := by
      rw [← List.reverse_reverse s, hsplit]
      simp
    rw [← List.mem_reverse] at hlast
    rw [splitAll_append_sep, splitAll_of_not_mem hlast, List.forall_mem_append,
      List.forall_mem_singleton] at h
    have hend : sep ∉ last.reverse ++ back := by
      rw [List.mem_append, not_or]
      exact ⟨hlast, hback⟩
    rw [List.append_assoc, List.cons_append, splitAll_append_sep, splitAll_of_not_mem hend,
      List.forall_mem_append, List.forall_mem_singleton]
    exact ⟨h.1, keeps _ h.2⟩
  · have hend : sep ∉ s ++ back := by
      rw [List.mem_append, not_or]
      exact ⟨hs, hback⟩
    rw [splitAll_of_not_mem hs, List.forall_mem_singleton] at h
    rw [splitAll_of_not_mem hend, List.forall_mem_singleton]
    exact keeps s h

end

/-! ## Ends of a text -/

theorem dropWhile_of_head {p : Char → Bool} {s : List Char} (h : ∀ c ∈ s.head?, p c = false) :
    s.dropWhile p = s := by
  cases s with
  | nil => rfl
  | cons c rest => rw [List.dropWhile_cons_of_neg (by simp [h c rfl])]

/-- What does not begin or end with what is dropped stays. -/
theorem stripBy_of_ends {p : Char → Bool} {s : List Char} (hhead : ∀ c ∈ s.head?, p c = false)
    (hlast : ∀ c ∈ s.getLast?, p c = false) : stripBy p s = s := by
  rw [stripBy, dropWhile_of_head hhead, dropWhile_of_head (by rwa [List.head?_reverse]),
    List.reverse_reverse]

theorem stripBy_between {p : Char → Bool} {c d : Char} (hc : p c = false) (hd : p d = false)
    (s : List Char) : stripBy p (c :: (s ++ [d])) = c :: (s ++ [d]) := by
  refine stripBy_of_ends (by rintro _ ⟨⟩; exact hc) ?_
  rw [← List.cons_append, List.getLast?_append]
  rintro _ ⟨⟩
  exact hd

/-- What is dropped goes from both ends of a text without it. -/
theorem stripBy_within {p : Char → Bool} {c d : Char} (hc : p c = true) (hd : p d = true)
    {s : List Char} (hne : s ≠ []) (hs : ∀ e ∈ s, p e = false) :
    stripBy p (c :: (s ++ [d])) = s := by
  have hhead : ∀ e ∈ s.reverse.head?, p e = false :=
    fun e he ↦ hs e (List.mem_reverse.mp (List.mem_of_head? he))
  obtain ⟨e, rest, rfl⟩ := List.exists_cons_of_ne_nil hne
  have hfront : (c :: (e :: rest ++ [d])).dropWhile p = e :: rest ++ [d] := by
    rw [List.dropWhile_cons_of_pos hc, List.cons_append,
      List.dropWhile_cons_of_neg (by simp [hs e List.mem_cons_self])]
  rw [stripBy, hfront, List.reverse_append, List.reverse_singleton, List.singleton_append,
    List.dropWhile_cons_of_pos hd, dropWhile_of_head hhead, List.reverse_reverse]

/-- The last character is there and not blank. -/
def EndsSolid (s : List Char) : Prop := ∃ c, s.getLast? = some c ∧ isBlank c = false

theorem endsSolid_singleton {c : Char} (hc : isBlank c = false) : EndsSolid [c] := ⟨c, rfl, hc⟩

/-- What stands in front of a solid end does not matter. -/
theorem EndsSolid.append {t : List Char} (h : EndsSolid t) (s : List Char) : EndsSolid (s ++ t) := by
  obtain ⟨c, hlast, hc⟩ := h
  exact ⟨c, by rw [List.getLast?_append, hlast, Option.some_or], hc⟩

theorem EndsSolid.cons {t : List Char} (h : EndsSolid t) (c : Char) : EndsSolid (c :: t) :=
  h.append [c]

theorem EndsSolid.exists_mem {s : List Char} (h : EndsSolid s) : ∃ c ∈ s, isBlank c = false := by
  obtain ⟨c, hlast, hc⟩ := h
  exact ⟨c, List.mem_of_getLast? hlast, hc⟩

/-- A part at the end of what ends solid does so too. -/
theorem EndsSolid.of_append {s t : List Char} (h : EndsSolid (s ++ t)) (ht : t ≠ []) :
    EndsSolid t := by
  obtain ⟨c, hlast, hc⟩ := h
  rw [List.getLast?_append_of_ne_nil _ ht] at hlast
  exact ⟨c, hlast, hc⟩

theorem EndsSolid.all_isBlank {s : List Char} (h : EndsSolid s) : s.all isBlank = false := by
  obtain ⟨c, hc, hsolid⟩ := h.exists_mem
  exact List.all_eq_false.mpr ⟨c, hc, by simp [hsolid]⟩

/-- The last part of what ends solid does so too, if a blank separates the parts. -/
theorem EndsSolid.getLast?_splitAll {sep : Char} (hsep : isBlank sep = true) {s : List Char}
    (h : EndsSolid s) : ∀ part ∈ (splitAll sep s).getLast?, EndsSolid part := by
  obtain ⟨parts, last, hlast⟩ := exists_lastPart sep s
  have hparts := hlast [] List.not_mem_nil
  rw [List.append_nil, List.append_nil] at hparts
  have hjoin := joinWith_splitAll sep s
  rw [hparts] at hjoin
  rw [hparts, List.getLast?_append]
  rintro part ⟨⟩
  by_cases hnil : parts = []
  · rw [hnil, List.nil_append, joinWith] at hjoin
    exact hjoin ▸ h
  · rw [joinWith_append _ hnil (List.cons_ne_nil _ _)] at hjoin
    have hends : EndsSolid ([sep] ++ last) := (hjoin ▸ h).of_append (by simp)
    refine hends.of_append fun hempty ↦ ?_
    have hsolid := hends.all_isBlank
    rw [hempty, List.append_nil, List.all_cons, hsep] at hsolid
    cases hsolid

/-- Trimming at the end drops what is blank behind a solid end, and nothing else. -/
theorem EndsSolid.trimBack_append {s t : List Char} (h : EndsSolid s)
    (ht : ∀ c ∈ t, isBlank c = true) : trimBack (s ++ t) = s := by
  obtain ⟨c, hlast, hc⟩ := h
  obtain ⟨front, rfl⟩ := List.getLast?_eq_some_iff.mp hlast
  rw [trimBack, List.reverse_append,
    List.dropWhile_append_of_pos fun d hd ↦ ht d (List.mem_reverse.mp hd), List.reverse_append,
    List.reverse_singleton, List.singleton_append, List.dropWhile_cons_of_neg (by simp [hc]),
    List.reverse_cons, List.reverse_reverse]

theorem EndsSolid.trimBack_eq {s : List Char} (h : EndsSolid s) : trimBack s = s := by
  have := h.trimBack_append (t := []) (by simp)
  rwa [List.append_nil] at this

/-- Trimming at the end does not reach what stands in front of something solid. -/
theorem trimBack_append {t : List Char} (ht : t.all isBlank = false) (s : List Char) :
    trimBack (s ++ t) = s ++ trimBack t := by
  have hsome : (t.reverse.dropWhile isBlank).isEmpty = false := by
    rw [List.isEmpty_eq_false_iff]
    intro hnil
    rw [List.dropWhile_eq_nil_iff] at hnil
    rw [List.all_eq_true.mpr fun c hc ↦ hnil c (List.mem_reverse.mpr hc)] at ht
    cases ht
  rw [trimBack, List.reverse_append, List.dropWhile_append, hsome, if_neg Bool.false_ne_true,
    List.reverse_append, List.reverse_reverse, trimBack]

/-- Trimming at the end drops what is blank. -/
theorem trimBack_append_blank {t : List Char} (ht : ∀ c ∈ t, isBlank c = true) (s : List Char) :
    trimBack (s ++ t) = trimBack s := by
  rw [trimBack, List.reverse_append,
    List.dropWhile_append_of_pos fun c hc ↦ ht c (List.mem_reverse.mp hc), trimBack]

/-- What trimming at the end drops is blank. -/
theorem exists_trimBack_append (s : List Char) :
    ∃ blanks, (∀ c ∈ blanks, isBlank c = true) ∧ s = trimBack s ++ blanks := by
  refine ⟨(s.reverse.takeWhile isBlank).reverse, fun c hc ↦ ?_, ?_⟩
  · exact List.mem_takeWhile_imp (List.mem_reverse.mp hc)
  · rw [trimBack, ← List.reverse_append, List.takeWhile_append_dropWhile, List.reverse_reverse]

theorem mem_of_mem_trimBack {s : List Char} {c : Char} (h : c ∈ trimBack s) : c ∈ s := by
  obtain ⟨blanks, -, hs⟩ := exists_trimBack_append s
  rw [hs]
  exact List.mem_append_left _ h

theorem trimBack_trimBack (s : List Char) : trimBack (trimBack s) = trimBack s := by
  rw [trimBack, trimBack, List.reverse_reverse, List.dropWhile_idempotent]

theorem all_isBlank_trimBack (s : List Char) : (trimBack s).all isBlank = s.all isBlank := by
  obtain ⟨blanks, hblanks, hs⟩ := exists_trimBack_append s
  conv_rhs => rw [hs, List.all_append, List.all_eq_true.mpr hblanks, Bool.and_true]

theorem all_isBlank_trimFront (s : List Char) : (trimFront s).all isBlank = s.all isBlank := by
  have hfront : (s.takeWhile isBlank).all isBlank = true :=
    List.all_eq_true.mpr fun _ hc ↦ List.mem_takeWhile_imp hc
  conv_rhs => rw [← List.takeWhile_append_dropWhile (p := isBlank) (l := s), List.all_append, hfront]
  rfl

theorem trimFront_cons {c : Char} (hc : isBlank c = false) (s : List Char) :
    trimFront (c :: s) = c :: s := by
  rw [trimFront, List.dropWhile_cons_of_neg (by simp [hc])]

theorem trimFront_append {s : List Char} (hne : s ≠ []) (hhead : ∀ c ∈ s.head?, isBlank c = false)
    (t : List Char) : trimFront (s ++ t) = s ++ t := by
  obtain ⟨c, rest, rfl⟩ := List.exists_cons_of_ne_nil hne
  exact trimFront_cons (hhead c rfl) _

/-- Trimming in front does not reach what stands behind something solid. -/
theorem trimFront_append_of_some {s : List Char} (hs : s.all isBlank = false) (t : List Char) :
    trimFront (s ++ t) = trimFront s ++ t := by
  rw [trimFront, List.dropWhile_append, if_neg, trimFront]
  rw [List.isEmpty_iff, List.dropWhile_eq_nil_iff, ← List.all_eq_true, hs]
  exact Bool.false_ne_true

/-- Trimming at the end stops at what is not blank. -/
theorem trimBack_append_cons {c : Char} (hc : isBlank c = false) (s t : List Char) :
    trimBack (s ++ c :: t) = s ++ c :: trimBack t := by
  by_cases ht : t.all isBlank = true
  · have hnil : trimBack t = [] := by
      rw [trimBack, List.reverse_eq_nil_iff, List.dropWhile_eq_nil_iff]
      exact fun d hd ↦ List.all_eq_true.mp ht d (List.mem_reverse.mp hd)
    rw [hnil, List.append_cons, trimBack_append_blank (List.all_eq_true.mp ht)]
    exact ((endsSolid_singleton hc).append s).trimBack_eq
  · rw [Bool.not_eq_true] at ht
    rw [List.append_cons, trimBack_append ht, ← List.append_cons]

/-- A text that is not all blank and that trimming at the end leaves alone ends solid. -/
theorem endsSolid_of_trimBack {s : List Char} (hblank : s.all isBlank = false)
    (htrim : trimBack s = s) : EndsSolid s := by
  have hhead := List.head?_dropWhile_not isBlank s.reverse
  have hreverse : s.reverse.dropWhile isBlank = s.reverse := by
    rw [← List.reverse_reverse (s.reverse.dropWhile isBlank), ← trimBack, htrim]
  rw [hreverse, List.head?_reverse] at hhead
  rw [EndsSolid]
  cases hlast : s.getLast? with
  | none =>
    rw [List.getLast?_eq_none_iff] at hlast
    rw [hlast] at hblank
    cases hblank
  | some c =>
    rw [hlast] at hhead
    exact ⟨c, rfl, hhead⟩

/-- Trimming leaves a solid end, or nothing. -/
theorem endsSolid_trimBack {s : List Char} (hne : trimBack s ≠ []) : EndsSolid (trimBack s) := by
  refine endsSolid_of_trimBack ?_ (trimBack_trimBack s)
  rw [all_isBlank_trimBack, ← Bool.not_eq_true, List.all_eq_true]
  intro hall
  refine hne ?_
  rw [trimBack, List.dropWhile_eq_nil_iff.mpr fun c hc ↦ hall c (List.mem_reverse.mp hc)]
  rfl

/-- A text that is not all blank and that trimming leaves alone ends solid. -/
theorem endsSolid_of_trim {s : List Char} (hblank : s.all isBlank = false) (htrim : trim s = s) :
    EndsSolid s := by
  refine endsSolid_of_trimBack hblank ?_
  rw [← htrim, trim, trimBack_trimBack]

/-- What trimming drops is blank. -/
theorem exists_trim_append (s : List Char) :
    ∃ front back, (∀ c ∈ front, isBlank c = true) ∧ (∀ c ∈ back, isBlank c = true) ∧
      s = front ++ trim s ++ back := by
  obtain ⟨back, hback, hs⟩ := exists_trimBack_append (trimFront s)
  refine ⟨s.takeWhile isBlank, back, fun c hc ↦ List.mem_takeWhile_imp hc, hback, ?_⟩
  rw [List.append_assoc, trim, ← hs, trimFront, List.takeWhile_append_dropWhile]

theorem trim_trim (s : List Char) : trim (trim s) = trim s := by
  have hfront : trimFront (trimBack (trimFront s)) = trimBack (trimFront s) := by
    have hhead := List.head?_dropWhile_not isBlank s
    rw [← trimFront] at hhead
    cases hs : trimFront s with
    | nil => rfl
    | cons c rest =>
      rw [hs] at hhead
      rw [← List.nil_append (c :: rest), trimBack_append_cons hhead, List.nil_append,
        trimFront_cons hhead]
  rw [trim, trim, hfront, trimBack_trimBack]

/-- A text that trimming leaves alone and that is not empty is not all blank. -/
theorem all_isBlank_of_trim {s : List Char} (hne : s ≠ []) (htrim : trim s = s) :
    s.all isBlank = false := by
  rw [← Bool.not_eq_true, List.all_eq_true]
  intro hall
  rw [trim, trimFront, List.dropWhile_eq_nil_iff.mpr hall] at htrim
  exact hne htrim.symm

/-! ## Occurrences -/

theorem occursIn_of_not_mem {c : Char} {s : List Char} (hs : c ∉ s) (pattern : List Char) :
    occursIn (c :: pattern) s = false := by
  induction s with
  | nil => rfl
  | cons d s ih =>
    rw [List.mem_cons, not_or] at hs
    rw [occursIn, ih hs.2, List.isPrefixOf_cons_cons, beq_eq_false_iff_ne.mpr hs.1, Bool.false_and,
      Bool.or_false]

/-- A word that does not hold a character is not looked for behind it. -/
theorem isPrefixOf_append_cons {c : Char} {word : List Char} (hword : c ∉ word) (s t : List Char) :
    word.isPrefixOf (s ++ c :: t) = word.isPrefixOf s := by
  induction word generalizing s with
  | nil => rfl
  | cons d word ih =>
    rw [List.mem_cons, not_or] at hword
    cases s with
    | nil =>
      rw [List.nil_append, List.isPrefixOf_cons_cons, beq_eq_false_iff_ne.mpr (Ne.symm hword.1),
        Bool.false_and]
      rfl
    | cons e s =>
      rw [List.cons_append, List.isPrefixOf_cons_cons, List.isPrefixOf_cons_cons, ih hword.2]

/-- Texts with a character between them open with a word if the first one does. -/
theorem isPrefixOf_joinWith {c : Char} {word : List Char} (hword : c ∉ word) (part : List Char)
    (parts : List (List Char)) :
    word.isPrefixOf (joinWith [c] (part :: parts)) = word.isPrefixOf part := by
  cases parts with
  | nil => rfl
  | cons next parts =>
    rw [joinWith_cons_cons, List.append_assoc, List.singleton_append, isPrefixOf_append_cons hword]

/-- Texts that count a character alike end at the same one of its kind. -/
theorem append_cons_inj_of_count {c : Char} {s t u v : List Char} (h : s ++ c :: u = t ++ c :: v)
    (hcount : s.count c = t.count c) : s = t ∧ u = v := by
  have hsame : ∀ {s t u v : List Char}, s.count c = t.count c →
      (∃ more, t = s ++ more ∧ c :: u = more ++ c :: v) → s = t ∧ u = v := by
    rintro s t u v hcount ⟨more, rfl, hmore⟩
    cases more with
    | nil => exact ⟨(List.append_nil s).symm, (List.cons.inj hmore).2⟩
    | cons d more =>
      obtain ⟨rfl, -⟩ := List.cons.inj hmore
      rw [List.count_append, List.count_cons_self] at hcount
      omega
  rcases List.append_eq_append_iff.mp h with hmore | hmore
  · exact hsame hcount hmore
  · obtain ⟨hst, huv⟩ := hsame hcount.symm hmore
    exact ⟨hst.symm, huv.symm⟩

/-! ## Replacing -/

theorem replaceChar_nil (old : Char) (new : List Char) : replaceChar old new [] = [] := rfl

theorem replaceChar_append (old : Char) (new s t : List Char) :
    replaceChar old new (s ++ t) = replaceChar old new s ++ replaceChar old new t :=
  List.flatMap_append

theorem replaceChar_cons_self (old : Char) (new s : List Char) :
    replaceChar old new (old :: s) = new ++ replaceChar old new s := by
  rw [replaceChar, List.flatMap_cons, if_pos rfl, ← replaceChar]

theorem replaceChar_cons {old c : Char} (hc : c ≠ old) (new s : List Char) :
    replaceChar old new (c :: s) = c :: replaceChar old new s := by
  rw [replaceChar, List.flatMap_cons, if_neg hc, ← replaceChar, List.singleton_append]

theorem replaceChar_of_not_mem {old : Char} {s : List Char} (hs : old ∉ s) (new : List Char) :
    replaceChar old new s = s := by
  induction s with
  | nil => rfl
  | cons c s ih =>
    rw [List.mem_cons, not_or] at hs
    rw [replaceChar_cons (Ne.symm hs.1), ih hs.2]

theorem replaceChar_self (c : Char) (s : List Char) : replaceChar c [c] s = s := by
  induction s with
  | nil => rfl
  | cons d s ih =>
    by_cases hd : d = c
    · rw [hd, replaceChar_cons_self, ih, List.singleton_append]
    · rw [replaceChar_cons hd, ih]

theorem not_mem_replaceChar {c : Char} (old : Char) {new s : List Char} (hs : c ∉ s)
    (hnew : c ∉ new) :
    c ∉ replaceChar old new s := by
  rw [replaceChar, List.mem_flatMap]
  rintro ⟨d, hd, hmem⟩
  split at hmem
  · exact hnew hmem
  · rw [List.mem_singleton.mp hmem] at hs
    exact hs hd

theorem self_not_mem_replaceChar {old : Char} {new : List Char} (hnew : old ∉ new) (s : List Char) :
    old ∉ replaceChar old new s := by
  rw [replaceChar, List.mem_flatMap]
  rintro ⟨d, -, hmem⟩
  split at hmem
  · exact hnew hmem
  · rename_i hd
    exact hd (List.mem_singleton.mp hmem).symm

/-- What is replaced is blank, so a solid end stays. -/
theorem EndsSolid.replaceChar {s : List Char} (h : EndsSolid s) {old : Char}
    (hold : isBlank old = true) (new : List Char) : EndsSolid (replaceChar old new s) := by
  obtain ⟨c, hlast, hc⟩ := h
  obtain ⟨front, rfl⟩ := List.getLast?_eq_some_iff.mp hlast
  have hne : c ≠ old := by
    rintro rfl
    rw [hold] at hc
    cases hc
  rw [replaceChar_append, replaceChar_cons hne, replaceChar_nil]
  exact (endsSolid_singleton hc).append _

/-- A pattern whose first character a text does not hold is nowhere in the text. -/
theorem replaceAll_of_not_mem {c : Char} {s : List Char} (hs : c ∉ s) (pattern new : List Char) :
    replaceAll (c :: pattern) new s = s := by
  induction s with
  | nil => rfl
  | cons d s ih =>
    rw [List.mem_cons, not_or] at hs
    rw [replaceAll, replaceFrom, if_neg (by simp [List.isPrefixOf, hs.1])]
    exact congrArg (d :: ·) (ih hs.2)

/-- A character for which two others were put is brought back, if the text does not hold the first of
these. -/
theorem replaceAll_replaceChar {old c : Char} {s : List Char} (hs : c ∉ s) (d : Char) :
    replaceAll [c, d] [old] (replaceChar old [c, d] s) = s := by
  induction s with
  | nil => rfl
  | cons e s ih =>
    rw [List.mem_cons, not_or] at hs
    by_cases he : e = old
    · rw [he, replaceChar_cons_self, List.cons_append, List.singleton_append, replaceAll,
        replaceFrom, if_pos (by simp [List.isPrefixOf])]
      exact congrArg (old :: ·) (ih hs.2)
    · rw [replaceChar_cons he, replaceAll, replaceFrom, if_neg (by simp [List.isPrefixOf, hs.1])]
      exact congrArg (e :: ·) (ih hs.2)

/-! ## Line ends -/

/-- Where all line ends are line feeds there are no carriage returns. -/
theorem not_mem_unifyLineEnds (s : List Char) : '\r' ∉ unifyLineEnds s := by
  fun_induction unifyLineEnds s with
  | case1 => exact List.not_mem_nil
  | case2 rest ih => exact List.not_mem_cons_of_ne_of_not_mem (by decide) ih
  | case3 c rest _ ih =>
    refine List.not_mem_cons_of_ne_of_not_mem ?_ ih
    split
    · decide
    · rename_i hc
      exact Ne.symm hc

theorem unifyLineEnds_append {s : List Char} (hs : '\r' ∉ s) (t : List Char) :
    unifyLineEnds (s ++ t) = s ++ unifyLineEnds t := by
  induction s with
  | nil => rfl
  | cons c s ih =>
    rw [List.mem_cons, not_or] at hs
    rw [List.cons_append, unifyLineEnds.eq_3, if_neg (Ne.symm hs.1), ih hs.2, List.cons_append]
    intro _ h
    exact absurd h.symm hs.1

theorem unifyLineEnds_of_not_mem {s : List Char} (hs : '\r' ∉ s) : unifyLineEnds s = s := by
  have := unifyLineEnds_append hs []
  rwa [unifyLineEnds, List.append_nil] at this

/-- The line ends that are written. -/
def IsLineEnd (eol : List Char) : Prop := eol = ['\n'] ∨ eol = ['\r', '\n']

/-- **Line ends are brought back to the line feeds that they were made from.** -/
theorem unifyLineEnds_replaceChar {eol : List Char} (heol : IsLineEnd eol) {s : List Char}
    (hs : '\r' ∉ s) : unifyLineEnds (replaceChar '\n' eol s) = s := by
  induction s with
  | nil => rfl
  | cons c s ih =>
    rw [List.mem_cons, not_or] at hs
    by_cases hc : c = '\n'
    · rw [hc, replaceChar_cons_self]
      rcases heol with rfl | rfl
      · rw [unifyLineEnds_append (by decide), ih hs.2, List.singleton_append]
      · rw [List.cons_append, List.singleton_append, unifyLineEnds, ih hs.2]
    · rw [replaceChar_cons hc, ← List.singleton_append,
        unifyLineEnds_append (by simpa using hs.1), ih hs.2, List.singleton_append]

/-- **A document is brought back to its plain form**, whatever its line ends and whether or not a
mark opens it. -/
theorem normalizeText_written (mark : List Char) {eol : List Char} (hmark : ∀ c ∈ mark, c = byteOrderMark)
    (heol : IsLineEnd eol) {s : List Char} (hs : '\r' ∉ s)
    (hopen : ∀ c ∈ s.head?, c ≠ byteOrderMark ∧ c ≠ '\n') :
    normalizeText (mark ++ replaceChar '\n' eol s) = s := by
  have hdrop : (mark ++ replaceChar '\n' eol s).dropWhile (· == byteOrderMark)
      = replaceChar '\n' eol s := by
    rw [List.dropWhile_append_of_pos fun c hc ↦ beq_iff_eq.mpr (hmark c hc)]
    cases s with
    | nil => rfl
    | cons c s =>
      obtain ⟨hc, hfeed⟩ := hopen c rfl
      rw [replaceChar_cons hfeed, List.dropWhile_cons_of_neg (by simpa using hc)]
  rw [normalizeText, hdrop, unifyLineEnds_replaceChar heol hs]

end Montage
