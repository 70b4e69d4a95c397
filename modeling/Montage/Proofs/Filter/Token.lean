import Mathlib.Data.List.Forall2
import Mathlib.Logic.Function.Basic
import Montage.Proofs.Filter.Reader
import Montage.Proofs.Text.Lines

/-!
# Texts that are read as one token

A text is read as a token if its characters are taken up to its end (`Scans`), and if no white
space at its ends is lost (`Reads`).  Both hold of a text that is put together from texts of which
they hold, so that the escapes of `Montage.Filter.Escape` are checked piece by piece: a character
that means nothing to the reader, a character behind a backslash, and a part between quotes.

What is escaped for the readers of a graph is given back by reading it twice: once as the graph is
read and once as its options are (`escapes_undone`).  Neither reading looks for marks here, as there
is nothing behind the text.  That makes no difference: a reader that looks for marks and comes to the
end of a text without one has taken what a reader takes that does not look for any
(`takeToken_of_scan`).  So what is known of tokens among others carries over to tokens that stand
alone.
-/

set_option autoImplicit false

namespace Montage
namespace Reading

open Montage.Filter

variable {stop : Char → Bool} {s t u v : List Char} {a b : List Taken}

/-- A character that means nothing to the reader of tokens. -/
structure Harmless (stop : Char → Bool) (c : Char) : Prop where
  not_stop : stop c = false
  not_quote : c ≠ '\''
  not_backslash : c ≠ '\\'

/-- The text is scanned up to its end, whatever follows. -/
def Scans (stop : Char → Bool) (s : List Char) (taken : List Taken) : Prop :=
  ∀ rest, scan stop (s ++ rest) = (taken ++ (scan stop rest).1, (scan stop rest).2)

namespace Scans

theorem nil : Scans stop [] [] := fun _ ↦ rfl

theorem append (h : Scans stop s a) (k : Scans stop t b) : Scans stop (s ++ t) (a ++ b) := by
  intro rest
  rw [List.append_assoc, h, k, List.append_assoc]

theorem loose {c : Char} (h : Harmless stop c) : Scans stop [c] [.loose c] := by
  intro rest
  rw [List.singleton_append, scan.eq_def]
  dsimp only
  rw [if_neg (by simp [h.not_stop]), if_neg h.not_quote]
  cases rest with
  | nil => simp [scan]
  | cons d later => simp [h.not_backslash]

theorem held (hb : stop '\\' = false) (c : Char) : Scans stop ['\\', c] [.held c] := by
  intro rest
  rw [List.cons_append, List.singleton_append, scan.eq_def]
  simp [hb]

theorem plain (h : ∀ c ∈ s, Harmless stop c) : Scans stop s (s.map .loose) := by
  induction s with
  | nil => exact nil
  | cons c rest ih =>
    exact (loose (h c List.mem_cons_self)).append (ih fun d hd ↦ h d (List.mem_cons_of_mem _ hd))

/-- Special characters behind backslashes are held, the others are loose. -/
theorem backslashed {special : Char → Bool} (hb : stop '\\' = false)
    (h : ∀ c, special c = false → Harmless stop c) (s : List Char) :
    Scans stop (backslashed special s) (s.map fun c ↦ if special c then .held c else .loose c) := by
  induction s with
  | nil => exact nil
  | cons c rest ih =>
    rw [Filter.backslashed, List.flatMap_cons, List.map_cons]
    refine append (a := [_]) ?_ ih
    by_cases hc : special c = true
    · rw [if_pos hc, if_pos hc]
      exact held hb c
    · rw [if_neg hc, if_neg hc]
      exact loose (h c (by simpa using hc))

/-- The characters of a text between quotes, each quote closing and held on its own. -/
def quotedTaken (s : List Char) : List Taken :=
  s.flatMap fun c ↦ if c = '\'' then [.closing, .held '\''] else [.loose c]

theorem scan_quote (hq : stop '\'' = false) (s : List Char) :
    scan stop ('\'' :: s) = scanQuoted stop s := by
  rw [scan.eq_def]
  simp [hq]

theorem scanQuoted_body (hq : stop '\'' = false) (hb : stop '\\' = false) (s rest : List Char) :
    scanQuoted stop (s.flatMap (fun c ↦ if c = '\'' then ['\'', '\\', '\'', '\''] else [c]) ++ rest)
      = (quotedTaken s ++ (scanQuoted stop rest).1, (scanQuoted stop rest).2) := by
  induction s with
  | nil => rfl
  | cons c later ih =>
    rw [List.flatMap_cons, List.append_assoc, quotedTaken, List.flatMap_cons, List.append_assoc]
    by_cases hc : c = '\''
    · -- the quote closes, a held quote follows, and the next one opens again
      rw [if_pos hc, if_pos hc]
      simp [scanQuoted, scan, hb, scan_quote hq, ih, quotedTaken]
    · rw [if_neg hc, if_neg hc, List.singleton_append, scanQuoted, if_neg hc, ih]
      rfl

/-- A text between quotes. -/
theorem quoted (hq : stop '\'' = false) (hb : stop '\\' = false) (s : List Char) :
    Scans stop ('\'' :: s.flatMap (fun c ↦ if c = '\'' then ['\'', '\\', '\'', '\''] else [c])
      ++ ['\'']) (quotedTaken s ++ [.closing]) := by
  intro rest
  rw [List.cons_append, List.cons_append, List.append_assoc, scan_quote hq, scanQuoted_body hq hb,
    List.singleton_append, scanQuoted, if_pos rfl, List.append_assoc]
  rfl

end Scans

/-! ## White space at the ends -/

/-- Nothing at the end would be trimmed. -/
def Firm (taken : List Taken) : Prop := ∀ t ∈ taken.getLast?, t.isLooseSpace = false

theorem Firm.append (h : Firm a) (k : Firm b) : Firm (a ++ b) := by
  intro t ht
  rw [List.getLast?_append] at ht
  cases hb : b.getLast? with
  | none =>
    rw [hb] at ht
    exact h t ht
  | some u =>
    rw [hb] at ht
    obtain rfl : u = t := Option.some.inj ht
    exact k u hb

theorem settled_of_firm (h : Firm a) : settled a = a.filterMap Taken.char? := by
  rw [settled]
  congr 1
  rcases List.eq_nil_or_concat' a with rfl | ⟨init, last, rfl⟩
  · rfl
  · have hlast := h last (by simp)
    simp [hlast]

/-- The text is read as a token that gives the value. -/
structure Reads (stop : Char → Bool) (s value : List Char) : Prop where
  scans : ∃ taken, Scans stop s taken ∧ Firm taken ∧ taken.filterMap Taken.char? = value
  head : ∀ c ∈ s.head?, isEdgeSpace c = false

namespace Reads

theorem nil : Reads stop [] [] where
  scans := ⟨[], .nil, by simp [Firm], rfl⟩
  head := by simp

theorem append (h : Reads stop s u) (k : Reads stop t v) : Reads stop (s ++ t) (u ++ v) where
  scans := by
    obtain ⟨a, hs, ha, rfl⟩ := h.scans
    obtain ⟨b, ht, hb, rfl⟩ := k.scans
    exact ⟨a ++ b, hs.append ht, ha.append hb, List.filterMap_append⟩
  head := by
    intro c hc
    cases s with
    | nil => exact k.head c hc
    | cons d rest => exact h.head c hc

/-- Characters that mean nothing and are not white space stand for themselves. -/
theorem plain (h : ∀ c ∈ s, Harmless stop c ∧ isEdgeSpace c = false) : Reads stop s s where
  scans := by
    refine ⟨s.map .loose, .plain fun c hc ↦ (h c hc).1, ?_, ?_⟩
    · intro t ht
      rw [List.getLast?_map] at ht
      obtain ⟨c, hc, rfl⟩ := Option.map_eq_some_iff.mp ht
      exact (h c (List.mem_of_getLast? hc)).2
    · rw [List.filterMap_map]
      exact List.filterMap_some
  head := fun c hc ↦ (h c (List.mem_of_head? hc)).2

theorem joinWith {mark : Char} {texts values : List (List Char)} (hm : Reads stop [mark] [mark])
    (h : List.Forall₂ (Reads stop) texts values) :
    Reads stop (Montage.joinWith [mark] texts) (Montage.joinWith [mark] values) := by
  induction h with
  | nil => exact nil
  | @cons text value texts values htext htexts ih =>
    cases htexts with
    | nil => exact htext
    | cons htext' htexts' => exact (htext.append hm).append ih

end Reads

/-- A token that is read to its end leaves what stops it. -/
theorem token_of_reads (hspace : ∀ c, stop c = true → isEdgeSpace c = false) {rest : List Char}
    (h : Reads stop s v) (hrest : Stops stop rest) : token stop (s ++ rest) = (v, rest) := by
  obtain ⟨taken, hs, hfirm, rfl⟩ := h.scans
  have hstart : (s ++ rest).dropWhile isEdgeSpace = s ++ rest := by
    refine dropWhile_of_head fun c hc ↦ ?_
    cases s with
    | nil => exact hspace c (hrest c hc)
    | cons d later => exact h.head c hc
  have hstop : scan stop rest = ([], rest) := by
    cases rest with
    | nil => rfl
    | cons c later =>
      rw [scan.eq_def]
      simp [hrest c rfl]
  rw [token, hstart, hs, hstop, List.append_nil, ← settled_of_firm hfirm]

/-! ## Escapes -/

theorem not_special {c : Char} (h : isGraphSpecial c = false) : Harmless isArgsStop c := by
  simp only [isGraphSpecial, Bool.or_eq_false_iff, beq_eq_false_iff_ne] at h
  obtain ⟨⟨⟨⟨⟨hback, hquote⟩, hopen⟩, hclose⟩, hcomma⟩, hsemi⟩ := h
  exact ⟨by simp [isArgsStop, hopen, hclose, hcomma, hsemi], hquote, hback⟩

theorem hasEdgeSpace_eq_false : hasEdgeSpace s = false
    ↔ (∀ c ∈ s.head?, isEdgeSpace c = false) ∧ ∀ c ∈ s.getLast?, isEdgeSpace c = false := by
  rw [hasEdgeSpace, Bool.or_eq_false_iff]
  refine and_congr ?_ ?_
  · cases s.head? <;> simp
  · cases s.getLast? <;> simp

/-- **A text that is escaped for the graph is read from the graph.** -/
theorem reads_escapeGraph (h : hasEdgeSpace s = false) :
    Reads isArgsStop (escapeGraph s) s where
  scans := by
    refine ⟨_, .backslashed rfl (fun c hc ↦ not_special hc) s, ?_, ?_⟩
    · intro t ht
      rw [List.getLast?_map] at ht
      obtain ⟨c, hc, rfl⟩ := Option.map_eq_some_iff.mp ht
      split
      · rfl
      · exact (hasEdgeSpace_eq_false.mp h).2 c hc
    · rw [List.filterMap_map]
      refine (List.filterMap_congr fun c _ ↦ ?_).trans List.filterMap_some
      dsimp only [Function.comp]
      split <;> rfl
  head := by
    intro c hc
    cases s with
    | nil => cases hc
    | cons d rest =>
      rw [escapeGraph, backslashed, List.flatMap_cons] at hc
      by_cases hd : isGraphSpecial d = true
      · rw [if_pos hd] at hc
        obtain rfl : '\\' = c := Option.some.inj hc
        rfl
      · rw [if_neg hd] at hc
        obtain rfl : d = c := Option.some.inj hc
        exact (hasEdgeSpace_eq_false.mp h).1 d rfl

/-- A text between quotes has no white space at its ends. -/
theorem hasEdgeSpace_quoteOption (s : List Char) : hasEdgeSpace (quoteOption s) = false := by
  rw [quoteOption]
  split
  · rw [hasEdgeSpace_eq_false]
    constructor
    · rintro c ⟨⟩
      rfl
    · intro c hc
      rw [List.getLast?_concat, Option.mem_some] at hc
      exact hc ▸ rfl
  · rename_i h
    simp only [Bool.or_eq_true, not_or] at h
    simpa using h.2

theorem filterMap_quotedTaken (s : List Char) :
    (Scans.quotedTaken s ++ [Taken.closing]).filterMap Taken.char? = s := by
  induction s with
  | nil => rfl
  | cons c rest ih =>
    rw [Scans.quotedTaken, List.flatMap_cons, List.append_assoc, List.filterMap_append]
    refine Eq.trans (congrArg₂ (· ++ ·) ?_ ih) List.singleton_append
    split
    · rename_i hc
      rw [hc]
      rfl
    · rfl

theorem not_optionSpecial {c : Char} (h : isOptionSpecial c = false) : Harmless isColon c := by
  simp only [isOptionSpecial, Bool.or_eq_false_iff, beq_eq_false_iff_ne] at h
  exact ⟨by simp [isColon, h.2], h.1.2, h.1.1⟩

/-- **A text that is quoted as an option is read from the options.** -/
theorem reads_quoteOption (s : List Char) : Reads isColon (quoteOption s) s := by
  rw [quoteOption]
  split
  · refine ⟨⟨_, .quoted rfl rfl s, ?_, filterMap_quotedTaken s⟩, ?_⟩
    · intro t ht
      rw [List.getLast?_concat, Option.mem_some] at ht
      exact ht ▸ rfl
    · rintro c ⟨⟩
      rfl
  · rename_i h
    simp only [Bool.or_eq_true, not_or, List.any_eq_true, not_exists, not_and] at h
    obtain ⟨hspecial, hspace⟩ := h
    rw [Bool.not_eq_true, hasEdgeSpace_eq_false] at hspace
    refine ⟨⟨_, .plain fun c hc ↦ not_optionSpecial (by simpa using hspecial c hc), ?_, ?_⟩,
      hspace.1⟩
    · intro t ht
      rw [List.getLast?_map] at ht
      obtain ⟨c, hc, rfl⟩ := Option.map_eq_some_iff.mp ht
      exact hspace.2 c hc
    · rw [List.filterMap_map]
      exact List.filterMap_some

theorem expand_cons {c : Char} (hp : c ≠ '%') (hb : c ≠ '\\') (s : List Char) :
    expand (c :: s) = (expand s).map (c :: ·) := by
  rw [expand.eq_def]
  cases s with
  | nil => simp [hp, expand]
  | cons d later => simp [hp, hb]

theorem expand_backslash (c : Char) (s : List Char) :
    expand ('\\' :: c :: s) = (expand s).map (c :: ·) := by
  rw [expand.eq_def]
  simp

/-- **A text that is escaped for display is shown as it is.** -/
theorem expand_escapeExpansion (s : List Char) : expand (escapeExpansion s) = some s := by
  induction s with
  | nil => rfl
  | cons c rest ih =>
    rw [escapeExpansion, backslashed, List.flatMap_cons]
    rw [escapeExpansion, backslashed] at ih
    split
    · rw [List.cons_append, List.singleton_append, expand_backslash, ih, Option.map_some]
    · rename_i hc
      simp only [Bool.or_eq_true, beq_iff_eq, not_or] at hc
      rw [List.singleton_append, expand_cons hc.2 hc.1, ih, Option.map_some]

/-! ## Tokens that stand alone -/

mutual

/-- A token that nothing stops is taken as if there were no marks. -/
theorem takeToken_of_scan : ∀ s, (scan stop s).2 = [] → takeToken s = (scan stop s).1
  | [], _ => rfl
  | [c], h => by
    rw [scan] at h ⊢
    split at h
    · cases h
    rename_i hstop
    rw [if_neg hstop]
    split at h
    · rename_i hquote
      rw [hquote]
      rfl
    · rename_i hquote
      rw [if_neg hquote]
      simp [takeToken, hquote]
  | c :: d :: later, h => by
    rw [scan] at h ⊢
    split at h
    · cases h
    rename_i hstop
    rw [if_neg hstop]
    split at h
    · rename_i hquote
      rw [hquote, if_pos rfl, takeToken, if_pos rfl]
      · exact takeQuoted_of_scan (d :: later) h
      · rintro _ _ ⟨⟩
    rename_i hquote
    rw [if_neg hquote]
    dsimp only at h ⊢
    split at h
    · rename_i hback
      rw [hback, if_pos rfl, takeToken]
      exact congrArg _ (takeToken_of_scan later h)
    · rename_i hback
      rw [if_neg hback, takeToken, if_neg hquote]
      · exact congrArg _ (takeToken_of_scan (d :: later) h)
      · rintro _ _ rfl
        exact absurd rfl hback

/-- A part between quotes is taken alike. -/
theorem takeQuoted_of_scan :
    ∀ s, (scanQuoted stop s).2 = [] → takeQuoted s = (scanQuoted stop s).1
  | [], _ => rfl
  | c :: rest, h => by
    rw [scanQuoted] at h ⊢
    rw [takeQuoted]
    split at h
    · rename_i hquote
      rw [if_pos hquote, if_pos hquote]
      exact congrArg _ (takeToken_of_scan rest h)
    · rename_i hquote
      rw [if_neg hquote, if_neg hquote]
      exact congrArg _ (takeQuoted_of_scan rest h)

end

/-- A text that is read as a token among others is read as that token on its own. -/
theorem readToken_of_reads (h : Reads stop s v) : readToken s = v := by
  obtain ⟨taken, hscans, hfirm, rfl⟩ := h.scans
  have hscan : scan stop s = (taken, []) := by
    have hend := hscans []
    rwa [List.append_nil, scan, List.append_nil] at hend
  have htaken : takeToken s = taken := by
    have hend : (scan stop s).2 = [] := by rw [hscan]
    rw [takeToken_of_scan s hend, hscan]
  have hstart : s.dropWhile isEdgeSpace = s := dropWhile_of_head h.head
  rw [readToken, hstart, htaken, ← settled_of_firm hfirm, settled]

/-! ## Display text -/

/-- A character behind a backslash is taken as it is, and so is one that is not escaped. -/
theorem readExpansion_escapeExpansion (s : List Char) :
    readExpansion (escapeExpansion s) = s := by
  induction s with
  | nil => rfl
  | cons c rest ih =>
    rw [escapeExpansion, backslashed, List.flatMap_cons]
    rw [escapeExpansion, backslashed] at ih
    split
    · rw [List.cons_append, List.singleton_append, readExpansion, ih]
    · rename_i hc
      simp only [Bool.or_eq_true, beq_iff_eq, not_or] at hc
      rw [List.singleton_append, readExpansion, if_neg hc.1, ih]
      rintro _ _ rfl
      exact absurd rfl hc.1

/-! ## All layers -/

/-- The two readings of a text that was quoted as an option and escaped for the graph. -/
theorem readToken_escapeValue (s : List Char) : readToken (readToken (escapeValue s)) = s := by
  rw [escapeValue, readToken_of_reads (reads_escapeGraph (hasEdgeSpace_quoteOption s)),
    readToken_of_reads (reads_quoteOption s)]

/-- **Escapes are undone by the readers**: a display text by all three, a plain option by the first
two.  So no two texts are escaped alike. -/
theorem escapes_undone :
    Function.LeftInverse unescapeText escapeText
      ∧ Function.LeftInverse (fun escaped ↦ readToken (readToken escaped)) escapeValue
      ∧ Function.Injective escapeText ∧ Function.Injective escapeValue := by
  have hvalue : Function.LeftInverse (fun escaped ↦ readToken (readToken escaped)) escapeValue :=
    readToken_escapeValue
  have htext : Function.LeftInverse unescapeText escapeText := by
    intro s
    -- a display text is a plain option once its percent signs and backslashes are escaped
    rw [unescapeText, show escapeText s = escapeValue (escapeExpansion s) from rfl,
      readToken_escapeValue, readExpansion_escapeExpansion]
  exact ⟨htext, hvalue, htext.injective, hvalue.injective⟩

end Reading
end Montage
