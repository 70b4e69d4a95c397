import Mathlib.Data.List.Chain
import Montage.Json.Printer
import Montage.Json.Reader

/-!
# Strings of a document read back

A string is read code point by code point.  A character is written as itself or as an escape, of
which one beyond the basic plane needs two, and either is read as that character
(`takeString_escapedChar`).  Half of a surrogate pair is escaped as well, and is read as itself as
long as its other half does not follow (`AreCodes`).
-/

set_option autoImplicit false

namespace Montage
namespace Json

/-! ## Code units -/

theorem hexDigits_four {n : Nat} (hn : n < 0x10000) : hexDigits 4 n =
    [(n / 4096).digitChar, (n / 256 % 16).digitChar, (n / 16 % 16).digitChar, (n % 16).digitChar] := by
  rw [hexDigits]
  rcases Nat.lt_or_ge n 16 with h | h
  · rw [Nat.toDigits_of_lt_base h]
    simp [List.replicate, Nat.mod_eq_of_lt h, show n / 4096 = 0 by omega,
      show n / 256 = 0 by omega, show n / 16 = 0 by omega]
  rw [Nat.toDigits_of_base_le (by decide) h]
  rcases Nat.lt_or_ge (n / 16) 16 with h' | h'
  · rw [Nat.toDigits_of_lt_base h']
    simp [List.replicate, Nat.mod_eq_of_lt h', show n / 4096 = 0 by omega,
      show n / 256 = 0 by omega]
  rw [Nat.toDigits_of_base_le (by decide) h', Nat.div_div_eq_div_mul]
  rcases Nat.lt_or_ge (n / 256) 16 with h'' | h''
  · rw [Nat.toDigits_of_lt_base h'']
    simp [Nat.mod_eq_of_lt h'', show n / 4096 = 0 by omega]
  rw [Nat.toDigits_of_base_le (by decide) h'', Nat.div_div_eq_div_mul,
    Nat.toDigits_of_lt_base (by omega)]
  simp

theorem hexValue?_digitChar : ∀ d < 16, hexValue? d.digitChar = some d := by decide

theorem takeUnit_hexDigits {n : Nat} (hn : n < 0x10000) (s : List Char) :
    takeUnit (hexDigits 4 n ++ s) = some (n, s) := by
  rw [hexDigits_four hn]
  simp only [List.cons_append, List.nil_append, takeUnit]
  rw [hexValue?_digitChar _ (by omega), hexValue?_digitChar _ (by omega),
    hexValue?_digitChar _ (by omega), hexValue?_digitChar _ (by omega)]
  show some _ = _
  congr 2
  omega

/-! ## Surrogates -/

/-- The first half of a surrogate pair. -/
abbrev IsHigh (n : Nat) : Prop := 0xD800 ≤ n ∧ n ≤ 0xDBFF

/-- The second half of a surrogate pair. -/
abbrev IsLow (n : Nat) : Prop := 0xDC00 ≤ n ∧ n ≤ 0xDFFF

/-- No second half of a surrogate pair is escaped in front of a text. -/
def OpensNoLow (s : List Char) : Prop :=
  ∀ more low left, s = '\\' :: 'u' :: more → takeUnit more = some (low, left) → ¬ IsLow low

/-- A unit that is not the first half of a pair with what follows is a code point of its own. -/
theorem takeEscape_unit {n : Nat} (hn : n < 0x10000) {s : List Char}
    (hs : IsHigh n → OpensNoLow s) : takeEscape (hexDigits 4 n ++ s) = some (n, s) := by
  rw [takeEscape, takeUnit_hexDigits hn]
  show (if 0xD800 ≤ n ∧ n ≤ 0xDBFF then _ else _) = _
  split
  · rename_i hhigh
    split
    · rename_i more
      split
      · rename_i low left hlow
        rw [if_neg (hs hhigh more low left rfl hlow)]
        rfl
      · rfl
    · rfl
  · rfl

/-- The two halves of a pair are one code point. -/
theorem takeEscape_halves {high low : Nat} (hhigh : IsHigh high) (hlow : IsLow low) (s : List Char) :
    takeEscape (hexDigits 4 high ++ (unitEscape low ++ s))
      = some (0x10000 + (high - 0xD800) * 0x400 + (low - 0xDC00), s) := by
  have hfirst : high < 0x10000 := by have := hhigh.2; omega
  have hsecond : low < 0x10000 := by have := hlow.2; omega
  rw [takeEscape, takeUnit_hexDigits hfirst]
  show (if 0xD800 ≤ high ∧ high ≤ 0xDBFF then _ else _) = _
  rw [if_pos hhigh, unitEscape, List.cons_append, List.cons_append]
  simp only [takeUnit_hexDigits hsecond]
  exact if_pos hlow

/-! ## Characters -/

theorem takeString_plain {c : Char} (hquote : c ≠ '"') (hmark : c ≠ '\\') (hcontrol : ¬ c.toNat < 0x20)
    (fuel : Nat) (read : List Nat) (s : List Char) :
    takeString (fuel + 1) read (c :: s) = takeString fuel (c.toNat :: read) s := by
  rw [takeString, if_neg (not_or.mpr ⟨hmark, hcontrol⟩)]
  · exact hquote
  · exact fun _ h _ ↦ hmark h
  · exact fun _ _ h _ ↦ hmark h

/-- How a character may stand inside a string. -/
inductive IsEscape (c : Char) : List Char → Prop where
  | letter {e : Char} (he : e ≠ 'u') (hread : simpleEscape? e = some c) : IsEscape c ['\\', e]
  | same (hquote : c ≠ '"') (hmark : c ≠ '\\') (hcontrol : ¬ c.toNat < 0x20) : IsEscape c [c]
  | unit (hn : c.toNat < 0x10000) : IsEscape c (unitEscape c.toNat)
  | halves {high low : Nat} (hhigh : IsHigh high) (hlow : IsLow low)
      (hvalue : 0x10000 + (high - 0xD800) * 0x400 + (low - 0xDC00) = c.toNat) :
      IsEscape c (unitEscape high ++ unitEscape low)

theorem not_isHigh_toNat (c : Char) : ¬ IsHigh c.toNat := by
  have hvalid : c.toNat < 0xD800 ∨ 0xDFFF < c.toNat ∧ c.toNat < 0x110000 := c.valid
  rintro ⟨hlow, hhigh⟩
  omega

theorem not_isLow_toNat (c : Char) : ¬ IsLow c.toNat := by
  have hvalid : c.toNat < 0xD800 ∨ 0xDFFF < c.toNat ∧ c.toNat < 0x110000 := c.valid
  rintro ⟨hlow, hhigh⟩
  omega

theorem isEscape_escapedChar (asciiOnly : Bool) (c : Char) :
    IsEscape c (escapedChar asciiOnly c) := by
  have hvalid : c.toNat < 0xD800 ∨ 0xDFFF < c.toNat ∧ c.toNat < 0x110000 := c.valid
  rw [escapedChar]
  split
  · rename_i h
    rcases h with rfl | rfl <;> exact .letter (by decide) rfl
  rename_i hquote
  split
  · rename_i h
    exact .letter (by decide) (by rw [h]; rfl)
  split
  · rename_i h
    exact .letter (by decide) (by rw [h]; rfl)
  split
  · rename_i h
    exact .letter (by decide) (by rw [h]; rfl)
  split
  · rename_i h
    exact .letter (by decide) (by rw [h]; rfl)
  split
  · rename_i h
    exact .letter (by decide) (by rw [h]; rfl)
  dsimp only
  split
  · exact .unit (by omega)
  rename_i hcontrol
  split
  · rw [not_or] at hquote
    exact .same hquote.1 hquote.2 hcontrol
  split
  · exact .unit ‹_›
  · exact .halves (by constructor <;> omega) (by constructor <;> omega) (by omega)

/-- **A character is read back**, whether it is escaped or stands for itself. -/
theorem takeString_escapedChar (asciiOnly : Bool) (c : Char) (fuel : Nat) (read : List Nat)
    (s : List Char) : takeString (fuel + 1) read (escapedChar asciiOnly c ++ s)
      = takeString fuel (c.toNat :: read) s := by
  have hescape := isEscape_escapedChar asciiOnly c
  generalize escapedChar asciiOnly c = text at hescape
  cases hescape with
  | letter he hread =>
    rw [List.cons_append, List.cons_append, takeString, hread]
    · rfl
    · exact he
  | same hquote hmark hcontrol => exact takeString_plain hquote hmark hcontrol _ _ _
  | unit hn =>
    rw [unitEscape, List.cons_append, List.cons_append, takeString,
      takeEscape_unit hn fun h ↦ absurd h (not_isHigh_toNat c)]
    rfl
  | halves hhigh hlow hvalue =>
    rw [List.append_assoc, unitEscape, List.cons_append, List.cons_append, takeString,
      takeEscape_halves hhigh hlow, hvalue]
    rfl

/-! ## Rows of code points -/

/-- Code points that make a string of a document: characters and halves of surrogate pairs, of which
no two make a pair. -/
structure AreCodes (codes : List Nat) : Prop where
  known : ∀ n ∈ codes, n.isValidChar ∨ IsHigh n ∨ IsLow n
  single : codes.IsChain fun n m ↦ ¬ (IsHigh n ∧ IsLow m)

theorem opensNoLow_of_ne {c : Char} (hc : c ≠ '\\') (s : List Char) : OpensNoLow (c :: s) := by
  rintro more low left heq
  exact absurd (List.cons.inj heq).1 hc

theorem opensNoLow_mark {c : Char} (hc : c ≠ 'u') (s : List Char) : OpensNoLow ('\\' :: c :: s) := by
  rintro more low left heq
  exact absurd (List.cons.inj (List.cons.inj heq).2).1 hc

theorem opensNoLow_unit {n : Nat} (hn : n < 0x10000) (hlow : ¬ IsLow n) (s : List Char) :
    OpensNoLow (unitEscape n ++ s) := by
  rintro more low left heq htake
  have hmore : hexDigits 4 n ++ s = more := (List.cons.inj (List.cons.inj heq).2).2
  rw [← hmore, takeUnit_hexDigits hn] at htake
  cases htake
  exact hlow

theorem opensNoLow_escapedChar (asciiOnly : Bool) (c : Char) (s : List Char) :
    OpensNoLow (escapedChar asciiOnly c ++ s) := by
  have hescape := isEscape_escapedChar asciiOnly c
  generalize escapedChar asciiOnly c = text at hescape
  cases hescape with
  | letter he hread => exact opensNoLow_mark he s
  | same hquote hmark hcontrol => exact opensNoLow_of_ne hmark s
  | unit hn => exact opensNoLow_unit hn (not_isLow_toNat c) s
  | @halves high low hhigh hlow hvalue =>
    rw [List.append_assoc]
    exact opensNoLow_unit (by have := hhigh.2; omega) (fun h ↦ by have := hhigh.2; have := h.1; omega) _

theorem opensNoLow_escapedCode (asciiOnly : Bool) {n : Nat}
    (hknown : n.isValidChar ∨ IsHigh n ∨ IsLow n) (hlow : ¬ IsLow n) (s : List Char) :
    OpensNoLow (escapedCode asciiOnly n ++ s) := by
  rw [escapedCode]
  split
  · exact opensNoLow_escapedChar asciiOnly _ s
  · rename_i hvalid
    have hhigh := (hknown.resolve_left hvalid).resolve_right hlow
    exact opensNoLow_unit (by have := hhigh.2; omega) hlow s

theorem toNat_ofNat {n : Nat} (h : n.isValidChar) : (Char.ofNat n).toNat = n := by
  rw [Char.ofNat, dif_pos h]
  rfl

/-- **A row of code points is read back.** -/
theorem takeString_codes (asciiOnly : Bool) {codes : List Nat} (h : AreCodes codes) {fuel : Nat}
    (hfuel : codes.length < fuel) (read : List Nat) (rest : List Char) :
    takeString fuel read (codes.flatMap (escapedCode asciiOnly) ++ '"' :: rest)
      = some (read.reverse ++ codes, rest) := by
  induction codes generalizing fuel read with
  | nil =>
    obtain ⟨fuel, rfl⟩ := Nat.exists_eq_add_one_of_ne_zero (Nat.ne_of_gt hfuel)
    rw [List.append_nil]
    rfl
  | cons n codes ih =>
    obtain ⟨fuel, rfl⟩ := Nat.exists_eq_add_one_of_ne_zero (Nat.ne_of_gt (Nat.zero_lt_of_lt hfuel))
    obtain ⟨hknown, hsingle⟩ := h
    rw [List.forall_mem_cons] at hknown
    have hrest := ih ⟨hknown.2, hsingle.of_cons⟩ (Nat.lt_of_succ_lt_succ hfuel) (n :: read)
    rw [List.reverse_cons, List.append_assoc, List.singleton_append] at hrest
    rw [List.flatMap_cons, List.append_assoc, ← hrest, escapedCode]
    split
    · rename_i hvalid
      rw [takeString_escapedChar, toNat_ofNat hvalid]
    · rename_i hvalid
      have hn : n < 0x10000 := by
        rcases hknown.1.resolve_left hvalid with h | h <;> have := h.2 <;> omega
      rw [unitEscape, List.cons_append, List.cons_append, takeString, takeEscape_unit hn]
      · rfl
      · intro hhigh
        cases codes with
        | nil => exact opensNoLow_of_ne (by decide) rest
        | cons m codes =>
          rw [List.flatMap_cons, List.append_assoc]
          exact opensNoLow_escapedCode asciiOnly (List.forall_mem_cons.mp hknown.2).1
            (fun hlow ↦ (List.isChain_cons_cons.mp hsingle).1 ⟨hhigh, hlow⟩) _

/-! ## Texts -/

theorem escapedCode_toNat (asciiOnly : Bool) (c : Char) :
    escapedCode asciiOnly c.toNat = escapedChar asciiOnly c := by
  have hvalid : c.toNat.isValidChar := c.valid
  rw [escapedCode, if_pos hvalid, Char.ofNat_toNat]

theorem areCodes_toNat (s : List Char) : AreCodes (s.map Char.toNat) := by
  refine ⟨List.forall_mem_map.mpr fun c _ ↦ .inl c.valid, ?_⟩
  rw [List.isChain_map]
  exact (List.pairwise_of_forall fun c d h ↦ not_isHigh_toNat c h.1).isChain

theorem repaired_toNat (s : String) : repaired (s.toList.map Char.toNat) = s := by
  have hchar : ∀ c : Char,
      (if c.toNat.isValidChar then Char.ofNat c.toNat else '\uFFFD') = c := by
    intro c
    have hvalid : c.toNat.isValidChar := c.valid
    rw [if_pos hvalid, Char.ofNat_toNat]
  rw [repaired, List.map_map]
  simp only [Function.comp_def, hchar, List.map_id', String.ofList_toList]

/-- **A text is read back from its quotes.** -/
theorem takeString_toList (asciiOnly : Bool) (s : String) {fuel : Nat}
    (hfuel : s.toList.length < fuel) (rest : List Char) :
    takeString fuel [] (s.toList.flatMap (escapedChar asciiOnly) ++ '"' :: rest)
      = some (s.toList.map Char.toNat, rest) := by
  have hcodes : (s.toList.map Char.toNat).length < fuel := by rwa [List.length_map]
  have hread := takeString_codes asciiOnly (areCodes_toNat s.toList) hcodes [] rest
  rwa [List.flatMap_map, funext (escapedCode_toNat asciiOnly)] at hread

theorem ofCodes_toNat (s : String) : ofCodes (s.toList.map Char.toNat) = .str s := by
  have hvalid : (s.toList.map Char.toNat).all (fun n ↦ decide n.isValidChar) = true := by
    rw [List.all_map, List.all_eq_true]
    exact fun c _ ↦ decide_eq_true c.valid
  rw [ofCodes, if_pos hvalid, repaired_toNat]

end Json
end Montage
