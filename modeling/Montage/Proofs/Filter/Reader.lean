import Mathlib.Tactic.Tauto
import Montage.Filter.Graph
import Montage.Text.Unicode

/-!
# How filter graphs are read

The program that is called reads a graph in three passes, each with its own quoting.  The first
cuts the graph into filters and takes the quotes of `[ ] , ;` off, the second cuts the arguments of
a filter into options at `:` and takes another layer of quotes off, and the third expands a text
that is displayed, where a percent sign that is not escaped is an error.

The first two passes read tokens by the same rules (`token`), for different marks at which a token
stops.  What is said here does not look at how graphs are written.
-/

set_option autoImplicit false

namespace Montage
namespace Reading

open Montage.Filter (Taken isEdgeSpace)

/-! ## Tokens -/

mutual

/-- Takes the characters of a token, up to a mark at which it stops.  A backslash holds the
character behind it; a quote opens a part in which nothing is a mark. -/
def scan (stop : Char → Bool) : List Char → List Taken × List Char
  | [] => ([], [])
  | c :: rest =>
    if stop c then ([], c :: rest)
    else if c = '\'' then scanQuoted stop rest
    else match rest with
      | [] => ([.loose c], [])
      | d :: later =>
        if c = '\\' then
          let (taken, left) := scan stop later
          (.held d :: taken, left)
        else
          let (taken, left) := scan stop (d :: later)
          (.loose c :: taken, left)

/-- Takes the characters up to the closing quote and what follows it. -/
def scanQuoted (stop : Char → Bool) : List Char → List Taken × List Char
  | [] => ([], [])
  | c :: rest =>
    if c = '\'' then
      let (taken, left) := scan stop rest
      (.closing :: taken, left)
    else
      let (taken, left) := scanQuoted stop rest
      (.loose c :: taken, left)

end

/-- The characters that were taken, without loose white space at the end. -/
def settled (taken : List Taken) : List Char :=
  (taken.reverse.dropWhile Taken.isLooseSpace).reverse.filterMap Taken.char?

/-- Reads a token and gives it with the rest of the text. -/
def token (stop : Char → Bool) (s : List Char) : List Char × List Char :=
  let (taken, rest) := scan stop (s.dropWhile isEdgeSpace)
  (settled taken, rest)

/-- The rest is over, or goes on with a mark at which tokens stop. -/
def Stops (stop : Char → Bool) (rest : List Char) : Prop := ∀ c ∈ rest.head?, stop c = true

mutual

/-- A token leaves an end of the text, and that end stops it. -/
theorem scan_left (stop : Char → Bool) :
    ∀ s, (scan stop s).2 <:+ s ∧ Stops stop (scan stop s).2
  | [] => by simp [scan, Stops]
  | c :: rest => by
    rw [scan.eq_def]
    dsimp only
    split
    · rename_i hstop
      simpa [Stops] using hstop
    split
    · have hrest := scanQuoted_left stop rest
      exact ⟨hrest.1.trans (List.suffix_cons c rest), hrest.2⟩
    match rest with
    | [] => simp [Stops]
    | d :: later =>
      by_cases hc : c = '\\'
      · have hlater := scan_left stop later
        simp only [if_pos hc]
        exact ⟨hlater.1.trans ((List.suffix_cons d later).trans (List.suffix_cons c _)), hlater.2⟩
      · have hrest := scan_left stop (d :: later)
        simp only [if_neg hc]
        exact ⟨hrest.1.trans (List.suffix_cons c _), hrest.2⟩

theorem scanQuoted_left (stop : Char → Bool) :
    ∀ s, (scanQuoted stop s).2 <:+ s ∧ Stops stop (scanQuoted stop s).2
  | [] => by simp [scanQuoted, Stops]
  | c :: rest => by
    rw [scanQuoted]
    split
    · have hrest := scan_left stop rest
      exact ⟨hrest.1.trans (List.suffix_cons c rest), hrest.2⟩
    · have hrest := scanQuoted_left stop rest
      exact ⟨hrest.1.trans (List.suffix_cons c rest), hrest.2⟩

end

theorem token_stops (stop : Char → Bool) (s : List Char) : Stops stop (token stop s).2 :=
  (scan_left stop _).2

theorem length_token_le (stop : Char → Bool) (s : List Char) :
    (token stop s).2.length ≤ s.length :=
  ((scan_left stop _).1.trans (List.dropWhile_suffix _)).length_le

/-! ## Options -/

/-- The mark between options. -/
def isColon (c : Char) : Bool := c == ':'

/-- Characters of the key of an option. -/
def isKeyChar (c : Char) : Bool := isWordChar c || c == '-' || c == '.' || c == '/'

/-- The key before an equals sign, if there is one, and what follows it. -/
def takeKey (s : List Char) : Option (List Char) × List Char :=
  match s.dropWhile isKeyChar with
  | '=' :: rest =>
    let key := s.takeWhile isKeyChar
    if key.isEmpty then (none, s) else (some key, rest)
  | _ => (none, s)

theorem length_takeKey_le (s : List Char) : (takeKey s).2.length ≤ s.length := by
  rw [takeKey]
  split
  · rename_i rest hrest
    have hle := (List.dropWhile_suffix isKeyChar (l := s)).length_le
    rw [hrest, List.length_cons] at hle
    dsimp only
    split
    · exact Nat.le_refl _
    · exact Nat.le_of_succ_le hle
  · exact Nat.le_refl _

/-- The options in the arguments of a filter, each with its key if it has one. -/
def options (s : List Char) : List (Option (List Char) × List Char) :=
  if s.isEmpty then []
  else
    let key := takeKey s
    let value := token isColon key.2
    -- a token ends at a mark or with the text, so one mark is all there is to skip
    (key.1, value.1) :: options (value.2.drop 1)
termination_by s.length
decreasing_by
  rename_i hne
  have hpos : 0 < s.length := List.length_pos_iff.mpr fun heq ↦ hne (heq ▸ rfl)
  have hkey := length_takeKey_le s
  have hvalue := length_token_le isColon (takeKey s).2
  rw [List.length_drop]
  omega

/-! ## Filters -/

/-- Marks behind the name of a filter. -/
def isNameStop (c : Char) : Bool := c == '=' || c == ',' || c == ';' || c == '['

/-- Marks behind the arguments of a filter. -/
def isArgsStop (c : Char) : Bool := c == '[' || c == ']' || c == ',' || c == ';'

/-- Marks between filters. -/
def isSeparator (c : Char) : Bool := c == ',' || c == ';'

/-- Skips labels between brackets, together with the marks of `between`, where a label may be open.
A label that is not closed cannot be read. -/
def skipLabels (between : Char → Bool) : Bool → List Char → Option (List Char)
  | true, [] => none
  | true, c :: rest => skipLabels between (c != ']') rest
  | false, [] => some []
  | false, c :: rest =>
    if c = '[' then skipLabels between true rest
    else if between c then skipLabels between false rest
    else some (c :: rest)

theorem suffix_of_skipLabels {between : Char → Bool} {opened : Bool} {s left : List Char}
    (h : skipLabels between opened s = some left) : left <:+ s := by
  induction s generalizing opened with
  | nil => cases opened <;> simp_all [skipLabels]
  | cons c rest ih =>
    cases opened with
    | true => exact (ih h).trans (List.suffix_cons c rest)
    | false =>
      rw [skipLabels] at h
      split at h
      · exact (ih h).trans (List.suffix_cons c rest)
      split at h
      · exact (ih h).trans (List.suffix_cons c rest)
      · exact Option.some.inj h ▸ List.suffix_refl _

/-- The arguments of a filter behind its name, if it has any. -/
def takeArgs : List Char → Option (List Char) × List Char
  | '=' :: rest => (some (token isArgsStop rest).1, (token isArgsStop rest).2)
  | rest => (none, rest)

/-- One filter and what is left after it, where labels may stand on both sides. -/
def takeFilter (s : List Char) :
    Option ((List Char × Option (List Char)) × List Char) := do
  let start ← skipLabels (fun _ ↦ false) false s
  let name := token isNameStop start
  let args := takeArgs name.2
  let left ← skipLabels isSeparator false args.2
  return ((name.1, args.1), left)

theorem length_takeArgs_le (s : List Char) : (takeArgs s).2.length ≤ s.length := by
  rw [takeArgs.eq_def]
  split
  · exact Nat.le_succ_of_le (length_token_le isArgsStop _)
  · exact Nat.le_refl _

/-- Behind a name, arguments or the skipping of a mark move on. -/
theorem length_after_name_lt {s left : List Char} (hs : s ≠ []) (hstops : Stops isNameStop s)
    (h : skipLabels isSeparator false (takeArgs s).2 = some left) : left.length < s.length := by
  have hleft := (suffix_of_skipLabels h).length_le
  obtain ⟨c, rest, rfl⟩ := List.exists_cons_of_ne_nil hs
  by_cases hc : c = '='
  · subst hc
    have hargs := length_token_le isArgsStop rest
    rw [takeArgs] at hleft
    rw [List.length_cons]
    exact Nat.lt_succ_of_le (Nat.le_trans hleft hargs)
  · have hskip : (takeArgs (c :: rest)).2 = c :: rest := by
      rw [takeArgs.eq_def]
      split
      · rename_i heq
        exact absurd (List.cons.inj heq).1 hc
      · rfl
    have hmark : c = '[' ∨ isSeparator c = true := by
      have hstop := hstops c rfl
      simp only [isNameStop, isSeparator, Bool.or_eq_true, beq_iff_eq] at hstop ⊢
      tauto
    rw [hskip, skipLabels] at h
    rw [List.length_cons]
    split at h
    · exact Nat.lt_succ_of_le (suffix_of_skipLabels h).length_le
    · rename_i hopen
      rw [if_pos (hmark.resolve_left hopen)] at h
      exact Nat.lt_succ_of_le (suffix_of_skipLabels h).length_le

/-- What is left after a filter is shorter. -/
theorem length_takeFilter_lt {s left : List Char} {read : List Char × Option (List Char)}
    (hs : s ≠ []) (h : takeFilter s = some (read, left)) : left.length < s.length := by
  rw [takeFilter] at h
  obtain ⟨start, hstart, h⟩ := Option.bind_eq_some_iff.mp h
  obtain ⟨next, hnext, h⟩ := Option.bind_eq_some_iff.mp h
  obtain rfl : next = left := (Prod.mk.inj (Option.some.inj h)).2
  have hstart := (suffix_of_skipLabels hstart).length_le
  have hname := length_token_le isNameStop start
  have hargs := length_takeArgs_le (token isNameStop start).2
  have hleft := (suffix_of_skipLabels hnext).length_le
  by_cases hend : (token isNameStop start).2 = []
  · have hpos := List.length_pos_iff.mpr hs
    rw [hend] at hargs hleft
    rw [List.length_nil] at hargs
    omega
  · have hlt := length_after_name_lt hend (token_stops isNameStop start) hnext
    omega

/-- The filters of a graph, each with its name and its arguments if it has any. -/
def filters (s : List Char) : Option (List (List Char × Option (List Char))) :=
  if s = [] then some []
  else
    match _h : takeFilter s with
    | none => none
    | some (read, left) => (filters left).map (read :: ·)
termination_by s.length
decreasing_by
  rename_i hs
  exact length_takeFilter_lt hs _h

/-- A graph as it is received: its filters by name, each with its options. -/
def graph (s : List Char) : Option (List (List Char × List (Option (List Char) × List Char))) :=
  (filters s).map fun read ↦ read.map fun filter ↦ (filter.1, options (filter.2.getD []))

/-! ## Display text -/

/-- The text that is shown for a received one; a percent sign that is not escaped is an error. -/
def expand : List Char → Option (List Char)
  | [] => some []
  | c :: rest =>
    if c = '%' then none
    else match rest with
      | [] => some [c]
      | d :: later =>
        if c = '\\' then (expand later).map (d :: ·) else (expand (d :: later)).map (c :: ·)

end Reading
end Montage
