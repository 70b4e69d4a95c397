import Montage.Command.Graph
import Montage.Command.Inputs
import Montage.Proofs.Number.Shortest

/-!
# The names of streams

A compiled graph names its streams by short texts: `0:v` is the picture of the first input, `s3`
the fourth copy of a split stream, `v0` the canvas after the first layer, `vout` the finished
picture.  That no two streams share a name is not said anywhere in the graph; it follows from how
the names are spelled.

`Label` says what a name stands for, `Label.name` spells it, and `Label.name_injective` is the one
fact about the spelling that is used from here on.
-/

set_option autoImplicit false

namespace Montage
namespace Command

/-- What the name of a stream stands for. -/
inductive Label where
  | pad (pad : Pad)
  | copy (n : Nat)
  | canvas
  | prepared (n : Nat)
  | painted (n : Nat)
  | sound (n : Nat)
  | picture
  | mix
  deriving DecidableEq, Repr

namespace Label

/-- The name of a stream. -/
def name : Label → String
  | pad p => p.name
  | copy n => numbered "s" n
  | canvas => "base"
  | prepared n => numbered "l" n
  | painted n => numbered "v" n
  | sound n => numbered "a" n
  | picture => pictureLabel
  | mix => soundLabel

end Label

/-! ## Spelling -/

theorem toList_numbered (letter : String) (n : Nat) :
    (numbered letter n).toList = letter.toList ++ Nat.toDigits 10 n := by
  rw [numbered, String.toList_append, toList_toString_nat]

theorem toList_padName (pad : Pad) :
    pad.name.toList = Nat.toDigits 10 pad.input ++ [':', if pad.sound then 'a' else 'v'] := by
  rw [Pad.name, String.toList_append, toList_toString_nat]
  cases pad.sound <;> rfl

theorem numbered_inj {letter : String} {m n : Nat} :
    numbered letter m = numbered letter n ↔ m = n := by
  refine ⟨fun h ↦ ?_, fun h ↦ h ▸ rfl⟩
  rw [← String.toList_inj, toList_numbered, toList_numbered] at h
  exact toDigits_injective (List.append_cancel_left h)

theorem padName_injective {p q : Pad} (h : p.name = q.name) : p = q := by
  rw [← String.toList_inj, toList_padName, toList_padName] at h
  obtain ⟨hdigits, hmark⟩ := List.append_inj' h rfl
  obtain ⟨i, x⟩ := p
  obtain ⟨j, y⟩ := q
  obtain rfl : i = j := toDigits_injective hdigits
  cases x <;> cases y <;> simp at hmark <;> rfl

/-- How a name opens: its first character, all digits being one, and whether a digit follows. -/
def opening : List Char → Char × Bool
  | c :: d :: _ => if c.isDigit then ('0', true) else (c, d.isDigit)
  | _ => ('0', true)

theorem opening_numbered (letter : String) (c : Char) (hl : letter.toList = [c])
    (hc : c.isDigit = false) (n : Nat) : opening (numbered letter n).toList = (c, true) := by
  obtain ⟨d, ds, hn, hd⟩ := toDigits_eq_cons n
  rw [toList_numbered, hl, hn]
  simp [opening, hc, hd]

theorem opening_padName (pad : Pad) : opening pad.name.toList = ('0', true) := by
  obtain ⟨d, ds, hn, hd⟩ := toDigits_eq_cons pad.input
  rw [toList_padName, hn]
  cases ds <;> simp [opening, hd]

namespace Label

/-- How the names of each kind of streams open. -/
def opening : Label → Char × Bool
  | pad _ => ('0', true)
  | copy _ => ('s', true)
  | canvas => ('b', false)
  | prepared _ => ('l', true)
  | painted _ => ('v', true)
  | sound _ => ('a', true)
  | picture => ('v', false)
  | mix => ('a', false)

theorem opening_name (label : Label) : Command.opening label.name.toList = label.opening := by
  cases label with
  | pad p => exact opening_padName p
  | copy n => exact opening_numbered "s" 's' rfl rfl n
  | prepared n => exact opening_numbered "l" 'l' rfl rfl n
  | painted n => exact opening_numbered "v" 'v' rfl rfl n
  | sound n => exact opening_numbered "a" 'a' rfl rfl n
  | canvas | picture | mix => rfl

/-- **No two streams share a name.** -/
theorem name_injective : Function.Injective name := by
  intro a b h
  -- names of different kinds open differently; within a kind the numerals differ
  have hopen : a.opening = b.opening := by rw [← opening_name, ← opening_name, h]
  cases a <;> cases b <;> simp only [opening, Prod.mk.injEq, Char.reduceEq, Bool.true_eq_false,
    Bool.false_eq_true, and_false, false_and] at hopen
  case pad.pad => rw [padName_injective h]
  case canvas.canvas | picture.picture | mix.mix => rfl
  all_goals rw [numbered_inj.mp h]

end Label
end Command

/-! ## Each value once

`distinct` walks along a list and keeps what it has not seen, which is `List.eraseDups`: no value
occurs twice, and those that are left stand in the order of their first appearance.  The inputs of
a command are made by the same walk, keyed by path. -/

namespace Command

variable {α : Type} [DecidableEq α]

theorem nodup_eraseDups (xs : List α) : xs.eraseDups.Nodup := by
  match xs with
  | [] => exact List.nodup_nil
  | x :: rest =>
    have hshort : (rest.filter fun y ↦ !y == x).length ≤ rest.length := List.length_filter_le _ _
    rw [List.eraseDups_cons, List.nodup_cons]
    exact ⟨by simp [List.mem_eraseDups], nodup_eraseDups _⟩
termination_by xs.length

/-- The walk that `distinct` makes, with what it has seen before. -/
theorem foldl_seen (seen xs : List α) :
    xs.foldl (fun seen x ↦ if seen.contains x then seen else seen ++ [x]) seen
      = seen ++ (xs.filter fun x ↦ !seen.contains x).eraseDups := by
  induction xs generalizing seen with
  | nil => simp
  | cons x rest ih =>
    rw [List.foldl_cons, ih]
    by_cases hx : x ∈ seen
    · simp [hx]
    · rw [if_neg (by simpa using hx), List.filter_cons_of_pos (by simpa using hx),
        List.eraseDups_cons, List.filter_filter, List.append_assoc, List.singleton_append]
      congr 3
      refine List.filter_congr fun y _ ↦ ?_
      by_cases hy : y ∈ seen <;> by_cases hxy : y = x <;> simp [hy, hxy]

theorem foldl_seen_nil (xs : List α) :
    xs.foldl (fun seen x ↦ if seen.contains x then seen else seen ++ [x]) [] = xs.eraseDups := by
  have hall : (xs.filter fun x ↦ !([] : List α).contains x) = xs :=
    List.filter_eq_self.mpr fun _ _ ↦ rfl
  rw [foldl_seen, hall, List.nil_append]

theorem distinct_eq_eraseDups (xs : List α) : distinct xs = xs.eraseDups := foldl_seen_nil xs

theorem nodup_distinct (xs : List α) : (distinct xs).Nodup :=
  distinct_eq_eraseDups xs ▸ nodup_eraseDups xs

theorem mem_distinct {x : α} {xs : List α} : x ∈ distinct xs ↔ x ∈ xs := by
  rw [distinct_eq_eraseDups, List.mem_eraseDups]

/-! ## The inputs of a command -/

/-- The path of the file behind a layer, if it has one. -/
def mediaPath (layer : Layer) : Option String := (sourceOf layer.content).map Source.path

theorem map_path_foldl_register (inputs more : List Input) :
    (more.foldl register inputs).map Input.path = (more.map Input.path).foldl
      (fun seen x ↦ if seen.contains x then seen else seen ++ [x]) (inputs.map Input.path) := by
  induction more generalizing inputs with
  | nil => rfl
  | cons input rest ih =>
    have hstep : (register inputs input).map Input.path
        = if (inputs.map Input.path).contains input.path then inputs.map Input.path
          else inputs.map Input.path ++ [input.path] := by
      have hany : (inputs.any fun known ↦ known.path == input.path)
          = (inputs.map Input.path).contains input.path := by
        rw [List.contains_eq_any_beq, List.any_map]
        simp [Function.comp_def, Bool.beq_comm]
      rw [register, hany]
      split <;> simp
    rw [List.foldl_cons, ih, hstep, List.map_cons, List.foldl_cons]

/-- **The inputs are the files of the layers, each once, in the order of first appearance.** -/
theorem map_path_inputsOf (layers : List Layer) :
    (inputsOf layers).map Input.path = (layers.filterMap mediaPath).eraseDups := by
  have hpaths : (layers.filterMap inputOf).map Input.path = layers.filterMap mediaPath := by
    rw [List.map_filterMap]
    congr 1
    funext layer
    rw [inputOf, mediaPath, Option.map_map]
    rfl
  rw [inputsOf, map_path_foldl_register, hpaths, List.map_nil, foldl_seen_nil]

theorem indexOf_lt {inputs : List Input} {path : String} (h : path ∈ inputs.map Input.path) :
    indexOf inputs path < inputs.length := by
  obtain ⟨input, hmem, hpath⟩ := List.mem_map.mp h
  exact List.findIdx_lt_length_of_exists ⟨input, hmem, by simp [hpath]⟩

/-- The input at the place of a file is the input with that path. -/
theorem getElem?_indexOf {inputs : List Input} {path : String}
    (h : path ∈ inputs.map Input.path) :
    (inputs[indexOf inputs path]?).map Input.path = some path := by
  have hlt := indexOf_lt h
  have hfound : inputs[indexOf inputs path].path == path := List.findIdx_getElem (w := hlt)
  rw [List.getElem?_eq_getElem hlt, Option.map_some, eq_of_beq hfound]

theorem mem_paths_of_source {layers : List Layer} {layer : Layer} {source : Source}
    (h : layer ∈ layers) (hs : sourceOf layer.content = some source) :
    source.path ∈ (inputsOf layers).map Input.path := by
  rw [map_path_inputsOf, List.mem_eraseDups, List.mem_filterMap]
  exact ⟨layer, h, by rw [mediaPath, hs, Option.map_some]⟩

end Command
end Montage
