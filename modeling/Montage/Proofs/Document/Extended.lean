import Montage.Document.Decoder
import Montage.Proofs.Json.Members

/-!
# Documents with more in them

A reader looks at the members that it knows and passes over the others.  What it knows of an object
is said by two lists of fields (`Known`): those whose values are taken as they are, and those whose
values are read member by member in their turn, so that there may be more in them as well.

A document is extended by members that its reader does not know, anywhere among those it has, and
by extending the values of the second list (`Extends`).  A value that the reader knows is then
found under the same names and nowhere else, so that every rule for fields gives the same result on
both documents (`MembersExtend.field_plain`, `MembersExtend.field_part`).
-/

set_option autoImplicit false

namespace Montage

/-- The keys that a field is known by. -/
def keysOf (name : String) : List String := [name, Decoder.snakeCase name]

/-- What a reader knows of an object: fields with plain values, and fields whose values may be
extended in their turn, each with the way in which they may be. -/
structure Known where
  plain : List String
  parts : List (String × (Json → Json → Prop)) := []

namespace Known

/-- All fields of both. -/
def append (known other : Known) : Known := ⟨known.plain ++ other.plain, known.parts ++ other.parts⟩

/-- The keys that the reader looks for. -/
def keys (known : Known) : List String :=
  known.plain.flatMap keysOf ++ known.parts.flatMap fun part ↦ keysOf part.1

/-- Whether a value may be extended to another one under a key. -/
structure Allows (known : Known) (key : String) (a b : Json) : Prop where
  plain : ∀ name ∈ known.plain, key ∈ keysOf name → a = b
  parts : ∀ part ∈ known.parts, key ∈ keysOf part.1 → part.2 a b

end Known

/-- The second list of members is the first one with unknown members in between, and with some of
its values extended. -/
inductive MembersExtend (known : Known) : List (String × Json) → List (String × Json) → Prop where
  | nil : MembersExtend known [] []
  | kept {key : String} {value : Json} {rest more : List (String × Json)}
      (h : MembersExtend known rest more) :
      MembersExtend known ((key, value) :: rest) ((key, value) :: more)
  | grown {key : String} {a b : Json} {rest more : List (String × Json)}
      (allowed : known.Allows key a b) (h : MembersExtend known rest more) :
      MembersExtend known ((key, a) :: rest) ((key, b) :: more)
  | added {key : String} {value : Json} {rest more : List (String × Json)}
      (unknown : key ∉ known.keys) (h : MembersExtend known rest more) :
      MembersExtend known rest ((key, value) :: more)

/-- A document and an extended one. -/
inductive Extends (known : Known) : Json → Json → Prop where
  | same (value : Json) : Extends known value value
  | object {members more : List (String × Json)} (h : MembersExtend known members more) :
      Extends known (.obj members) (.obj more)

variable {known : Known}

/-! ## Extending a document -/

/-- A value that may be extended may stand for another one as it allows. -/
theorem Known.Allows.of_part {key name : String} {r : Json → Json → Prop} {a b : Json}
    (hplain : ∀ other ∈ known.plain, key ∉ keysOf other)
    (hparts : known.parts.filter (fun part ↦ key ∈ keysOf part.1) = [(name, r)]) (h : r a b) :
    known.Allows key a b where
  plain other hother hkey := absurd hkey (hplain other hother)
  parts part hpart hkey := by
    have hfound : part ∈ known.parts.filter (fun part ↦ key ∈ keysOf part.1) :=
      List.mem_filter.mpr ⟨hpart, decide_eq_true hkey⟩
    rw [hparts, List.mem_singleton] at hfound
    rw [hfound]
    exact h

namespace MembersExtend

theorem refl (members : List (String × Json)) : MembersExtend known members members := by
  induction members with
  | nil => exact .nil
  | cons member rest ih => exact .kept ih

/-- An unknown member may stand anywhere. -/
theorem insert {key : String} (unknown : key ∉ known.keys) (value : Json)
    (front back : List (String × Json)) :
    MembersExtend known (front ++ back) (front ++ (key, value) :: back) := by
  induction front with
  | nil => exact .added unknown (refl back)
  | cons member rest ih => exact .kept ih

end MembersExtend

/-! ## Known values -/

namespace MembersExtend

open Decoder

variable {members more : List (String × Json)} {key name : String}

/-- Under a known key, both lists have a value, the second one perhaps an extended one, or neither
has. -/
theorem lookup? {r : Json → Json → Prop} (hkey : key ∈ known.keys) (hsame : ∀ value, r value value)
    (hr : ∀ a b, known.Allows key a b → r a b) (h : MembersExtend known members more) :
    Option.Rel r (Json.lookup? key members) (Json.lookup? key more) := by
  induction h with
  | nil => exact .none
  | kept _ ih =>
    rw [Json.lookup?_cons, Json.lookup?_cons]
    split
    · exact .some (hsame _)
    · exact ih
  | grown allowed _ ih =>
    rw [Json.lookup?_cons, Json.lookup?_cons]
    split
    · rename_i heq
      exact .some (hr _ _ (heq ▸ allowed))
    · exact ih
  | added unknown _ ih =>
    rw [Json.lookup?_cons, if_neg (by rintro rfl; exact unknown hkey)]
    exact ih

theorem lookup?_plain (hname : name ∈ known.plain) (hkey : key ∈ keysOf name)
    (h : MembersExtend known members more) : Json.lookup? key members = Json.lookup? key more := by
  have hknown : key ∈ known.keys :=
    List.mem_append_left _ (List.mem_flatMap.mpr ⟨name, hname, hkey⟩)
  have hrel := h.lookup? hknown (fun _ ↦ rfl) fun a b allowed ↦ allowed.plain name hname hkey
  generalize Json.lookup? key members = x, Json.lookup? key more = y at hrel ⊢
  cases hrel with
  | none => rfl
  | some heq => rw [heq]

theorem written?_plain (hname : name ∈ known.plain) (h : MembersExtend known members more) :
    written? name (.obj members) = written? name (.obj more) := by
  rw [written?, written?]
  dsimp only [Json.get?]
  rw [h.lookup?_plain hname List.mem_cons_self,
    h.lookup?_plain hname (List.mem_cons_of_mem _ List.mem_cons_self)]

/-- A field that may be extended is written in both documents or in neither. -/
theorem written?_part {other : Known} (hpart : (name, Extends other) ∈ known.parts)
    (h : MembersExtend known members more) :
    Option.Rel (Extends other) (written? name (.obj members)) (written? name (.obj more)) := by
  have hlookup {key : String} (hkey : key ∈ keysOf name) := h.lookup?
    (List.mem_append_right _ (List.mem_flatMap.mpr ⟨(name, Extends other), hpart, hkey⟩))
    .same fun _ _ allowed ↦ allowed.parts (name, Extends other) hpart hkey
  have hfirst := hlookup List.mem_cons_self
  rw [written?, written?]
  dsimp only [Json.get?]
  generalize Json.lookup? name members = x, Json.lookup? name more = y at hfirst
  cases hfirst with
  | none => exact hlookup (List.mem_cons_of_mem _ List.mem_cons_self)
  | some hab => exact .some hab

/-! ## Fields -/

variable {α : Type}

theorem needed_plain (h : MembersExtend known members more) (inner : Decoder α)
    (hname : name ∈ known.plain) :
    needed name inner (.obj members) = needed name inner (.obj more) := by
  rw [needed, needed, h.written?_plain hname]

theorem field_plain (h : MembersExtend known members more) (default : α) (inner : Decoder α)
    (hname : name ∈ known.plain) :
    field name default inner (.obj members) = field name default inner (.obj more) := by
  rw [field, field, h.written?_plain hname]

theorem optField_plain (h : MembersExtend known members more) (inner : Decoder α)
    (hname : name ∈ known.plain) :
    optField name inner (.obj members) = optField name inner (.obj more) :=
  h.field_plain none (optional inner) hname

variable (name) in
/-- **A field that may be extended has the same value in both documents**, if its rule gives the
same on extended values. -/
theorem field_part (h : MembersExtend known members more) {other : Known} (default : Option α)
    {inner : Decoder α} (hinner : ∀ {a b}, Extends other a b → inner a = inner b)
    (hpart : (name, Extends other) ∈ known.parts) :
    field name default (optional inner) (.obj members) =
      field name default (optional inner) (.obj more) := by
  have hoptional {a b : Json} (hab : Extends other a b) : optional inner a = optional inner b := by
    cases hab with
    | same value => rfl
    | object hmembers => exact congrArg (Checked.map some) (hinner (.object hmembers))
  have hwritten := h.written?_part hpart
  rw [field, field]
  generalize written? name (.obj members) = x, written? name (.obj more) = y at hwritten ⊢
  cases hwritten with
  | none => rfl
  | some hab => exact congrArg (Checked.within name) (hoptional hab)

variable (name) in
theorem optField_part (h : MembersExtend known members more) {other : Known} {inner : Decoder α}
    (hinner : ∀ {a b}, Extends other a b → inner a = inner b)
    (hpart : (name, Extends other) ∈ known.parts) :
    optField name inner (.obj members) = optField name inner (.obj more) :=
  h.field_part name none hinner hpart

end MembersExtend

/-- An object is read as its members are. -/
theorem Extends.object_eq {α : Type} {inner : Decoder α} {a b : Json} (h : Extends known a b)
    (hinner : ∀ {members more}, MembersExtend known members more →
      inner (.obj members) = inner (.obj more)) :
    Decoder.object inner a = Decoder.object inner b := by
  cases h with
  | same value => rfl
  | object hmembers => exact hinner hmembers

end Montage
