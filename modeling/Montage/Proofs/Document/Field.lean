import Montage.Document.Request
import Montage.Proofs.Json.Members
import Montage.Proofs.Outcome

/-!
# Fields written and read

A record becomes an object with one member for each field that is there, and is read back field by
field.  The lemmas here are the two halves of that for one field: what was read obeys the rule of
its decoder, and what was written under the name of a field is what the field is read from.

A decoded value is put together from decoded fields.  That it was decoded says of every field what
it was decoded from; the lemmas here take a decoder apart, one combinator at a time.

A completed request holds, under each name of its signature, what was given under that name or else
the default.
-/

set_option autoImplicit false

namespace Montage

variable {α β : Type}

namespace Checked

/-! ## Combinators -/

/-- Whatever is decoded has a property. -/
def All (x : Checked α) (p : α → Prop) : Prop := ∀ a, x = .ok a → p a

theorem all_map {f : α → β} {x : Checked α} {p : β → Prop} :
    (f <$> x).All p ↔ x.All fun a ↦ p (f a) := by
  cases x with
  | ok a => simp [All, Functor.map, map]
  | failed paths => simp [All, Functor.map, map]

theorem all_seq {f : Checked (α → β)} {x : Checked α} {p : β → Prop} :
    (f <*> x).All p ↔ f.All fun g ↦ x.All fun a ↦ p (g a) := by
  cases f <;> cases x <;> simp [All, Seq.seq, apply]

theorem reject_ne_ok {a : α} : (reject : Checked α) ≠ .ok a := by
  rintro ⟨⟩

theorem andThen_eq_ok {x : Checked α} {f : α → Checked β} {b : β} :
    x.andThen f = .ok b ↔ ∃ a, x = .ok a ∧ f a = .ok b := by
  cases x <;> simp [andThen]

theorem require_eq_ok {p : α → Bool} {x : Checked α} {a : α} :
    x.require p = .ok a ↔ x = .ok a ∧ p a = true := by
  rw [require, andThen_eq_ok]
  constructor
  · rintro ⟨b, hb, hp⟩
    split at hp
    · cases hp
      exact ⟨hb, ‹_›⟩
    · exact absurd hp reject_ne_ok
  · rintro ⟨ha, hp⟩
    exact ⟨a, ha, if_pos hp⟩

theorem within_eq_ok {step : String} {x : Checked α} {a : α} :
    x.within step = .ok a ↔ x = .ok a := by
  cases x <;> simp [within]

theorem toExcept_eq_ok {x : Checked α} {a : α} : x.toExcept = .ok a ↔ x = .ok a := by
  cases x <;> simp [toExcept]

end Checked

/-! ## Fields -/

namespace Decoder

theorem needed_eq_ok {name : String} {inner : Decoder α} {document : Json} {a : α} :
    needed name inner document = .ok a ↔
      ∃ value, written? name document = some value ∧ inner value = .ok a := by
  rw [needed, Checked.within_eq_ok]
  cases written? name document with
  | none => simp [Checked.reject]
  | some value => simp

theorem field_eq_ok {name : String} {default : α} {inner : Decoder α} {document : Json} {a : α} :
    field name default inner document = .ok a ↔
      (written? name document = none ∧ default = a) ∨
        ∃ value, written? name document = some value ∧ inner value = .ok a := by
  rw [field]
  cases written? name document with
  | none => simp
  | some value => simp [Checked.within_eq_ok]

theorem all_object {inner : Decoder α} {document : Json} {p : α → Prop}
    (h : (inner document).All p) : (object inner document).All p := by
  cases document with
  | obj members => exact h
  | _ => exact fun _ ↦ by rintro ⟨⟩

end Decoder

namespace Checked

@[simp]
theorem map_ok (f : α → β) (a : α) : f <$> Checked.ok a = .ok (f a) := rfl

@[simp]
theorem seq_ok (g : α → β) (a : α) : Checked.ok g <*> Checked.ok a = .ok (g a) := rfl

@[simp]
theorem within_ok (step : String) (a : α) : (Checked.ok a).within step = .ok a := rfl

end Checked

/-! ## Members of an object -/

namespace Json

variable {key other : String}

@[simp]
theorem lookup?_append (members rest : List (String × α)) :
    lookup? key (members ++ rest) = (lookup? key members).or (lookup? key rest) := by
  simp only [lookup?, List.find?_append]
  cases List.find? _ members <;> rfl

@[simp]
theorem lookup?_always (value : Json) :
    lookup? key (always other value) = if other = key then some value else none := by
  rw [always, lookup?_cons]
  rfl

@[simp]
theorem lookup?_ifSome (value : Option α) (encode : α → Json) :
    lookup? key (ifSome other value encode) = if other = key then value.map encode else none := by
  cases value with
  | none => simp [ifSome, lookup?]
  | some a =>
    rw [ifSome, lookup?_cons]
    rfl

end Json

/-! ## The two names of a field -/

/-- The keys are in camel case: no underscore stands in them. -/
def AreCamel (members : List (String × Json)) : Prop :=
  ∀ member ∈ members, '_' ∉ member.1.toList

theorem areCamel_append {members rest : List (String × Json)} (h : AreCamel members)
    (hrest : AreCamel rest) : AreCamel (members ++ rest) := by
  rw [AreCamel, List.forall_mem_append]
  exact ⟨h, hrest⟩

theorem areCamel_always {key : String} (value : Json) (h : '_' ∉ key.toList) :
    AreCamel (always key value) := by
  rw [AreCamel, always, List.forall_mem_singleton]
  exact h

theorem areCamel_ifSome {key : String} (value : Option α) (encode : α → Json)
    (h : '_' ∉ key.toList) : AreCamel (ifSome key value encode) := by
  cases value with
  | none => rintro _ ⟨⟩
  | some a => exact areCamel_always _ h

/-- A name in snake case that differs from the one in camel case has an underscore. -/
theorem mem_snakeCase {name : String} (h : Decoder.snakeCase name ≠ name) :
    '_' ∈ (Decoder.snakeCase name).toList := by
  by_contra hnone
  refine h (String.toList_inj.mp ?_)
  rw [Decoder.snakeCase, String.toList_ofList] at hnone ⊢
  simp only [List.mem_flatMap, not_exists, not_and] at hnone
  conv_rhs => rw [← List.flatMap_singleton' name.toList]
  refine List.flatMap_congr fun c hc ↦ if_neg fun hupper ↦ hnone c hc ?_
  rw [if_pos hupper]
  exact List.mem_cons_self

/-- A record as it is written: an object whose keys are in camel case. -/
def Json.IsRecord (document : Json) : Prop :=
  ∃ members, document = .obj members ∧ AreCamel members

namespace Json.IsRecord

variable {document : Json}

theorem of_camel {members : List (String × Json)} (h : AreCamel members) :
    IsRecord (.obj members) := ⟨members, rfl, h⟩

theorem object (h : document.IsRecord) (inner : Decoder α) :
    Decoder.object inner document = inner document := by
  obtain ⟨members, rfl, -⟩ := h
  rfl

/-- A field of a record is written under its first name. -/
theorem written? (h : document.IsRecord) (name : String) :
    Decoder.written? name document = document.get? name := by
  obtain ⟨members, rfl, hcamel⟩ := h
  rw [Decoder.written?]
  dsimp only [Json.get?]
  cases hvalue : Json.lookup? name members with
  | some value => rfl
  | none =>
    by_cases hsnake : Decoder.snakeCase name = name
    · rw [hsnake, hvalue]
    cases hother : Json.lookup? (Decoder.snakeCase name) members with
    | none => rfl
    | some value =>
      have hmem : (Decoder.snakeCase name, value) ∈ members := Json.mem_of_lookup? hother
      have hkey := hcamel _ hmem
      dsimp only at hkey
      exact (hkey (mem_snakeCase hsnake)).elim

end Json.IsRecord

/-! ## Reading what was written -/

namespace Decoder

variable {name : String} {inner : Decoder α} {document : Json} {p : α → Prop}

@[simp]
theorem text_str (s : String) : text (.str s) = .ok s := rfl

@[simp]
theorem flag_bool (b : Bool) : flag (.bool b) = .ok b := rfl

@[simp]
theorem whole_whole (n : Int) : whole (.whole n) = .ok n := rfl

theorem such_of_ok {test : α → Bool} {value : Json} {a : α} (h : inner value = .ok a)
    (ha : test a = true) : inner.such test value = .ok a :=
  Checked.require_eq_ok.mpr ⟨h, ha⟩

@[simp]
theorem such_quantity [Rounding] (test : Quantity → Bool) (x : Quantity) :
    quantity.such test (.quantity x) = if test x then .ok x else .reject := rfl

@[simp]
theorem such_whole (test : Int → Bool) (n : Int) :
    whole.such test (.whole n) = if test n then .ok n else .reject := rfl

/-- A value that is there was read by the inner rule. -/
theorem exists_of_optional {value : Json} {o : Option α} (hvalue : value ≠ .null)
    (h : optional inner value = .ok o) : ∃ a, inner value = .ok a ∧ o = some a := by
  unfold optional at h
  split at h
  · exact absurd rfl hvalue
  · cases hread : inner value <;> rw [hread] at h <;> cases h
    exact ⟨_, rfl, rfl⟩

/-- A field that may be left out, read from what is written for it. -/
def readIf (name : String) (inner : Decoder α) : Option Json → Checked (Option α)
  | some value => (optional inner value).within name
  | none => .ok none

theorem optField_eq :
    optField name inner document = readIf name inner (written? name document) := by
  rw [optField, field]
  cases written? name document <;> rfl

/-- A field that is written if there is something to write is read as what that is read as. -/
theorem readIf_map {β : Type} {inner : Decoder β} {encode : α → Json} {f : α → β}
    {value : Option α} (h : ∀ a ∈ value, encode a ≠ .null ∧ inner (encode a) = .ok (f a)) :
    readIf name inner (value.map encode) = .ok (value.map f) := by
  cases value with
  | none => rfl
  | some a =>
    obtain ⟨hnull, ha⟩ := h a rfl
    have hread : optional inner (encode a) = .ok (some (f a)) := by
      unfold optional
      split
      · rename_i hvalue
        exact absurd hvalue hnull
      · rw [ha]
        rfl
    rw [Option.map_some, readIf, hread]
    rfl

/-- A field that is written if there is something to write is read as what it was. -/
theorem readIf_same {encode : α → Json} {value : Option α}
    (h : ∀ a ∈ value, encode a ≠ .null ∧ inner (encode a) = .ok a) :
    readIf name inner (value.map encode) = .ok value := by
  rw [readIf_map (f := id) h, Option.map_id, id]

@[simp]
theorem readIf_str (value : Option String) : readIf name text (value.map .str) = .ok value :=
  readIf_same fun _ _ ↦ ⟨by rintro ⟨⟩, rfl⟩

@[simp]
theorem readIf_quantity [Rounding] (value : Option Quantity) :
    readIf name quantity (value.map .quantity) = .ok value :=
  readIf_same fun _ _ ↦ ⟨by rintro ⟨⟩, rfl⟩

theorem readIf_such [Rounding] {test : Quantity → Bool} {value : Option Quantity}
    (h : ∀ x ∈ value, test x = true) :
    readIf name (quantity.such test) (value.map .quantity) = .ok value :=
  readIf_same fun x hx ↦ ⟨by rintro ⟨⟩, such_of_ok rfl (h x hx)⟩

/-- A quantity that is read under a condition obeys it. -/
theorem all_readIf_such [Rounding] {test : Quantity → Bool} {value : Option Quantity} :
    (readIf name (quantity.such test) (value.map .quantity)).All fun _ ↦
      ∀ x ∈ value, test x = true := by
  rintro o h x rfl
  rw [Option.map_some, readIf, Checked.within_eq_ok] at h
  obtain ⟨a, ha, -⟩ := exists_of_optional (by rintro ⟨⟩) h
  obtain ⟨hread, htest⟩ := Checked.require_eq_ok.mp ha
  cases hread
  exact htest

theorem readIf_such_whole {test : Int → Bool} {value : Option Int}
    (h : ∀ n ∈ value, test n = true) :
    readIf name (whole.such test) (value.map .whole) = .ok value :=
  readIf_same fun n hn ↦ ⟨by rintro ⟨⟩, such_of_ok rfl (h n hn)⟩

theorem readIf_such_str {test : String → Bool} {value : Option String}
    (h : ∀ s ∈ value, test s = true) :
    readIf name (text.such test) (value.map .str) = .ok value :=
  readIf_same fun s hs ↦ ⟨by rintro ⟨⟩, such_of_ok rfl (h s hs)⟩

/-! ## What was read -/

theorem all_such {test : α → Bool} {value : Json} :
    (inner.such test value).All fun a ↦ test a = true :=
  fun _ h ↦ (Checked.require_eq_ok.mp h).2

theorem all_needed (h : ∀ value, (inner value).All p) : (needed name inner document).All p := by
  intro a ha
  obtain ⟨value, -, ha⟩ := needed_eq_ok.mp ha
  exact h value a ha

theorem all_field {default : α} (hdefault : p default) (h : ∀ value, (inner value).All p) :
    (field name default inner document).All p := by
  intro a ha
  rcases field_eq_ok.mp ha with ⟨-, rfl⟩ | ⟨value, -, ha⟩
  · exact hdefault
  · exact h value a ha

theorem all_optional {value : Json} (h : ∀ value, (inner value).All p) :
    (optional inner value).All fun o ↦ ∀ a ∈ o, p a := by
  cases value with
  | null =>
    rintro _ ⟨⟩ a ⟨⟩
  | _ =>
    refine Checked.all_map.mpr fun b hb a ha ↦ ?_
    cases ha
    exact h _ b hb

theorem all_optField (h : ∀ value, (inner value).All p) :
    (optField name inner document).All fun o ↦ ∀ a ∈ o, p a :=
  all_field (by rintro _ ⟨⟩) fun _ ↦ all_optional h

theorem all_suchField {test : α → Bool} {default : α} (hdefault : test default = true) :
    (field name default (inner.such test) document).All fun a ↦ test a = true :=
  all_field hdefault fun _ ↦ all_such

/-- A field that may be null, and that keeps an earlier value where it is not written. -/
theorem all_suchKept {test : α → Bool} {kept : Option α} (hkept : ∀ a ∈ kept, test a = true) :
    (field name kept (optional (inner.such test)) document).All fun o ↦
      ∀ a ∈ o, test a = true :=
  all_field hkept fun _ ↦ all_optional fun _ ↦ all_such

theorem all_suchOptField {test : α → Bool} :
    (optField name (inner.such test) document).All fun o ↦ ∀ a ∈ o, test a = true :=
  all_optField fun _ ↦ all_such

end Decoder

/-! ## Completed requests -/

variable {signature : Signature} {given : List (String × Json)} {request : Request}

/-- The value that a request has for a parameter. -/
def Parameter.value? (parameter : Parameter) (given : List (String × Json)) : Option Json :=
  (Json.lookup? parameter.name given).or parameter.fallback

namespace Request

/-- The member that a completed request has for a parameter. -/
def member? (given : List (String × Json)) (parameter : Parameter) :
    Except Error (String × Json) :=
  match parameter.value? given with
  | some value => .ok (parameter.name, value)
  | none => .error .badKind

theorem member?_eq_ok {parameter : Parameter} {member : String × Json}
    (h : member? given parameter = .ok member) :
    member.1 = parameter.name ∧ parameter.value? given = some member.2 := by
  rw [member?] at h
  split at h
  · cases h
    exact ⟨rfl, by assumption⟩
  · cases h

theorem complete_eq_ok (h : complete signature given = .ok request) :
    signature.mapM (member? given) = .ok request.members := by
  rw [complete] at h
  split at h
  · obtain ⟨_, h, -⟩ := bind_eq_ok.mp h
    exact absurd h throw_ne_ok
  · obtain ⟨members, hmembers, h⟩ := bind_eq_ok.mp h
    cases pure_eq_ok.mp h
    exact hmembers

theorem lookup?_of_mapM {members : List (String × Json)}
    (h : signature.mapM (member? given) = .ok members) {name : String} {parameter : Parameter}
    (hfind : signature.find? (fun other ↦ other.name == name) = some parameter) :
    Json.lookup? name members = parameter.value? given := by
  induction signature generalizing members with
  | nil => cases hfind
  | cons first rest ih =>
    rw [List.mapM_cons] at h
    obtain ⟨member, hmember, h⟩ := bind_eq_ok.mp h
    obtain ⟨others, hothers, h⟩ := bind_eq_ok.mp h
    cases pure_eq_ok.mp h
    obtain ⟨hname, hvalue⟩ := member?_eq_ok hmember
    rw [Json.lookup?_cons, hname]
    rw [List.find?_cons] at hfind
    split at hfind
    · rename_i heq
      cases hfind
      rw [if_pos (beq_iff_eq.mp heq), hvalue]
    · rename_i hne
      rw [if_neg (fun heq ↦ by simp [heq] at hne)]
      exact ih hothers hfind

/-- **Under a name of its signature, a completed request holds what was given or the default.** -/
theorem get_of_complete (h : complete signature given = .ok request) {name : String}
    {parameter : Parameter}
    (hfind : signature.find? (fun other ↦ other.name == name) = some parameter) :
    request.get name = (parameter.value? given).getD .null := by
  rw [get, lookup?_of_mapM (complete_eq_ok h) hfind]

end Request

/-! ## Computing with values -/

/-- A value that is used as a number is one. -/
theorem Json.number_eq_ok {value : Json} {n : Number} :
    value.number = .ok n ↔ value.number? = some n := by
  rw [number]
  cases value.number? <;> simp

end Montage
