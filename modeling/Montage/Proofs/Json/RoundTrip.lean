import Montage.Proofs.Json.Members
import Montage.Proofs.Json.Numeral
import Montage.Proofs.Json.Quoted
import Montage.Proofs.Outcome

/-!
# Documents read back

A document is read back from its text (`Json.read_text`), on one line or spread over lines, with
characters beyond ASCII escaped or not, and however quantities are laid out: as long as its
quantities stand on the binary grid, its whole numbers are short enough for a reader, no object has
a key twice and no string has both halves of a surrogate pair apart.

The induction is on the document.  What it says of a value is that the value is taken off the front
of any rest that does not go on with a number (`Json.IsTaken`); its items and members follow from
theirs by induction on the list.  The reader has fuel for two steps with every character, one for
the value and one for the list that it stands in.
-/

set_option autoImplicit false

namespace Montage
namespace Json

/-! ## Documents that can be read -/

/-- A document whose text says what it is. -/
inductive IsReadable : Json → Prop where
  | null : IsReadable .null
  | bool (b : Bool) : IsReadable (.bool b)
  | whole {n : Int} (short : n.natAbs < 10 ^ digitLimit) : IsReadable (.num (.whole n))
  | quantity {x : Quantity} (grid : x.IsOnGrid) : IsReadable (.num (.real x))
  | str (s : String) : IsReadable (.str s)
  | garbled {codes : List Nat} (known : AreCodes codes) (half : ∃ n ∈ codes, ¬ n.isValidChar) :
      IsReadable (.garbled codes)
  | arr {items : List Json} (inner : ∀ item ∈ items, IsReadable item) : IsReadable (.arr items)
  | obj {members : List (String × Json)} (distinct : (members.map Prod.fst).Nodup)
      (inner : ∀ member ∈ members, IsReadable member.2) : IsReadable (.obj members)

/-- White space of a document. -/
def isGap (c : Char) : Bool := c == ' ' || c == '\t' || c == '\n' || c == '\r'

/-- A format that has a name for every quantity and sets lines apart with white space. -/
structure Format.IsPlain (format : Format) : Prop where
  names : format.namesAll = true
  indent : ∀ indent ∈ format.indent, ∀ c ∈ indent.toList, isGap c = true

/-! ## White space -/

theorem skipSpace_gap {gap s : List Char} (hgap : ∀ c ∈ gap, isGap c = true)
    (hs : ∀ c ∈ s.head?, isGap c = false) : skipSpace (gap ++ s) = s := by
  show (gap ++ s).dropWhile isGap = s
  rw [List.dropWhile_append_of_pos hgap, dropWhile_of_head hs]

theorem skipSpace_cons {c : Char} (hc : isGap c = false) (s : List Char) :
    skipSpace (c :: s) = c :: s := List.dropWhile_cons_of_neg (by simpa [isGap] using hc)

/-- What stands behind a value: white space and a mark of a list or an object. -/
theorem endsNumber_gap {gap : List Char} (hgap : ∀ c ∈ gap, isGap c = true) {mark : Char}
    (hmark : mark ∈ [',', ']', '\x7d']) (rest : List Char) : EndsNumber (gap ++ mark :: rest) := by
  have hgaps : ∀ c, isGap c = true → c.isDigit = false ∧ c ≠ '.' ∧ c ≠ 'e' ∧ c ≠ 'E' := by
    simp only [isGap, Bool.or_eq_true, beq_iff_eq]
    rintro c (((rfl | rfl) | rfl) | rfl) <;> decide
  have hmarks : ∀ c ∈ [',', ']', '\x7d'], c.isDigit = false ∧ c ≠ '.' ∧ c ≠ 'e' ∧ c ≠ 'E' := by decide
  intro c hc
  cases gap with
  | nil =>
    cases hc
    exact hmarks _ hmark
  | cons d gap =>
    cases hc
    exact hgaps _ (hgap _ List.mem_cons_self)

section

variable {format : Format} (plain : format.IsPlain)
include plain

theorem isGap_lineBreak (depth : Nat) : ∀ c ∈ (format.lineBreak depth).toList, isGap c = true := by
  rw [Format.lineBreak]
  cases hindent : format.indent with
  | none => simp
  | some indent =>
    have hblank := plain.indent indent hindent
    dsimp only
    rw [String.toList_append, List.forall_mem_append]
    refine ⟨by decide, ?_⟩
    induction depth with
    | zero => simp
    | succ depth ih =>
      rw [List.replicate_succ, String.join_cons, String.toList_append, List.forall_mem_append]
      exact ⟨hblank, ih⟩

theorem separator_eq (depth : Nat) : ∃ gap, (format.separator depth).toList = ',' :: gap
    ∧ ∀ c ∈ gap, isGap c = true := by
  rw [Format.separator]
  cases hindent : format.indent with
  | none =>
    refine ⟨[' '], ?_, by decide⟩
    show ", ".toList = _
    decide
  | some indent =>
    refine ⟨(format.lineBreak depth).toList, ?_, isGap_lineBreak plain depth⟩
    rw [String.toList_append]
    rfl

end

/-! ## Numbers and names -/

/-- What may open a value: no white space, no mark that ends a list or an object, and no mark that
opens a file. -/
def OpensValue (c : Char) : Prop := isGap c = false ∧ c ≠ ']' ∧ c ≠ '\x7d' ∧ c ≠ '\uFEFF'

instance (c : Char) : Decidable (OpensValue c) := inferInstanceAs (Decidable (_ ∧ _))

/-- What is taken for a number has a digit behind an optional sign. -/
theorem exists_of_takeNumber {s : List Char} {n : Number} {rest : List Char}
    (htake : takeNumber s = .ok (n, rest)) : ∃ (negative : Bool) (d : Char) (more : List Char),
      s = (if negative then ['-'] else []) ++ d :: more ∧ d.isDigit = true := by
  have hwhole : (takeWhole (takeMinus s).2).1 ≠ [] := by
    intro hempty
    rw [takeNumber_eq] at htake
    dsimp only at htake
    rw [if_pos (by rw [hempty, List.isEmpty_nil])] at htake
    cases htake
  have hbody : ∃ d more, (takeMinus s).2 = d :: more ∧ d.isDigit = true := by
    rw [takeWhole.eq_def] at hwhole
    split at hwhole
    · rename_i more heq
      exact ⟨'0', more, heq, rfl⟩
    · rw [List.span_eq_takeWhile_dropWhile] at hwhole
      obtain ⟨d, more, hcons⟩ := List.exists_cons_of_ne_nil
        (fun hnil ↦ hwhole (by rw [hnil]; rfl) : (takeMinus s).2 ≠ [])
      refine ⟨d, more, hcons, by_contra fun hd ↦ hwhole ?_⟩
      rw [hcons]
      exact List.takeWhile_cons_of_neg hd
  obtain ⟨d, more, hcons, hd⟩ := hbody
  rw [takeMinus.eq_def] at hcons
  split at hcons
  · exact ⟨true, d, more, congrArg (List.cons '-') hcons, hd⟩
  · exact ⟨false, d, more, hcons, hd⟩

theorem takeName_eq_none {c : Char} (hc : c ∉ ['n', 't', 'f', 'N', 'I', '-']) (s : List Char) :
    takeName (c :: s) = none := by
  have hne : ∀ d ∈ ['n', 't', 'f', 'N', 'I', '-'], d ≠ c := fun d hd heq ↦ hc (heq ▸ hd)
  rw [takeName, Option.map_eq_none_iff, List.find?_eq_none]
  simp [hne]

/-- No name stands where a number does. -/
theorem takeName_of_takeNumber {s : List Char} {n : Number} {rest : List Char}
    (htake : takeNumber s = .ok (n, rest)) : takeName s = none := by
  obtain ⟨negative, d, more, rfl, hd⟩ := exists_of_takeNumber htake
  have hletters : ∀ c ∈ ['n', 't', 'f', 'N', 'I', '-'], c.isDigit = false := by decide
  cases negative with
  | true =>
    have hletter : ('I' == d) = false := by
      rw [beq_eq_false_iff_ne]
      rintro rfl
      cases hd
    simp [takeName, List.isPrefixOf, hletter]
  | false => exact takeName_eq_none (fun hmem ↦ by rw [hletters d hmem] at hd; cases hd) more

theorem takeValue_number {s : List Char} {n : Number} {rest : List Char}
    (htake : takeNumber s = .ok (n, rest)) (fuel : Nat) :
    takeValue (fuel + 1) s = .ok (.num n, rest) := by
  have hname := takeName_of_takeNumber htake
  have hopen : ∀ c ∈ s.head?, c ≠ '"' ∧ c ≠ '[' ∧ c ≠ '\x7b' := by
    obtain ⟨negative, d, more, rfl, hd⟩ := exists_of_takeNumber htake
    cases negative with
    | true =>
      rintro c ⟨⟩
      decide
    | false =>
      rintro c ⟨⟩
      refine ⟨?_, ?_, ?_⟩ <;> rintro rfl <;> cases hd
  rw [takeValue.eq_def]
  dsimp only
  split
  · exact absurd rfl (hopen _ rfl).1
  · exact absurd rfl (hopen _ rfl).2.1
  · exact absurd rfl (hopen _ rfl).2.2
  · rw [hname, htake]
    rfl

theorem exists_of_takeName {s : List Char} {v : Json} {rest : List Char}
    (htake : takeName s = some (v, rest)) : ∃ c more, s = c :: more ∧ OpensValue c := by
  have hletters : ∀ c ∈ ['n', 't', 'f', 'N', 'I', '-'], OpensValue c := by decide
  cases s with
  | nil => cases htake
  | cons c more =>
    refine ⟨c, more, rfl, by_contra fun hc ↦ ?_⟩
    rw [takeName_eq_none (mt (hletters c) hc)] at htake
    cases htake

/-- **What is taken for a value shows so in its first character.** -/
theorem exists_of_takeValue {fuel : Nat} {s : List Char} {v : Json} {rest : List Char}
    (htake : takeValue fuel s = .ok (v, rest)) : ∃ c more, s = c :: more ∧ OpensValue c := by
  cases fuel with
  | zero =>
    rw [takeValue] at htake
    cases htake
  | succ fuel =>
    rw [takeValue.eq_def] at htake
    dsimp only at htake
    split at htake
    · exact ⟨_, _, rfl, by decide⟩
    · exact ⟨_, _, rfl, by decide⟩
    · exact ⟨_, _, rfl, by decide⟩
    · split at htake
      · rename_i hname
        exact exists_of_takeName hname
      · obtain ⟨⟨n, left⟩, hnumber, -⟩ := bind_eq_ok.mp htake
        obtain ⟨negative, d, more, rfl, hd⟩ := exists_of_takeNumber hnumber
        cases negative with
        | true => exact ⟨'-', d :: more, rfl, by decide⟩
        | false =>
          have hgap : isGap d = false := by
            rw [isGap, Bool.or_eq_false_iff, Bool.or_eq_false_iff, Bool.or_eq_false_iff]
            refine ⟨⟨⟨?_, ?_⟩, ?_⟩, ?_⟩ <;> rw [beq_eq_false_iff_ne] <;> rintro rfl <;> cases hd
          refine ⟨d, more, rfl, hgap, ?_, ?_, ?_⟩ <;> rintro rfl <;> cases hd

/-! ## Strings -/

theorem codesText_toNat (asciiOnly : Bool) (s : String) :
    codesText asciiOnly (s.toList.map Char.toNat) = stringText asciiOnly s := by
  rw [codesText, List.flatMap_map, funext (escapedCode_toNat asciiOnly), stringText]

theorem escapedCode_ne_nil (asciiOnly : Bool) (n : Nat) : escapedCode asciiOnly n ≠ [] := by
  rw [escapedCode]
  split
  · intro hempty
    -- An empty text would be read without fuel.
    have hread := takeString_escapedChar asciiOnly (Char.ofNat n) 0 [] ['"']
    rw [hempty] at hread
    cases hread
  · rintro ⟨⟩

theorem length_le_escaped (asciiOnly : Bool) (codes : List Nat) :
    codes.length ≤ (codes.flatMap (escapedCode asciiOnly)).length := by
  induction codes with
  | nil => exact Nat.zero_le _
  | cons n codes ih =>
    have hpos := List.length_pos_iff.mpr (escapedCode_ne_nil asciiOnly n)
    rw [List.flatMap_cons, List.length_append, List.length_cons]
    omega

/-- A string is taken off the front of any rest. -/
theorem exists_codesText (asciiOnly : Bool) {codes : List Nat} (h : AreCodes codes)
    (rest : List Char) : ∃ inner, (codesText asciiOnly codes).toList ++ rest = '"' :: inner
      ∧ takeString (inner.length + 1) [] inner = some (codes, rest) := by
  refine ⟨codes.flatMap (escapedCode asciiOnly) ++ '"' :: rest, ?_, takeString_codes asciiOnly h ?_ [] rest⟩
  · rw [codesText, String.toList_ofList]
    simp
  · have hlength := length_le_escaped asciiOnly codes
    rw [List.length_append]
    omega

theorem takeValue_codes (asciiOnly : Bool) {codes : List Nat} (h : AreCodes codes) (fuel : Nat)
    (rest : List Char) : takeValue (fuel + 1) ((codesText asciiOnly codes).toList ++ rest)
      = .ok (ofCodes codes, rest) := by
  obtain ⟨inner, hinner, htake⟩ := exists_codesText asciiOnly h rest
  rw [hinner, takeValue, htake]

/-! ## Lists and objects -/

/-- A value is taken off the front of any rest that does not go on with a number. -/
def IsTaken (format : Format) (v : Json) : Prop :=
  ∀ (depth fuel : Nat) (rest : List Char), EndsNumber rest →
    2 * (textAt format depth v).toList.length < fuel →
    takeValue fuel ((textAt format depth v).toList ++ rest) = .ok (v, rest)

variable {format : Format}

/-- A value that is taken shows so in its first character. -/
theorem IsTaken.exists_cons {v : Json} (h : IsTaken format v) (depth : Nat) :
    ∃ c more, (textAt format depth v).toList = c :: more ∧ OpensValue c := by
  have htake := h depth _ [] (by rintro c ⟨⟩) (Nat.lt_succ_self _)
  rw [List.append_nil] at htake
  exact exists_of_takeValue htake

theorem IsTaken.exists_items {item : Json} (h : IsTaken format item) (depth : Nat)
    (more : List Json) :
    ∃ c s, (itemsText format depth (item :: more)).toList = c :: s ∧ OpensValue c := by
  obtain ⟨c, s, hcons, hc⟩ := h.exists_cons depth
  cases more with
  | nil => exact ⟨c, s, hcons, hc⟩
  | cons next more =>
    rw [itemsText, String.toList_append, String.toList_append, hcons]
    · exact ⟨c, _, rfl, hc⟩
    · rintro ⟨⟩

theorem takeItems_text (plain : format.IsPlain) {items : List Json} (hne : items ≠ [])
    (taken : ∀ item ∈ items, IsTaken format item) (depth : Nat) {fuel : Nat}
    (hfuel : 2 * (itemsText format depth items).toList.length + 1 < fuel) {gap : List Char}
    (hgap : ∀ c ∈ gap, isGap c = true) (rest : List Char) :
    takeItems fuel ((itemsText format depth items).toList ++ (gap ++ ']' :: rest)) = .ok (items, rest) := by
  induction items generalizing fuel with
  | nil => exact absurd rfl hne
  | cons item more ih =>
    obtain ⟨hitem, hmore⟩ := List.forall_mem_cons.mp taken
    obtain ⟨fuel, rfl⟩ := Nat.exists_eq_add_one_of_ne_zero (Nat.ne_zero_of_lt hfuel)
    rw [takeItems]
    cases more with
    | nil =>
      rw [itemsText] at hfuel ⊢
      refine bind_eq_ok.mpr ⟨_, hitem depth fuel _ (endsNumber_gap hgap (by decide) rest) (by omega), ?_⟩
      dsimp only
      rw [skipSpace_gap hgap (by rintro c ⟨⟩; rfl)]
      rfl
    | cons next more =>
      obtain ⟨sep, hsep, hblank⟩ := separator_eq plain depth
      obtain ⟨c, s, hopens, hc⟩ := (hmore next List.mem_cons_self).exists_items depth more
      have htext : (itemsText format depth (item :: next :: more)).toList =
          (textAt format depth item).toList
            ++ ',' :: (sep ++ (itemsText format depth (next :: more)).toList) := by
        rw [itemsText, String.toList_append, String.toList_append, hsep, List.append_assoc]
        · rfl
        · rintro ⟨⟩
      rw [htext, List.length_append, List.length_cons, List.length_append] at hfuel
      have hshorter : 2 * (itemsText format depth (next :: more)).toList.length + 1 < fuel := by omega
      have hread := ih (by simp) hmore hshorter
      have hskip : skipSpace (sep ++ ((itemsText format depth (next :: more)).toList
          ++ (gap ++ ']' :: rest)))
            = (itemsText format depth (next :: more)).toList ++ (gap ++ ']' :: rest) :=
        skipSpace_gap hblank (by rw [hopens]; rintro d ⟨⟩; exact hc.1)
      rw [htext, List.append_assoc, List.cons_append, List.append_assoc]
      refine bind_eq_ok.mpr ⟨_, hitem depth fuel _ (by rintro d ⟨⟩; decide) (by omega), ?_⟩
      dsimp only
      rw [skipSpace_cons (by decide)]
      show (takeItems fuel (skipSpace (sep ++ _)) >>= _) = _
      rw [hskip, hread]
      rfl

/-- A member of an object: the key, and the value behind it. -/
def memberText (format : Format) (depth : Nat) (member : String × Json) : String :=
  stringText format.asciiOnly member.1 ++ ": " ++ textAt format depth member.2

theorem membersText_cons (depth : Nat) (member next : String × Json) (more : List (String × Json)) :
    membersText format depth (member :: next :: more) =
      memberText format depth member ++ format.separator depth
        ++ membersText format depth (next :: more) := by
  rw [membersText]
  · rfl
  · rintro ⟨⟩

theorem exists_members (depth : Nat) (member : String × Json) (more : List (String × Json)) :
    ∃ s, (membersText format depth (member :: more)).toList = '"' :: s := by
  have hmember : ∃ s, (memberText format depth member).toList = '"' :: s := by
    rw [memberText, stringText]
    simp
  obtain ⟨s, hs⟩ := hmember
  cases more with
  | nil => exact ⟨s, hs⟩
  | cons next more =>
    rw [membersText_cons, String.toList_append, String.toList_append, hs]
    exact ⟨_, rfl⟩

theorem takeMembers_member {member : String × Json} (taken : IsTaken format member.2)
    (depth : Nat) {fuel : Nat} (hfuel : 2 * (memberText format depth member).toList.length < fuel)
    {rest : List Char} (hends : EndsNumber rest) :
    takeMembers (fuel + 1) ((memberText format depth member).toList ++ rest) =
      match skipSpace rest with
      | '\x7d' :: left => .ok ([member], left)
      | ',' :: more => do
        let (members, left) ← takeMembers fuel (skipSpace more)
        return (member :: members, left)
      | _ => .error .notJson := by
  obtain ⟨c, s, hopens, hc⟩ := taken.exists_cons depth
  obtain ⟨inner, hinner, hkey⟩ := exists_codesText format.asciiOnly
    (areCodes_toNat member.1.toList) (": ".toList ++ ((textAt format depth member.2).toList ++ rest))
  have htext : (memberText format depth member).toList ++ rest = '"' :: inner := by
    rw [← hinner, codesText_toNat, memberText]
    simp
  have hlength : (textAt format depth member.2).toList.length
      ≤ (memberText format depth member).toList.length := by
    rw [memberText, String.toList_append, List.length_append]
    omega
  have hvalue := taken depth fuel rest hends (by omega)
  have hskip : skipSpace ((textAt format depth member.2).toList ++ rest)
      = (textAt format depth member.2).toList ++ rest := by
    rw [hopens]
    exact skipSpace_cons hc.1 _
  rw [htext, takeMembers, hkey]
  show (takeValue fuel (skipSpace (((textAt format depth member.2).toList ++ rest))) >>= _) = _
  rw [hskip, hvalue, repaired_toNat]
  rfl

theorem takeMembers_text (plain : format.IsPlain) {members : List (String × Json)}
    (hne : members ≠ []) (taken : ∀ member ∈ members, IsTaken format member.2) (depth : Nat)
    {fuel : Nat} (hfuel : 2 * (membersText format depth members).toList.length + 1 < fuel)
    {gap : List Char} (hgap : ∀ c ∈ gap, isGap c = true) (rest : List Char) :
    takeMembers fuel ((membersText format depth members).toList ++ (gap ++ '\x7d' :: rest))
      = .ok (members, rest) := by
  induction members generalizing fuel with
  | nil => exact absurd rfl hne
  | cons member more ih =>
    obtain ⟨hmember, hmore⟩ := List.forall_mem_cons.mp taken
    obtain ⟨fuel, rfl⟩ := Nat.exists_eq_add_one_of_ne_zero (Nat.ne_zero_of_lt hfuel)
    cases more with
    | nil =>
      have hends : EndsNumber (gap ++ '\x7d' :: rest) := endsNumber_gap hgap (by decide) rest
      have hread := takeMembers_member hmember depth (Nat.lt_of_succ_lt_succ hfuel) hends
      rw [skipSpace_gap hgap (by rintro c ⟨⟩; rfl)] at hread
      exact hread
    | cons next more =>
      obtain ⟨sep, hsep, hblank⟩ := separator_eq plain depth
      obtain ⟨s, hopens⟩ := @exists_members format depth next more
      have htext : (membersText format depth (member :: next :: more)).toList =
          (memberText format depth member).toList
            ++ ',' :: (sep ++ (membersText format depth (next :: more)).toList) := by
        rw [membersText_cons, String.toList_append, String.toList_append, hsep, List.append_assoc]
        rfl
      rw [htext, List.length_append, List.length_cons, List.length_append] at hfuel
      have hshorter : 2 * (membersText format depth (next :: more)).toList.length + 1 < fuel := by omega
      have hnext := ih (by simp) hmore hshorter
      have hskip : skipSpace (sep ++ ((membersText format depth (next :: more)).toList
          ++ (gap ++ '\x7d' :: rest)))
            = (membersText format depth (next :: more)).toList ++ (gap ++ '\x7d' :: rest) :=
        skipSpace_gap hblank (by rw [hopens]; rintro d ⟨⟩; rfl)
      rw [htext, List.append_assoc, List.cons_append, List.append_assoc,
        takeMembers_member hmember depth (by omega) (by rintro d ⟨⟩; decide),
        skipSpace_cons (by decide)]
      show (takeMembers fuel (skipSpace (sep ++ _)) >>= _) = _
      rw [hskip, hnext]
      rfl

theorem ofMembers_of_nodup {members : List (String × Json)} (h : (members.map Prod.fst).Nodup) :
    ofMembers members = .obj members := by
  have hfold : ∀ (done rest : List (String × Json)), ((done ++ rest).map Prod.fst).Nodup →
      rest.foldl (fun object member ↦ put member.1 member.2 object) done = done ++ rest := by
    intro done rest
    induction rest generalizing done with
    | nil => simp
    | cons member rest ih =>
      intro hkeys
      have hnew : member.1 ∉ done.map Prod.fst := by
        rw [List.map_append, List.nodup_append] at hkeys
        exact fun hmem ↦ hkeys.2.2 _ hmem _ (List.mem_cons_self ..) rfl
      rw [List.foldl_cons, put_of_notMem hnew, ih _ (by rwa [List.append_assoc]), List.append_assoc]
      rfl
  rw [ofMembers, hfold [] members h, List.nil_append]

theorem takeValue_items {inside : List Char} (hinside : ∀ c ∈ (skipSpace inside).head?, c ≠ ']')
    {fuel : Nat} {items : List Json} {rest : List Char}
    (htake : takeItems fuel (skipSpace inside) = .ok (items, rest)) :
    takeValue (fuel + 1) ('[' :: inside) = .ok (.arr items, rest) := by
  rw [takeValue]
  split
  · rename_i heq
    exact absurd rfl (hinside ']' (by rw [heq, List.head?_cons]; exact rfl))
  · rw [htake]
    rfl

theorem takeValue_members {inside : List Char}
    (hinside : ∀ c ∈ (skipSpace inside).head?, c ≠ '\x7d') {fuel : Nat}
    {members : List (String × Json)} {rest : List Char}
    (htake : takeMembers fuel (skipSpace inside) = .ok (members, rest)) :
    takeValue (fuel + 1) ('\x7b' :: inside) = .ok (ofMembers members, rest) := by
  rw [takeValue]
  split
  · rename_i heq
    exact absurd rfl (hinside '\x7d' (by rw [heq, List.head?_cons]; exact rfl))
  · rw [htake]
    rfl

theorem isTaken_arr (plain : format.IsPlain) {items : List Json}
    (taken : ∀ item ∈ items, IsTaken format item) : IsTaken format (.arr items) := by
  intro depth fuel rest hends hfuel
  obtain ⟨fuel, rfl⟩ := Nat.exists_eq_add_one_of_ne_zero (Nat.ne_zero_of_lt hfuel)
  cases items with
  | nil =>
    rw [textAt]
    rfl
  | cons item more =>
    obtain ⟨c, s, hopens, hc⟩ := (taken item List.mem_cons_self).exists_items (depth + 1) more
    have htext : (textAt format depth (.arr (item :: more))).toList
        = '[' :: ((format.lineBreak (depth + 1)).toList
          ++ ((itemsText format (depth + 1) (item :: more)).toList
            ++ ((format.lineBreak depth).toList ++ [']']))) := by
      rw [textAt]
      · simp
      · rintro ⟨⟩
    rw [htext] at hfuel ⊢
    simp only [List.length_cons, List.length_append] at hfuel
    have hshorter : 2 * (itemsText format (depth + 1) (item :: more)).toList.length + 1 < fuel := by
      omega
    have hitems := takeItems_text plain (by simp) taken (depth + 1) hshorter
      (isGap_lineBreak plain depth) rest
    have hskip := skipSpace_gap (s := (itemsText format (depth + 1) (item :: more)).toList
        ++ ((format.lineBreak depth).toList ++ ']' :: rest)) (isGap_lineBreak plain (depth + 1))
      (by rw [hopens]; rintro d ⟨⟩; exact hc.1)
    rw [← hskip] at hitems
    simp only [List.cons_append, List.append_assoc, List.nil_append]
    exact takeValue_items (by rw [hskip, hopens]; rintro d ⟨⟩; exact hc.2.1) hitems

theorem isTaken_obj (plain : format.IsPlain) {members : List (String × Json)}
    (distinct : (members.map Prod.fst).Nodup)
    (taken : ∀ member ∈ members, IsTaken format member.2) : IsTaken format (.obj members) := by
  intro depth fuel rest hends hfuel
  obtain ⟨fuel, rfl⟩ := Nat.exists_eq_add_one_of_ne_zero (Nat.ne_zero_of_lt hfuel)
  cases members with
  | nil =>
    rw [textAt]
    rfl
  | cons member more =>
    obtain ⟨s, hopens⟩ := @exists_members format (depth + 1) member more
    have htext : (textAt format depth (.obj (member :: more))).toList
        = '\x7b' :: ((format.lineBreak (depth + 1)).toList
          ++ ((membersText format (depth + 1) (member :: more)).toList
            ++ ((format.lineBreak depth).toList ++ ['\x7d']))) := by
      rw [textAt]
      · simp
      · rintro ⟨⟩
    rw [htext] at hfuel ⊢
    simp only [List.length_cons, List.length_append] at hfuel
    have hshorter : 2 * (membersText format (depth + 1) (member :: more)).toList.length + 1 < fuel := by
      omega
    have hmembers := takeMembers_text plain (by simp) taken (depth + 1) hshorter
      (isGap_lineBreak plain depth) rest
    have hskip := skipSpace_gap (s := (membersText format (depth + 1) (member :: more)).toList
        ++ ((format.lineBreak depth).toList ++ '\x7d' :: rest)) (isGap_lineBreak plain (depth + 1))
      (by rw [hopens]; rintro d ⟨⟩; rfl)
    rw [← hskip] at hmembers
    simp only [List.cons_append, List.append_assoc, List.nil_append]
    rw [takeValue_members (by rw [hskip, hopens]; rintro d ⟨⟩; decide) hmembers,
      ofMembers_of_nodup distinct]

/-! ## Whole documents -/

/-- **A readable value is taken from its text.** -/
theorem IsReadable.isTaken (plain : format.IsPlain) {v : Json} (h : v.IsReadable) :
    IsTaken format v := by
  have hscalar : ∀ {v : Json}, (∀ (depth fuel : Nat) (rest : List Char), EndsNumber rest →
      takeValue (fuel + 1) ((textAt format depth v).toList ++ rest) = .ok (v, rest)) →
      IsTaken format v := by
    intro v hv depth fuel rest hends hfuel
    obtain ⟨fuel, rfl⟩ := Nat.exists_eq_add_one_of_ne_zero (Nat.ne_zero_of_lt hfuel)
    exact hv depth fuel rest hends
  induction h with
  | null =>
    refine hscalar fun depth fuel rest _ ↦ ?_
    rw [textAt]
    rfl
  | bool b =>
    refine hscalar fun depth fuel rest _ ↦ ?_
    rw [textAt]
    cases b <;> rfl
  | whole short =>
    refine hscalar fun depth fuel rest hends ↦ ?_
    rw [textAt]
    exact takeValue_number (takeNumber_whole short hends) fuel
  | quantity grid =>
    refine hscalar fun depth fuel rest hends ↦ ?_
    rename_i x
    rw [textAt]
    cases x with
    | finite q => exact takeValue_number (takeNumber_quantity grid rfl format.layout hends) fuel
    | negativeZero => exact takeValue_number (takeNumber_quantity grid rfl format.layout hends) fuel
    | infinite negative =>
      rw [numberText, if_pos plain.names]
      cases negative <;> rfl
    | undefined =>
      rw [numberText, if_pos plain.names]
      rfl
  | str s =>
    refine hscalar fun depth fuel rest _ ↦ ?_
    rw [textAt, ← codesText_toNat, takeValue_codes _ (areCodes_toNat _), ofCodes_toNat]
  | garbled known half =>
    refine hscalar fun depth fuel rest _ ↦ ?_
    rw [textAt, takeValue_codes _ known, ofCodes, if_neg]
    simpa using half
  | arr inner ih => exact isTaken_arr plain ih
  | obj distinct inner ih => exact isTaken_obj plain distinct ih

/-- **A document is read back from its text.** -/
theorem read_text (plain : format.IsPlain) {v : Json} (h : v.IsReadable) :
    read (v.text format).toList = .ok v := by
  have htaken := h.isTaken plain
  obtain ⟨c, s, hopens, hc⟩ := htaken.exists_cons 0
  have htake := htaken 0 (2 * (v.text format).toList.length + 2) [] (by rintro c ⟨⟩)
    (by rw [text]; omega)
  have hskip : skipSpace (v.text format).toList = (v.text format).toList := by
    rw [text, hopens, skipSpace_cons hc.1]
  rw [List.append_nil] at htake
  rw [read, hskip]
  exact bind_eq_ok.mpr ⟨_, htake, rfl⟩

end Json
end Montage
