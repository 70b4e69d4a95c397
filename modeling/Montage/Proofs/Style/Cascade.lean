import Montage.Command.Text
import Montage.Proofs.Json.Members
import Montage.Proofs.Style.Valid

/-!
# Styles laid over each other

Laying styles over each other takes every field from the last one that says something for it
(`Style.said_merged`).  So it does not matter how the styles are put together beforehand, and a
style that says nothing is no different from none.

Going by way of documents comes to the same (`Style.remade_eq`): under every key, the members that
are written over each other hold what the merged style says, and a document is read by what it holds
under its keys alone.  What has a range is in it, since it comes from one of the styles as it is; so
nothing is refused.

The text of a caption is drawn in the style of its layer, over that of its track, over that of the
timeline, over the built-in one; nothing else of the four styles matters to its filter.
-/

set_option autoImplicit false

namespace Montage
namespace Style

/-! ## What styles say -/

/-- The last of some styles that says something for a field has its way. -/
def lastSaid (field : Field) (styles : List (Option Style)) : Option Json :=
  styles.reverse.findSome? fun style ↦ style.bind fun style ↦ style.said field

variable {style base : Style} {field : Field}

/-- A style is what it says for its fields. -/
theorem eq_of_said {other : Style} (h : ∀ field, style.said field = other.said field) :
    style = other := by
  have quantity_injective : Function.Injective Json.quantity := fun _ _ h ↦ by cases h; rfl
  have str_injective : Function.Injective Json.str := fun _ _ h ↦ by cases h; rfl
  have hquantity {a b : Option Quantity} : a.map Json.quantity = b.map .quantity ↔ a = b :=
    (Option.map_injective quantity_injective).eq_iff
  have hstr {a b : Option String} : a.map Json.str = b.map .str ↔ a = b :=
    (Option.map_injective str_injective).eq_iff
  cases style
  cases other
  rw [mk.injEq]
  exact ⟨hquantity.mp (h .fontSize), hstr.mp (h .fontFamily), hstr.mp (h .fontFile),
    hstr.mp (h .fontWeight), hstr.mp (h .fontStyle), hstr.mp (h .textDecoration),
    hstr.mp (h .color), hstr.mp (h .strokeColor), hquantity.mp (h .strokeWidth),
    hstr.mp (h .backgroundColor), hquantity.mp (h .backgroundPadding), hstr.mp (h .shadowColor),
    hquantity.mp (h .shadowX), hquantity.mp (h .shadowY), hquantity.mp (h .opacity),
    hquantity.mp (h .scale), hquantity.mp (h .rotation), hquantity.mp (h .lineSpacing),
    hstr.mp (h .textAlign)⟩

@[simp]
theorem said_open : ({} : Style).said field = none := by cases field <;> rfl

@[simp]
theorem said_onto (top base : Style) :
    (top.onto base).said field = (top.said field).or (base.said field) := by
  cases field <;> exact Option.map_or

theorem onto_assoc (top middle base : Style) :
    (top.onto middle).onto base = top.onto (middle.onto base) :=
  eq_of_said fun field ↦ by simp only [said_onto, Option.or_assoc]

@[simp]
theorem open_onto (base : Style) : ({} : Style).onto base = base :=
  eq_of_said fun field ↦ by rw [said_onto, said_open, Option.none_or]

@[simp]
theorem onto_self (style : Style) : style.onto style = style :=
  eq_of_said fun field ↦ by rw [said_onto, Option.or_self]

/-! ## Merging -/

theorem merged_cons (base : Style) (override : Option Style) (overrides : List (Option Style)) :
    base.merged (override :: overrides) = ((override.getD {}).onto base).merged overrides := rfl

theorem merged_append (base : Style) (first second : List (Option Style)) :
    base.merged (first ++ second) = (base.merged first).merged second :=
  List.foldl_append

/-- Overrides can be laid over a style before that is laid over another one. -/
theorem merged_onto (top base : Style) (overrides : List (Option Style)) :
    (top.onto base).merged overrides = (top.merged overrides).onto base := by
  induction overrides generalizing top with
  | nil => rfl
  | cons override rest ih => rw [merged_cons, merged_cons, ← onto_assoc, ih]

/-- An override that says nothing can be left out. -/
theorem merged_silent {override : Option Style} (h : override.getD {} = {}) (base : Style)
    (first second : List (Option Style)) :
    base.merged (first ++ override :: second) = base.merged (first ++ second) := by
  rw [merged_append, merged_cons, h, open_onto, ← merged_append]

theorem lastSaid_cons (style : Option Style) (rest : List (Option Style)) :
    lastSaid field (style :: rest) =
      (lastSaid field rest).or (style.bind fun style ↦ style.said field) := by
  rw [lastSaid, List.reverse_cons, List.findSome?_append, List.findSome?_singleton, lastSaid]

/-- **Every field is taken from the last style that says something for it.** -/
theorem said_merged (base : Style) (overrides : List (Option Style)) :
    (base.merged overrides).said field = lastSaid field (some base :: overrides) := by
  induction overrides generalizing base with
  | nil => simp [merged, lastSaid]
  | cons override rest ih =>
    rw [merged_cons, ih, lastSaid_cons, lastSaid_cons, lastSaid_cons, Option.or_assoc,
      Option.bind_some, said_onto]
    cases override with
    | none => rw [Option.getD_none, said_open, Option.bind_none, Option.bind_some]
    | some style => rfl

/-! ## Merging documents -/

namespace Field

theorem keys_nodup : (all.map key).Nodup := by decide

end Field

section

variable {key : String}

/-- In members that are written if there is something to write, what is found under a key is what is
written for the only field of that key. -/
theorem lookup?_flatMap_ifSome {fields : List Field} (distinct : (fields.map Field.key).Nodup)
    (value : Field → Option Json) :
    Json.lookup? key (fields.flatMap fun field ↦ ifSome field.key (value field) id) =
      (fields.find? fun field ↦ field.key = key).bind value := by
  induction fields with
  | nil => rfl
  | cons first rest ih =>
    obtain ⟨hfirst, hrest⟩ := List.nodup_cons.mp distinct
    rw [List.flatMap_cons, Json.lookup?_append, Json.lookup?_ifSome, ih hrest, List.find?_cons]
    by_cases hkey : first.key = key
    · have hnone : rest.find? (fun field ↦ field.key = key) = none := by
        refine List.find?_eq_none.mpr fun field hfield heq ↦ hfirst ?_
        rw [hkey, ← of_decide_eq_true heq]
        exact List.mem_map_of_mem hfield
      simp [hkey, hnone]
    · simp [hkey]

theorem lookup?_members (style : Style) : Json.lookup? key style.members =
    (Field.all.find? fun field ↦ field.key = key).bind style.said :=
  lookup?_flatMap_ifSome Field.keys_nodup style.said

theorem lookup?_members_onto (top base : Style) : Json.lookup? key (top.onto base).members =
    (Json.lookup? key top.members).or (Json.lookup? key base.members) := by
  simp only [lookup?_members]
  cases Field.all.find? fun field ↦ field.key = key with
  | none => rfl
  | some field => exact said_onto top base

theorem keys_sublist (fields : List Field) (value : Field → Option Json) :
    ((fields.flatMap fun field ↦ ifSome field.key (value field) id).map Prod.fst).Sublist
      (fields.map Field.key) := by
  induction fields with
  | nil => exact .slnil
  | cons first rest ih =>
    rw [List.flatMap_cons, List.map_append, List.map_cons]
    cases value first with
    | none => exact ih.cons _
    | some said => exact ih.cons_cons _

theorem keys_members_nodup (style : Style) : (style.members.map Prod.fst).Nodup :=
  Field.keys_nodup.sublist (keys_sublist Field.all style.said)

/-- Under each key, members hold what was written over them, or else what was there before. -/
theorem lookup?_foldl_put {written members : List (String × Json)}
    (distinct : (written.map Prod.fst).Nodup) :
    Json.lookup? key
        (written.foldl (fun members member ↦ Json.put member.1 member.2 members) members) =
      (Json.lookup? key written).or (Json.lookup? key members) := by
  induction written generalizing members with
  | nil => rfl
  | cons first rest ih =>
    obtain ⟨hfirst, hrest⟩ := List.nodup_cons.mp distinct
    rw [List.foldl_cons, ih hrest, Json.lookup?_put, Json.lookup?_cons]
    by_cases hkey : first.1 = key
    · have hnone : Json.lookup? key rest = none := by
        refine Option.eq_none_iff_forall_ne_some.mpr fun value hvalue ↦ hfirst ?_
        rw [hkey]
        exact List.mem_map_of_mem (Json.mem_of_lookup? hvalue)
      simp [hkey, hnone]
    · simp [hkey]

theorem lookup?_overwrite {members : List (String × Json)} (override : Option Style)
    (h : ∀ key, Json.lookup? key members = Json.lookup? key base.members) :
    Json.lookup? key (overwrite members override) =
      Json.lookup? key ((override.getD {}).onto base).members := by
  rw [overwrite, lookup?_foldl_put (keys_members_nodup _), h, lookup?_members_onto]

/-- **Under every key, documents that are laid over each other hold what the merged style says.** -/
theorem lookup?_overwritten {members : List (String × Json)} (overrides : List (Option Style))
    (h : ∀ key, Json.lookup? key members = Json.lookup? key base.members) :
    Json.lookup? key (overrides.foldl overwrite members) =
      Json.lookup? key (base.merged overrides).members := by
  induction overrides generalizing members base with
  | nil => exact h key
  | cons override rest ih => exact ih fun key ↦ lookup?_overwrite override h

end

/-! ## Reading the members of a style -/

variable [Rounding]

/-- A document is read by what is found under its keys. -/
theorem decode_congr {members other : List (String × Json)}
    (h : ∀ key, Json.lookup? key members = Json.lookup? key other) :
    decode (.obj members) = decode (.obj other) := by
  have hwritten (name : String) :
      Decoder.written? name (.obj members) = Decoder.written? name (.obj other) := by
    rw [Decoder.written?, Decoder.written?, Json.get?, Json.get?, Json.get?, Json.get?, h, h]
  simp only [decode, Decoder.object, Decoder.optField_eq, hwritten]

omit [Rounding] in
theorem snakeCase_key (field : Field) : Decoder.snakeCase field.key = field.key := by
  cases field <;> decide

/-- The field of a name in a document, be it the plain one or the other. -/
def Field.ofName? (name : String) : Option Field :=
  (Field.all.find? fun field ↦ field.key = name).or
    (Field.all.find? fun field ↦ field.key = Decoder.snakeCase name)

omit [Rounding] in
theorem written?_members (style : Style) (name : String) :
    Decoder.written? name (.obj style.members) = (Field.ofName? name).bind style.said := by
  rw [Decoder.written?, Json.get?, Json.get?, lookup?_members, lookup?_members, Field.ofName?]
  cases hfield : Field.all.find? fun field ↦ field.key = name with
  | none => rfl
  | some field =>
    have hname : field.key = name := by simpa using List.find?_some hfield
    rw [← hname, snakeCase_key, hname, hfield, Option.bind_some, Option.some_or, Option.bind_some]
    cases style.said field <;> rfl

/-- The members of a valid style are read as the style. -/
theorem decode_members {style : Style} (valid : style.IsValid) :
    decode (.obj style.members) = .ok style := by
  have hname (name : String) (field : Field) (h : Field.ofName? name = some field) :
      (Field.ofName? name).bind style.said = style.said field := by rw [h, Option.bind_some]
  simp only [decode, Decoder.object, Decoder.optField_eq, written?_members,
    hname "fontSize" .fontSize (by decide), hname "fontFamily" .fontFamily (by decide),
    hname "fontFile" .fontFile (by decide), hname "fontWeight" .fontWeight (by decide),
    hname "fontStyle" .fontStyle (by decide), hname "textDecoration" .textDecoration (by decide),
    hname "color" .color (by decide), hname "strokeColor" .strokeColor (by decide),
    hname "strokeWidth" .strokeWidth (by decide),
    hname "backgroundColor" .backgroundColor (by decide),
    hname "backgroundPadding" .backgroundPadding (by decide),
    hname "shadowColor" .shadowColor (by decide), hname "shadowX" .shadowX (by decide),
    hname "shadowY" .shadowY (by decide), hname "opacity" .opacity (by decide),
    hname "scale" .scale (by decide), hname "rotation" .rotation (by decide),
    hname "lineSpacing" .lineSpacing (by decide), hname "textAlign" .textAlign (by decide)]
  simp [said, Decoder.readIf_such valid.fontSize, Decoder.readIf_such valid.strokeWidth,
    Decoder.readIf_such valid.backgroundPadding, Decoder.readIf_such valid.opacity,
    Decoder.readIf_such valid.scale]

/-- All that is said among some styles is in its range. -/
def AreValid (styles : List (Option Style)) : Prop :=
  ∀ style ∈ styles, ∀ given ∈ style, given.IsValid

/-- **Valid styles can always be laid over each other by way of documents**, and what results is the
first with the others laid over it field by field. -/
theorem remade_eq {base : Style} (valid : base.IsValid) {overrides : List (Option Style)}
    (h : AreValid overrides) : base.remade overrides = .ok (base.merged overrides) := by
  rw [remade, decode_congr fun key ↦ lookup?_overwritten overrides fun _ ↦ rfl,
    decode_members (valid.merged h)]
  rfl

end Style

/-! ## Drawn text -/

namespace Command

theorem effectiveStyle_said (defaultStyle : Option Style) (drawing : Drawing) (layer : Layer)
    (field : Style.Field) :
    (effectiveStyle defaultStyle drawing layer).said field =
      ((layer.style.bind (·.said field)).or <| (drawing.trackStyle.bind (·.said field)).or <|
        (defaultStyle.bind (·.said field)).or <| Style.builtIn.said field) := by
  rw [effectiveStyle, Style.effective, Style.said_merged]
  simp only [Style.lastSaid_cons, Option.or_assoc, Option.bind_some]
  rfl

/-- A style that is completed is not completed any further. -/
theorem effective_effectiveStyle (defaultStyle : Option Style) (drawing : Drawing) (layer : Layer) :
    Style.effective [none, none, some (effectiveStyle defaultStyle drawing layer)] =
      effectiveStyle defaultStyle drawing layer := by
  have heffective (styles : List (Option Style)) :
      Style.effective styles = (({} : Style).merged styles).onto Style.builtIn := by
    rw [← Style.merged_onto, Style.open_onto, Style.effective]
  rw [effectiveStyle, heffective [defaultStyle, _, _], Style.effective, Style.merged_cons,
    Style.merged_cons, Style.merged_cons, Option.getD_none, Style.open_onto, Style.open_onto,
    Option.getD_some, Style.onto_assoc, Style.onto_self]
  rfl

variable [Rounding]

/-- **Nothing but the style in effect matters to drawn text**: it is drawn as if the layer said that
style, and nobody else said anything. -/
theorem textFilter_effectiveStyle (canvas : Canvas) (defaultStyle : Option Style) (layer : Layer)
    (drawing : Drawing) :
    textFilter canvas none { layer with style := some (effectiveStyle defaultStyle drawing layer) }
        { drawing with trackStyle := none } =
      textFilter canvas defaultStyle layer drawing := by
  have hstyle := effective_effectiveStyle defaultStyle drawing layer
  simp only [textFilter, effectiveStyle] at hstyle ⊢
  rw [hstyle]
  rfl

/-- What a filter that draws text takes from a style: its font, the size of its letters, its color, and
the options for a border, for a box, for a shadow and for the lines, as far as an animation has not
moved them.  All else is what is drawn, where and when. -/
inductive IsDrawnIn (style : Style) (canvas : Canvas) (layer : Layer) (drawing : Drawing) :
    Filter → Prop
  | intro {size : Number} {x y : Expr} {color : String}
      {moved stroke box shadow lines placed : List (String × OptionValue)}
      (hsize : (Number.real (style.fontSize.getD (.finite 24))).mul
        (.real (style.scale.getD (.finite 1))) = .ok size)
      (hmoved : movedOptions canvas layer drawing x y (.num size) = .ok moved)
      (hcolor : Color.filterText (style.color.getD "white") (style.opacity.map .real) = .ok color)
      (hstroke : strokeOptions style moved = .ok stroke) (hbox : boxOptions style = .ok box)
      (hshadow : shadowOptions style = .ok shadow) (hlines : lineOptions style size = .ok lines)
      (hplaced : ∀ option ∈ placed, option.1 ∈ ["x", "y", "alpha", "enable"]) :
      IsDrawnIn style canvas layer drawing (.named "drawtext" <|
        [("text", .display drawing.text)] ++ fontOptions style
          ++ [("fontsize", (Json.lookup? "fontsize" moved).getD (.expr (.num size))),
            ("fontcolor", .plain color)]
          ++ stroke ++ box ++ shadow ++ lines ++ placed)

omit [Rounding] in
theorem mem_optional {key : String} {value : Option OptionValue} {option : String × OptionValue}
    (h : option ∈ optional key value) : option.1 = key := by
  cases value with
  | none => cases h
  | some value => rw [List.mem_singleton.mp h]

/-- **Text is drawn in the style in effect.** -/
theorem textFilter_isDrawnIn {canvas : Canvas} {defaultStyle : Option Style} {layer : Layer}
    {drawing : Drawing} {filter : Filter}
    (h : textFilter canvas defaultStyle layer drawing = .ok filter) :
    IsDrawnIn (effectiveStyle defaultStyle drawing layer) canvas layer drawing filter := by
  obtain ⟨size, hsize, h⟩ := bind_eq_ok.mp h
  obtain ⟨⟨x, y⟩, -, h⟩ := bind_eq_ok.mp h
  obtain ⟨moved, hmoved, h⟩ := bind_eq_ok.mp h
  obtain ⟨color, hcolor, h⟩ := bind_eq_ok.mp h
  obtain ⟨stroke, hstroke, h⟩ := bind_eq_ok.mp h
  obtain ⟨box, hbox, h⟩ := bind_eq_ok.mp h
  obtain ⟨shadow, hshadow, h⟩ := bind_eq_ok.mp h
  obtain ⟨lines, hlines, h⟩ := bind_eq_ok.mp h
  obtain ⟨enable, -, h⟩ := bind_eq_ok.mp h
  obtain rfl := pure_eq_ok.mp h
  have hplaced : ∀ option ∈ [("x", (Json.lookup? "x" moved).getD (.expr x)),
      ("y", (Json.lookup? "y" moved).getD (.expr y))] ++ optional "alpha" (Json.lookup? "alpha" moved)
        ++ optional "enable" (enable.map .expr), option.1 ∈ ["x", "y", "alpha", "enable"] := by
    intro option hoption
    rcases List.mem_append.mp hoption with hoption | hoption
    · rcases List.mem_append.mp hoption with hoption | hoption
      · rcases List.mem_pair.mp hoption with rfl | rfl <;> simp
      · rw [mem_optional hoption]
        decide
    · rw [mem_optional hoption]
      decide
  have drawn := IsDrawnIn.intro hsize hmoved hcolor hstroke hbox hshadow hlines hplaced
  rw [← List.append_assoc, ← List.append_assoc] at drawn
  exact drawn

end Command

/-- **Styles cascade field by field.**  Valid styles can always be laid over each other, and every
field is taken from the last style that says something for it.  Therefore it does not matter whether
they are laid over the first one all at once, or one part after the other, or over each other
beforehand; and an override that is missing or open changes nothing.

The text of a caption is drawn in a style that takes every field from the layer, or else from its
track, or else from the timeline, or else from the built-in style, and in nothing else. -/
theorem Style.remade_cascades [Rounding] {base : Style} (valid : base.IsValid)
    {overrides : List (Option Style)} (h : AreValid overrides) :
    (base.remade overrides = .ok (base.merged overrides) ∧
      ∀ field, (base.merged overrides).said field = lastSaid field (some base :: overrides)) ∧
    (∀ first second, overrides = first ++ second →
      (base.remade first >>= fun merged ↦ merged.remade second) = base.remade overrides) ∧
    (∀ top rest, overrides = some top :: rest →
      (top.remade rest >>= fun merged ↦ base.remade [some merged]) = base.remade overrides) ∧
    (base.remade [] = .ok base ∧
      ∀ first silent rest, overrides = first ++ silent :: rest →
        silent = none ∨ silent = some ({} : Style) →
        base.remade (first ++ rest) = base.remade overrides) ∧
    ∀ (canvas : Command.Canvas) (defaultStyle : Option Style) (layer : Layer) (caption : Caption)
      (drawing : Command.Drawing), layer.content = .caption caption →
      Command.drawingOf layer.content = some drawing →
      AreValid [defaultStyle, caption.trackStyle, layer.style] →
      ∃ style, builtIn.remade [defaultStyle, caption.trackStyle, layer.style] = .ok style ∧
        Command.effectiveStyle defaultStyle drawing layer = style ∧
        (∀ field, style.said field =
          ((layer.style.bind (·.said field)).or <| (caption.trackStyle.bind (·.said field)).or <|
            (defaultStyle.bind (·.said field)).or <| builtIn.said field)) ∧
        (∀ filter, Command.textFilter canvas defaultStyle layer drawing = .ok filter →
          Command.IsDrawnIn style canvas layer drawing filter) ∧
        Command.textFilter canvas defaultStyle layer drawing =
          Command.textFilter canvas none { layer with style := some style }
            { drawing with trackStyle := none } := by
  refine ⟨⟨remade_eq valid h, fun field ↦ said_merged base overrides⟩, ?_, ?_, ⟨?_, ?_⟩, ?_⟩
  · rintro first second rfl
    obtain ⟨hfirst, hsecond⟩ := List.forall_mem_append.mp h
    rw [remade_eq valid h, remade_eq valid hfirst, merged_append]
    exact remade_eq (valid.merged hfirst) hsecond
  · rintro top rest rfl
    obtain ⟨htop, hrest⟩ := List.forall_mem_cons.mp h
    have hmerged : (top.merged rest).IsValid := (htop top rfl).merged hrest
    rw [remade_eq valid h, remade_eq (htop top rfl) hrest, merged_cons, Option.getD_some,
      merged_onto]
    exact remade_eq valid
      (List.forall_mem_singleton.mpr fun _ hsome ↦ Option.some.inj hsome ▸ hmerged)
  · exact remade_eq valid (List.forall_mem_nil _)
  · rintro first silent rest rfl hsilent
    obtain ⟨hfirst, hrest⟩ := List.forall_mem_append.mp h
    have hkept : AreValid (first ++ rest) :=
      List.forall_mem_append.mpr ⟨hfirst, (List.forall_mem_cons.mp hrest).2⟩
    have hopen : silent.getD {} = {} := by rcases hsilent with rfl | rfl <;> rfl
    rw [remade_eq valid h, remade_eq valid hkept, merged_silent hopen]
  · rintro canvas defaultStyle layer caption drawing hcontent hdrawing hvalid
    rw [hcontent] at hdrawing
    cases hdrawing
    exact ⟨_, remade_eq (by decide) hvalid, rfl,
      Command.effectiveStyle_said defaultStyle ⟨caption.text, caption.trackStyle, caption.animation⟩
        layer, fun _ ↦ Command.textFilter_isDrawnIn,
      (Command.textFilter_effectiveStyle canvas defaultStyle layer _).symm⟩

/-! ## A caption on a red track -/

attribute [local instance] Rounding.binary64

/-- A caption of a track whose letters are red and have a border. -/
def redCaption : Caption where
  text := "Hi"
  trackStyle := some { color := some "#ff0000", strokeWidth := some (.finite 2) }

/-- The layer of the caption, whose letters are bold and half transparent. -/
def redLayer : Layer where
  duration := some (.finite 2)
  style := some { fontWeight := some "bold", opacity := some (.finite (1 / 2)) }
  content := .caption redCaption

/-- The canvas that the layer is drawn on. -/
def redCanvas : Command.Canvas := ⟨1920, 1080, .finite 30, .finite 2⟩

/-- What a timeline says whose letters are green unless another color is given. -/
def greenStyle : Style := { fontFamily := some "Arial", color := some "#00ff00" }

/-- A word that is spoken, half transparent: the color and the stroke of the spoken word win over
those of the word at rest, and what is missing in between changes nothing.  The letters of a caption
are as large as is built in, of the family that the timeline says, in the color and with the border
that the track says, and as bold and transparent as the layer says. -/
theorem Style.wordRest_cascades :
    wordRest.IsValid ∧
    AreValid [some wordActive, none, some { opacity := some (.finite (1 / 2)) }] ∧
    remade wordRest [some wordActive, none, some { opacity := some (.finite (1 / 2)) }] = .ok {
      fontSize := some (.finite 32), color := some "#ff0066", strokeColor := some "#000000",
      strokeWidth := some (.finite 2), opacity := some (.finite (1 / 2)) } ∧
    AreValid [some greenStyle, redCaption.trackStyle, redLayer.style] ∧
    ∃ drawing filter, Command.drawingOf redLayer.content = some drawing ∧
      Command.textFilter redCanvas (some greenStyle) redLayer drawing = .ok filter ∧
      Command.IsDrawnIn {
        fontSize := some (.finite 24), fontFamily := some "Arial", fontWeight := some "bold"
        color := some "#ff0000", strokeWidth := some (.finite 2)
        opacity := some (.finite (1 / 2)) } redCanvas redLayer drawing filter ∧
      filter.render = "drawtext=text=Hi:font=\\'Arial:style=Bold\\':fontsize=24" ++
        ":fontcolor=0xFF0000@0.5:borderw=2:bordercolor=0x000000" ++
        ":x='w*0.5-text_w/2':y='h*0.5-text_h/2'" := by
  have valid : AreValid [some wordActive, none, some { opacity := some (.finite (1 / 2)) }] := by
    rintro _ hstyle style rfl
    simp only [List.mem_cons, List.not_mem_nil, Option.some.injEq, reduceCtorEq, or_false,
      false_or] at hstyle
    rcases hstyle with rfl | rfl <;> decide +kernel
  have given : AreValid [some greenStyle, redCaption.trackStyle, redLayer.style] := by
    rintro _ hstyle style rfl
    simp only [redCaption, redLayer, List.mem_cons, List.not_mem_nil, Option.some.injEq,
      or_false] at hstyle
    rcases hstyle with rfl | rfl | rfl <;> decide +kernel
  obtain ⟨⟨hmerged, -⟩, -, -, -, hdrawn⟩ := remade_cascades wordRest_isValid valid
  let drawing : Command.Drawing := ⟨redCaption.text, redCaption.trackStyle, redCaption.animation⟩
  obtain ⟨style, -, rfl, -, hstyle, -⟩ :=
    hdrawn redCanvas (some greenStyle) redLayer redCaption drawing rfl rfl given
  obtain ⟨filter, hfilter, hrender⟩ := Option.map_eq_some_iff.mp (by decide +kernel :
    (Command.textFilter redCanvas (some greenStyle) redLayer drawing).toOption.map Filter.render =
      some ("drawtext=text=Hi:font=\\'Arial:style=Bold\\':fontsize=24" ++
        ":fontcolor=0xFF0000@0.5:borderw=2:bordercolor=0x000000" ++
        ":x='w*0.5-text_w/2':y='h*0.5-text_h/2'"))
  have hfilter := toOption_eq_some.mp hfilter
  exact ⟨wordRest_isValid, valid, hmerged, given, drawing, filter, rfl, hfilter,
    hstyle filter hfilter, hrender⟩

end Montage
