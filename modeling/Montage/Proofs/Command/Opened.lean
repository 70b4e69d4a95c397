import Montage.Proofs.Command.Arguments

/-!
# How files are opened

A still picture and a looped sound repeat, which is a matter of the flags that stand before their
file in the command.  The file of several layers is opened once, and with the flags of the first of
them alone (`find?_inputsOf`); what the other layers ask for is dropped.

So a layer reads a file that is opened as it asks for, whatever the other layers are, as long as all
layers with that file ask for the same; and if two of them do not, one of them reads a file that is
opened in another way (`opened_as_asked_iff`).  What is said about the inputs of a graph holds of the
command, where the flags of an input are those that stand between it and the input before
(`openedInputs`).
-/

set_option autoImplicit false

namespace Montage
namespace Command

/-! ## The first layer with a file -/

/-- A layer is the first one with a file. -/
def IsFirstWith (path : String) (first : Layer) (layers : List Layer) : Prop :=
  ∃ before after, layers = before ++ first :: after ∧ mediaPath first = some path ∧
    ∀ other ∈ before, mediaPath other ≠ some path

theorem find?_foldl_register (inputs more : List Input) (path : String) :
    (more.foldl register inputs).find? (·.path == path) =
      (inputs ++ more).find? (·.path == path) := by
  induction more generalizing inputs with
  | nil => rw [List.foldl_nil, List.append_nil]
  | cons input rest ih =>
    rw [List.foldl_cons, ih, register]
    split
    · rename_i hknown
      obtain ⟨known, hknown, hpath⟩ := List.any_eq_true.mp hknown
      rw [List.find?_append, List.find?_append, List.find?_cons]
      split
      · -- the file that is looked for is there already
        rename_i hfound
        have hsome : (inputs.find? (·.path == path)).isSome = true := by
          rw [List.find?_isSome]
          exact ⟨known, hknown, by rw [beq_iff_eq] at hpath hfound ⊢; rw [hpath, hfound]⟩
        obtain ⟨found, hfound⟩ := Option.isSome_iff_exists.mp hsome
        rw [hfound]
        rfl
      · rfl
    · rw [List.append_assoc, List.singleton_append]

/-- **An input is that of the first layer with its file.** -/
theorem find?_inputsOf (layers : List Layer) (path : String) :
    (inputsOf layers).find? (·.path == path) = (layers.filterMap inputOf).find? (·.path == path) := by
  rw [inputsOf, find?_foldl_register, List.nil_append]

theorem inputOf_eq_some {layer : Layer} {source : Source} (h : sourceOf layer.content = some source) :
    inputOf layer = some ⟨source.path, flagsOf layer.content⟩ := by
  rw [inputOf, h]
  rfl

theorem any_inputOf (layer : Layer) (path : String) :
    (inputOf layer).any (·.path == path) = true ↔ mediaPath layer = some path := by
  cases hsource : sourceOf layer.content with
  | none => simp [inputOf, mediaPath, hsource]
  | some source => simp [inputOf, mediaPath, hsource]

/-- A file with a layer has a first one, which opens it. -/
theorem exists_isFirstWith {layers : List Layer} {layer : Layer} {path : String}
    (hlayer : layer ∈ layers) (hpath : mediaPath layer = some path) :
    ∃ first, IsFirstWith path first layers ∧ ⟨path, flagsOf first.content⟩ ∈ inputsOf layers := by
  have hsome : (layers.find? fun layer ↦ (inputOf layer).any (·.path == path)).isSome = true := by
    rw [List.find?_isSome]
    exact ⟨layer, hlayer, (any_inputOf layer path).mpr hpath⟩
  obtain ⟨first, hfirst⟩ := Option.isSome_iff_exists.mp hsome
  obtain ⟨hany, before, after, hlayers, hbefore⟩ := List.find?_eq_some_iff_append.mp hfirst
  have hmedia := (any_inputOf first path).mp hany
  refine ⟨first, ⟨before, after, hlayers, hmedia, fun other hother hother' ↦ ?_⟩, ?_⟩
  · have hnone := hbefore other hother
    rw [(any_inputOf other path).mpr hother'] at hnone
    cases hnone
  · obtain ⟨source, hsource, rfl⟩ := Option.map_eq_some_iff.mp hmedia
    have hfound := find?_inputsOf layers source.path
    rw [List.find?_filterMap, hfirst, Option.bind_some, inputOf_eq_some hsource] at hfound
    exact List.mem_of_find?_eq_some hfound

/-- An input is determined by its file. -/
theorem input_unique {layers : List Layer} {first second : Input} (hfirst : first ∈ inputsOf layers)
    (hsecond : second ∈ inputsOf layers) (hpath : first.path = second.path) : first = second := by
  have hnodup : ((inputsOf layers).map Input.path).Nodup := by
    rw [map_path_inputsOf]
    exact nodup_eraseDups _
  exact List.inj_on_of_nodup_map hnodup hfirst hsecond hpath

/-! ## What layers read -/

/-- The stage that gives out `label` is fed by the picture or the sound of an input. -/
def FedBy (compiled : Compiled) (sound : Bool) (label : String) (input : Input) : Prop :=
  ∃ stage ∈ compiled.graph.stages, stage.outputs = [label] ∧ ∃ pad stream, stage.inputs = [stream] ∧
    Draws compiled.graph.stages pad stream ∧ pad.sound = sound ∧
      compiled.inputs[pad.input]? = some input

/-- Whatever a layer has, picture or sound, is prepared from an input; `before` are the layers before
it. -/
structure ReadsFrom (compiled : Compiled) (before : List Layer) (layer : Layer) (input : Input) :
    Prop where
  picture : ∀ picture, Picture.ofContent layer.content = some picture → FedBy compiled false
    (numbered "l" (before.filterMap fun layer ↦ Picture.ofContent layer.content).length) input
  sound : ∀ sound, Sound.ofContent layer.content = some sound → FedBy compiled true
    (numbered "a" (before.filterMap fun layer ↦ Sound.ofContent layer.content).length) input

theorem FedBy.mem {compiled : Compiled} {sound : Bool} {label : String} {input : Input}
    (h : FedBy compiled sound label input) : input ∈ compiled.inputs := by
  obtain ⟨stage, -, -, pad, stream, -, -, -, hinput⟩ := h
  exact List.mem_of_getElem? hinput

/-- A layer with a file has a picture or a sound. -/
theorem picture_or_sound {content : Content} {source : Source} (h : sourceOf content = some source) :
    (∃ picture, Picture.ofContent content = some picture) ∨
      ∃ sound, Sound.ofContent content = some sound := by
  cases content with
  | video video => exact .inl ⟨_, rfl⟩
  | image image => exact .inl ⟨_, rfl⟩
  | audio audio => exact .inr ⟨_, rfl⟩
  | text | caption | filter => cases h

theorem ReadsFrom.mem {compiled : Compiled} {before : List Layer} {layer : Layer} {input : Input}
    {source : Source} (h : ReadsFrom compiled before layer input)
    (hsource : sourceOf layer.content = some source) : input ∈ compiled.inputs := by
  rcases picture_or_sound hsource with ⟨picture, hpicture⟩ | ⟨sound, hsound⟩
  · exact (h.picture picture hpicture).mem
  · exact (h.sound sound hsound).mem

section Compiled

variable [Rounding] {timeline : Timeline} {compiled : Compiled}
  (h : compile timeline = .ok compiled)
include h

/-- What is prepared from a file is fed by the input with that file. -/
theorem fedBy_of_preparedFrom {input : Input} {sound : Bool} {label : String}
    {filters : Except Error (List Filter)} (hinput : input ∈ compiled.inputs)
    (hprepared : PreparedFrom compiled input.path sound filters label) :
    FedBy compiled sound label input := by
  obtain ⟨stage, hstage, houtput, -, pad, stream, hstream, hdraws, hsound, hpad⟩ := hprepared
  obtain ⟨other, hother, hpath⟩ := Option.map_eq_some_iff.mp hpad
  have hmem := List.mem_of_getElem? hother
  rw [inputs_of_compile h] at hinput hmem
  rw [input_unique hmem hinput hpath] at hother
  exact ⟨stage, hstage, houtput, pad, stream, hstream, hdraws, hsound, hother⟩

/-- **A layer reads the input with its file.** -/
theorem readsFrom_of_mem {before after : List Layer} {layer : Layer} {source : Source}
    {input : Input} (hlayers : timeline.layers = before ++ layer :: after)
    (hsource : sourceOf layer.content = some source) (hinput : input ∈ compiled.inputs)
    (hpath : input.path = source.path) : ReadsFrom compiled before layer input := by
  obtain ⟨parts⟩ := compile_parts h
  constructor
  · intro picture hpicture
    obtain rfl := Option.some.inj (hsource.symm.trans (sourceOf_picture hpicture))
    exact fedBy_of_preparedFrom h hinput
      (hpath ▸ parts.wellLinked.picture_from _ _ _ _ _ parts.canvas_eq hlayers hpicture)
  · intro sound hsound
    obtain rfl := Option.some.inj (hsource.symm.trans (sourceOf_sound hsound))
    exact fedBy_of_preparedFrom h hinput
      (hpath ▸ parts.wellLinked.sound_from _ _ _ _ _ parts.canvas_eq hlayers hsound)

end Compiled

/-! ## The command -/

/-- The inputs that arguments bring in, each with the flags behind the input before it; `flags` are
those that stand there already. -/
def openedInputs (flags : List String) : List String → List Input
  | name :: value :: rest =>
    if name = "-i" then ⟨value, flags⟩ :: openedInputs [] rest
    else if name = "-filter_complex" then []
    else openedInputs (flags ++ [name, value]) rest
  | _ => []

/-- The arguments of an input bring it in. -/
theorem openedInputs_inputArgs {layers : List Layer} {input : Input} (h : input ∈ inputsOf layers)
    (rest : List String) : openedInputs [] (inputArgs input ++ rest) = input :: openedInputs [] rest := by
  obtain ⟨content, hflags⟩ := flags_of_mem_inputsOf h
  have hcases := flagsOf_cases content
  rw [← hflags] at hcases
  obtain ⟨path, flags⟩ := input
  rcases hcases with rfl | rfl | rfl <;> simp [inputArgs, openedInputs]

theorem openedInputs_flatMap {layers : List Layer} {inputs : List Input}
    (h : ∀ input ∈ inputs, input ∈ inputsOf layers) (graph : String) (rest : List String) :
    openedInputs [] (inputs.flatMap inputArgs ++ "-filter_complex" :: graph :: rest) = inputs := by
  induction inputs with
  | nil => simp [openedInputs]
  | cons input inputs ih =>
    rw [List.forall_mem_cons] at h
    rw [List.flatMap_cons, List.append_assoc, openedInputs_inputArgs h.1, ih h.2]

/-- **The arguments bring in the inputs of the graph, each with its flags.** -/
theorem openedInputs_body [Rounding] {timeline : Timeline} {compiled : Compiled}
    {given : Option EncoderProfile} {args : List String} (h : compile timeline = .ok compiled)
    (hb : body timeline given = .ok args) : openedInputs [] args = compiled.inputs := by
  obtain ⟨profile, rfl⟩ := body_cases h hb
  exact openedInputs_flatMap (fun input hinput ↦ inputs_of_compile h ▸ hinput) _ _

/-! ## Flags of layers with one file -/

/-- Every layer with a file reads it from an input that is opened as the layer asks for. -/
def OpensAsAsked (timeline : Timeline) (compiled : Compiled) : Prop :=
  ∀ before layer after source, timeline.layers = before ++ layer :: after →
    sourceOf layer.content = some source →
      ReadsFrom compiled before layer ⟨source.path, flagsOf layer.content⟩

/-- Layers with the same file ask for the same flags. -/
def AskAlike (layers : List Layer) : Prop :=
  ∀ a ∈ layers, ∀ b ∈ layers, ∀ path, mediaPath a = some path → mediaPath b = some path →
    flagsOf a.content = flagsOf b.content

theorem mediaPath_eq_some {layer : Layer} {path : String} :
    mediaPath layer = some path ↔ ∃ source, sourceOf layer.content = some source ∧ source.path = path :=
  Option.map_eq_some_iff

/-- **Every layer reads its file as the first layer with that file asks for it**; as it asks for
itself it does, together with all others, just if layers with the same file ask for the same.  The
command opens the files in this way. -/
theorem opened_as_asked_iff [Rounding] {timeline : Timeline} {compiled : Compiled}
    (h : compile timeline = .ok compiled) :
    (∀ before layer after source, timeline.layers = before ++ layer :: after →
      sourceOf layer.content = some source →
        ∃ first, IsFirstWith source.path first timeline.layers ∧
          ReadsFrom compiled before layer ⟨source.path, flagsOf first.content⟩) ∧
    (OpensAsAsked timeline compiled ↔ AskAlike timeline.layers) ∧
    ∀ path context profile command, arguments timeline path context profile = .ok command →
      ∃ args, command = context.opening ++ args.map .str ++ [path] ∧
        openedInputs [] args = compiled.inputs := by
  have hinputs := inputs_of_compile h
  have hfirst : ∀ before layer after source, timeline.layers = before ++ layer :: after →
      sourceOf layer.content = some source →
        ∃ first, IsFirstWith source.path first timeline.layers ∧
          ReadsFrom compiled before layer ⟨source.path, flagsOf first.content⟩ := by
    intro before layer after source hlayers hsource
    obtain ⟨first, isFirst, hmem⟩ := exists_isFirstWith
      (show layer ∈ timeline.layers by rw [hlayers]; simp) (mediaPath_eq_some.mpr ⟨source, hsource, rfl⟩)
    exact ⟨first, isFirst, readsFrom_of_mem h hlayers hsource (hinputs ▸ hmem) rfl⟩
  refine ⟨hfirst, ⟨fun asked a ha b hb path hpatha hpathb ↦ ?_, fun alike before layer after source
    hlayers hsource ↦ ?_⟩, fun path context profile command hcommand ↦ ?_⟩
  · -- both layers read the one input with their file
    have hread : ∀ layer ∈ timeline.layers, mediaPath layer = some path →
        ⟨path, flagsOf layer.content⟩ ∈ inputsOf timeline.layers := by
      intro layer hlayer hpath
      obtain ⟨before, after, hlayers⟩ := List.append_of_mem hlayer
      obtain ⟨source, hsource, rfl⟩ := mediaPath_eq_some.mp hpath
      exact hinputs ▸ (asked before layer after source hlayers hsource).mem hsource
    exact congrArg Input.flags (input_unique (hread a ha hpatha) (hread b hb hpathb) rfl)
  · obtain ⟨first, ⟨front, back, hsplit, hpath, -⟩, hreads⟩ :=
      hfirst before layer after source hlayers hsource
    rwa [alike layer (by rw [hlayers]; simp) first (by rw [hsplit]; simp) source.path
      (mediaPath_eq_some.mpr ⟨source, hsource, rfl⟩) hpath]
  · rw [arguments] at hcommand
    obtain ⟨args, hargs, hcommand⟩ := bind_eq_ok.mp hcommand
    rw [pure_eq_ok] at hcommand
    exact ⟨args, hcommand.symm, openedInputs_body h hargs⟩

/-- A sound that is played once, and the same sound behind it that is looped. -/
def loopedBehind : Timeline where
  layers := [{ content := .audio { source := ⟨"m.mp3", none, none⟩ } },
    { content := .audio { source := ⟨"m.mp3", none, none⟩, loop := true } }]

theorem loopedBehind_opened : ∃ compiled, @compile .binary64 loopedBehind = .ok compiled ∧
    compiled.inputs = [⟨"m.mp3", []⟩] ∧ ¬ OpensAsAsked loopedBehind compiled := by
  have hok : (@compile .binary64 loopedBehind).toOption.isSome = true := by decide
  obtain ⟨compiled, hcompile⟩ := Option.isSome_iff_exists.mp hok
  rw [toOption_eq_some] at hcompile
  refine ⟨compiled, hcompile, ?_, fun asked ↦ ?_⟩
  · rw [@inputs_of_compile .binary64 _ _ hcompile]
    decide
  · have alike := (@opened_as_asked_iff .binary64 _ _ hcompile).2.1.mp asked
    have hflags := alike _ List.mem_cons_self _ (List.mem_cons_of_mem _ List.mem_cons_self) "m.mp3"
      rfl rfl
    cases hflags

end Command
end Montage
