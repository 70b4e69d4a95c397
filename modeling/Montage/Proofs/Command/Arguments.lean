import Montage.Command.Basic
import Montage.Proofs.Command.Linked

/-!
# Commands that fit their graph

The arguments of a command come in pairs, a flag and its value, between an opening that the caller
chooses and the path of the output.  `valuesOf` reads the values of one flag, as the program that
is called does.  With it, `compile_wellLinked` states for the command what `WellLinked` states for
the graph: the inputs are brought in under the numbers that the graph uses, the graph is given
once, and its ends are kept.
-/

set_option autoImplicit false

namespace Montage
namespace Command

/-- The values of a flag among arguments that come in pairs. -/
def valuesOf (flag : String) : List String → List String
  | name :: value :: rest => if name = flag then value :: valuesOf flag rest else valuesOf flag rest
  | _ => []

@[simp] theorem valuesOf_nil (flag : String) : valuesOf flag [] = [] := rfl

@[simp] theorem valuesOf_cons (flag name value : String) (rest : List String) :
    valuesOf flag (name :: value :: rest)
      = if name = flag then value :: valuesOf flag rest else valuesOf flag rest := rfl

theorem valuesOf_append (flag : String) {first : List String} (rest : List String)
    (h : first.length % 2 = 0) :
    valuesOf flag (first ++ rest) = valuesOf flag first ++ valuesOf flag rest := by
  match first, h with
  | [], _ => rfl
  | name :: value :: more, h =>
    rw [List.length_cons, List.length_cons] at h
    rw [List.cons_append, List.cons_append, valuesOf_cons, valuesOf_cons,
      valuesOf_append flag rest (by omega)]
    split <;> rfl

theorem valuesOf_flatMap {α : Type} (flag : String) (f : α → List String) (xs : List α)
    (h : ∀ x ∈ xs, (f x).length % 2 = 0) :
    valuesOf flag (xs.flatMap f) = xs.flatMap fun x ↦ valuesOf flag (f x) := by
  induction xs with
  | nil => rfl
  | cons x rest ih =>
    rw [List.flatMap_cons, List.flatMap_cons, valuesOf_append flag _ (h x List.mem_cons_self),
      ih fun y hy ↦ h y (List.mem_cons_of_mem _ hy)]

theorem even_length_flatMap {α : Type} (f : α → List String) (xs : List α)
    (h : ∀ x ∈ xs, (f x).length % 2 = 0) : (xs.flatMap f).length % 2 = 0 := by
  induction xs with
  | nil => rfl
  | cons x rest ih =>
    have hx := h x List.mem_cons_self
    have hrest := ih fun y hy ↦ h y (List.mem_cons_of_mem _ hy)
    rw [List.flatMap_cons, List.length_append]
    omega

/-! ## The inputs -/

theorem flagsOf_cases (content : Content) :
    flagsOf content = [] ∨ flagsOf content = ["-loop", "1"]
      ∨ flagsOf content = ["-stream_loop", "-1"] := by
  cases content with
  | image image => exact .inr (.inl rfl)
  | audio audio =>
    rw [flagsOf]
    split
    · exact .inr (.inr rfl)
    · exact .inl rfl
  | video | text | caption | filter => exact .inl rfl

theorem mem_foldl_register {inputs more : List Input} {input : Input}
    (h : input ∈ more.foldl register inputs) : input ∈ inputs ∨ input ∈ more := by
  induction more generalizing inputs with
  | nil => exact .inl h
  | cons first rest ih =>
    rcases ih h with h | h
    · rw [register] at h
      split at h
      · exact .inl h
      · rcases List.mem_append.mp h with h | h
        · exact .inl h
        · exact .inr (List.mem_singleton.mp h ▸ List.mem_cons_self)
    · exact .inr (List.mem_cons_of_mem _ h)

/-- The flags of every input are those of some layer. -/
theorem flags_of_mem_inputsOf {layers : List Layer} {input : Input}
    (h : input ∈ inputsOf layers) : ∃ content, input.flags = flagsOf content := by
  rcases mem_foldl_register h with h | h
  · cases h
  · obtain ⟨layer, -, hinput⟩ := List.mem_filterMap.mp h
    rw [inputOf, Option.map_eq_some_iff] at hinput
    obtain ⟨source, -, rfl⟩ := hinput
    exact ⟨layer.content, rfl⟩

theorem inputArgs_spec {layers : List Layer} {input : Input} (h : input ∈ inputsOf layers) :
    (inputArgs input).length % 2 = 0 ∧ valuesOf "-i" (inputArgs input) = [input.path]
      ∧ valuesOf "-map" (inputArgs input) = []
      ∧ valuesOf "-filter_complex" (inputArgs input) = [] := by
  obtain ⟨content, hflags⟩ := flags_of_mem_inputsOf h
  rw [inputArgs, hflags]
  rcases flagsOf_cases content with h | h | h <;> simp [h]

/-! ## The rest of the arguments -/

/-- The flags that stand behind the graph and its ends. -/
def outputFlags : List String :=
  ["-ss", "-t", "-r", "-c:v", "-crf", "-preset", "-pix_fmt", "-tag:v", "-b:v", "-c:a"]

theorem valuesOf_encoder {flag : String} (h : flag ∉ outputFlags) (profile : EncoderProfile)
    (sound : Bool) : valuesOf flag (profile.args sound) = [] := by
  simp only [outputFlags, List.mem_cons, List.not_mem_nil, or_false, not_or, ← ne_eq] at h
  obtain ⟨-, -, -, hcodec, hrate, hpreset, hpixels, htag, hbits, hsound⟩ := h
  obtain ⟨codec, rate, preset, audioCodec⟩ := profile
  cases codec <;> cases audioCodec <;>
    simp [EncoderProfile.args, Codec.hasPresets, Codec.extraArgs, hcodec.symm, hrate.symm,
      hpreset.symm, hpixels.symm, htag.symm, hbits.symm]
  -- what is left is the codec of the sound, which is there or not
  all_goals split <;> simp [hsound.symm]

variable [Rounding]

theorem valuesOf_cutArgs {flag : String} (h : flag ∉ outputFlags) (timeline : Timeline) :
    valuesOf flag (cutArgs timeline) = [] := by
  simp only [outputFlags, List.mem_cons, not_or, ← ne_eq] at h
  obtain ⟨hstart, hlength, -⟩ := h
  rw [cutArgs]
  split <;> simp [hstart.symm, hlength.symm]

theorem even_length_cutArgs (timeline : Timeline) : (cutArgs timeline).length % 2 = 0 := by
  rw [cutArgs]
  split <;> simp

/-! ## The whole command -/

/-- The arguments bring in the inputs of a graph, give the graph, and keep its ends. -/
structure Fits (compiled : Compiled) (args : List String) : Prop where
  inputs : valuesOf "-i" args = compiled.inputs.map Input.path
  graph : valuesOf "-filter_complex" args = [compiled.graph.render]
  kept : valuesOf "-map" args = "[vout]" :: if compiled.hasSound then ["[aout]"] else []

theorem inputs_of_compile {timeline : Timeline} {compiled : Compiled}
    (h : compile timeline = .ok compiled) : compiled.inputs = inputsOf timeline.layers := by
  obtain ⟨parts⟩ := compile_parts h
  exact parts.inputs_eq

theorem body_cases {timeline : Timeline} {compiled : Compiled} {given : Option EncoderProfile}
    {args : List String} (h : compile timeline = .ok compiled)
    (hb : body timeline given = .ok args) :
    ∃ profile : EncoderProfile, args = compiled.inputs.flatMap inputArgs
      ++ (["-filter_complex", compiled.graph.render, "-map", "[vout]"]
      ++ ((if compiled.hasSound then ["-map", "[aout]"] else [])
      ++ (cutArgs timeline ++ (["-r", (Number.real timeline.options.fps).text]
      ++ profile.args compiled.hasSound)))) := by
  rw [body, h] at hb
  obtain ⟨_, hcompiled, hb⟩ := bind_eq_ok.mp hb
  obtain rfl := Except.ok.inj hcompiled
  obtain ⟨graph, hgraph, hb⟩ := bind_eq_ok.mp hb
  have hwritten : graph = compiled.graph.render := by
    rw [FilterGraph.write] at hgraph
    split at hgraph
    · exact (Except.ok.inj hgraph).symm
    · cases hgraph
  cases given with
  | none =>
    obtain ⟨profile, -, hb⟩ := bind_eq_ok.mp hb
    rw [pure_eq_ok] at hb
    exact ⟨profile, by rw [← hb, hwritten]; simp only [List.append_assoc]⟩
  | some profile =>
    obtain ⟨profile, -, hb⟩ := bind_eq_ok.mp hb
    rw [pure_eq_ok] at hb
    exact ⟨profile, by rw [← hb, hwritten]; simp only [List.append_assoc]⟩

/-- A flag that does not belong to the output stands with the inputs or the graph. -/
theorem valuesOf_body {flag : String} (hflag : flag ∉ outputFlags) {inputs : List Input}
    (hinputs : ∀ input ∈ inputs, (inputArgs input).length % 2 = 0) (timeline : Timeline)
    (graph : String) (sound : Bool) (profile : EncoderProfile) :
    valuesOf flag (inputs.flatMap inputArgs ++ (["-filter_complex", graph, "-map", "[vout]"]
        ++ ((if sound then ["-map", "[aout]"] else [])
        ++ (cutArgs timeline ++ (["-r", (Number.real timeline.options.fps).text]
        ++ profile.args sound)))))
      = (inputs.flatMap fun input ↦ valuesOf flag (inputArgs input))
        ++ valuesOf flag ["-filter_complex", graph, "-map", "[vout]"]
        ++ valuesOf flag (if sound then ["-map", "[aout]"] else []) := by
  have hrate : flag ≠ "-r" := fun heq ↦ hflag (heq ▸ by decide)
  have hsound : (if sound then ["-map", "[aout]"] else []).length % 2 = 0 := by
    cases sound <;> simp
  rw [valuesOf_append _ _ (even_length_flatMap _ _ hinputs), valuesOf_flatMap _ _ _ hinputs,
    valuesOf_append _ _ (by simp), valuesOf_append _ _ hsound,
    valuesOf_append _ _ (even_length_cutArgs timeline), valuesOf_append _ _ (by simp),
    valuesOf_cutArgs hflag, valuesOf_encoder hflag, valuesOf_cons _ "-r", if_neg hrate.symm]
  simp only [valuesOf_nil, List.append_nil, List.append_assoc]

theorem body_fits {timeline : Timeline} {compiled : Compiled} {given : Option EncoderProfile}
    {args : List String} (h : compile timeline = .ok compiled)
    (hb : body timeline given = .ok args) : Fits compiled args := by
  obtain ⟨profile, rfl⟩ := body_cases h hb
  have hinputs : ∀ input ∈ compiled.inputs, _ := fun input hin ↦
    inputArgs_spec (inputs_of_compile h ▸ hin)
  have heven := fun input hin ↦ (hinputs input hin).1
  refine ⟨?_, ?_, ?_⟩
  · have hpaths : (compiled.inputs.flatMap fun input ↦ valuesOf "-i" (inputArgs input))
        = compiled.inputs.map Input.path := by
      rw [List.flatMap_congr fun input hin ↦ (hinputs input hin).2.1, List.map_eq_flatMap]
    rw [valuesOf_body (by decide) heven, hpaths]
    cases compiled.hasSound <;> simp
  · have hnone : (compiled.inputs.flatMap fun input ↦ valuesOf "-filter_complex" (inputArgs input))
        = [] := List.flatMap_eq_nil_iff.mpr fun input hin ↦ (hinputs input hin).2.2.2
    rw [valuesOf_body (by decide) heven, hnone]
    cases compiled.hasSound <;> simp
  · have hnone : (compiled.inputs.flatMap fun input ↦ valuesOf "-map" (inputArgs input))
        = [] := List.flatMap_eq_nil_iff.mpr fun input hin ↦ (hinputs input hin).2.2.1
    rw [valuesOf_body (by decide) heven, hnone]
    cases compiled.hasSound <;> simp

/-- **A timeline that compiles has a well linked graph, and every command that renders it fits
that graph.** -/
theorem compile_wellLinked {timeline : Timeline} {compiled : Compiled}
    (h : compile timeline = .ok compiled) :
    WellLinked timeline compiled
      ∧ ∀ path context profile command, arguments timeline path context profile = .ok command →
        ∃ args, command = context.opening ++ args.map .str ++ [path] ∧ Fits compiled args := by
  obtain ⟨parts⟩ := compile_parts h
  refine ⟨parts.wellLinked, fun path context profile command hcommand ↦ ?_⟩
  rw [arguments] at hcommand
  obtain ⟨args, hargs, hcommand⟩ := bind_eq_ok.mp hcommand
  rw [pure_eq_ok] at hcommand
  exact ⟨args, hcommand.symm, body_fits h hargs⟩

/-- One clip twice on the canvas and once more as sound, under a still picture. -/
def sharedClip : Timeline where
  layers := [
    { content := .video { source := ⟨"clip.mp4", none, none⟩ } },
    { content := .audio { source := ⟨"clip.mp4", none, none⟩, loop := true } },
    { startTime := .finite 2, content := .video { source := ⟨"clip.mp4", none, none⟩ } },
    { content := .image { source := ⟨"logo.png", none, none⟩ } }]

omit [Rounding] in
theorem sharedClip_wellLinked : ∃ compiled, @compile .binary64 sharedClip = .ok compiled
    ∧ @WellLinked .binary64 sharedClip compiled
    ∧ compiled.inputs.map Input.path = ["clip.mp4", "logo.png"] := by
  have hok : (@compile .binary64 sharedClip).toOption.isSome = true := by decide +kernel
  cases hcompile : @compile .binary64 sharedClip with
  | error e =>
    rw [hcompile] at hok
    cases hok
  | ok compiled =>
    have hlinked := (@compile_wellLinked .binary64 sharedClip compiled hcompile).1
    refine ⟨compiled, rfl, hlinked, ?_⟩
    rw [@WellLinked.inputs_eq .binary64 _ _ hlinked]
    decide

end Command
end Montage
