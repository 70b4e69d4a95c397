import Montage.Command.Graph
import Montage.Document.Request
import Montage.Encoder
import Montage.Text.Quoted

/-!
# Commands

A command is the list of arguments that renders a timeline: the program and its flags, the
inputs, the graph, the streams that are kept, the part of the output, its frame rate, and the
arguments of the encoder.
-/

set_option autoImplicit false

namespace Montage

/-! ## Contexts

What a command needs beside a timeline: the program it calls, whether an output that exists is
replaced, and arguments before the inputs. -/

/-- The program that commands call and the arguments that open them, as the caller gave them. -/
structure Context where
  program : Json := .str "ffmpeg"
  overwrite : Json := .bool true
  globalArgs : List Json := []
  deriving Repr, Inhabited

namespace Context

/-- The arguments that open every command. -/
def opening (context : Context) : List Json :=
  context.program :: (if context.overwrite.isTruthy then [.str "-y"] else []) ++ context.globalArgs

/-- A context as it is shown in messages. -/
def display (context : Context) : String :=
  "MediaContext(ffmpeg=" ++ context.program.inspect ++ ", overwrite="
    ++ context.overwrite.shown ++ ")"

/-- The names of a request for a context. -/
def signature : Signature := [
  .default "ffmpeg" (.str "ffmpeg"), .default "overwrite" (.bool true), .absent "global_args"]

/-- A context from a request; null asks for the usual one. -/
def ofRequest : Json → Except Error Context
  | .obj members => do
    let request ← Request.complete signature members
    let args := request.get "global_args"
    let words ← if args.isTruthy then args.elements else .ok []
    return ⟨request.get "ffmpeg", request.get "overwrite", words⟩
  | _ => .ok {}

end Context

/-! ## Arguments -/

namespace Command

variable [Rounding]

/-- The arguments that cut the output. -/
def cutArgs (timeline : Timeline) : List String :=
  match timeline.options.trim with
  | none => ["-t", (Number.real timeline.duration).text]
  | some trim =>
    let stop := trim.stop.getD timeline.duration
    let length := Quantity.max (.finite 0) (stop.sub trim.start)
    ["-ss", (Number.real trim.start).text, "-t", (Number.real length).text]

omit [Rounding] in
/-- The arguments of an input. -/
def inputArgs (input : Input) : List String := input.flags ++ ["-i", input.path]

omit [Rounding] in
/-- The profile of a timeline's quality and codec. -/
def profileOf (options : RenderOptions) : Except Error EncoderProfile :=
  EncoderProfile.ofQuality options.quality ((options.codec.map Json.str).getD .null)

/-- The arguments between the opening of a command and the path of its output. -/
def body (timeline : Timeline) (profile : Option EncoderProfile) : Except Error (List String) := do
  let compiled ← compile timeline
  let graph ← compiled.graph.write
  let profile ← match profile with
    | some profile => pure profile
    | none => profileOf timeline.options
  return compiled.inputs.flatMap inputArgs ++ ["-filter_complex", graph, "-map", "[vout]"]
    ++ (if compiled.hasSound then ["-map", "[aout]"] else [])
    ++ cutArgs timeline ++ ["-r", (Number.real timeline.options.fps).text]
    ++ profile.args compiled.hasSound

/-- The arguments of the command that renders a timeline into a file.  The program, its flags and
the path stand there as the caller gave them. -/
def arguments (timeline : Timeline) (path : Json) (context : Context)
    (profile : Option EncoderProfile) : Except Error (List Json) := do
  let body ← body timeline profile
  return context.opening ++ body.map .str ++ [path]

omit [Rounding] in
/-- An argument as a shell reads it back: a text, or nothing at all. -/
def shellArgument : Json → Except Error String
  | .str s => .ok (shellWord s)
  | value => if value.isTruthy then .error .badKind else .ok (shellWord "")

/-- The command that renders a timeline into a file, as one line. -/
def line (timeline : Timeline) (path : Json) (context : Context)
    (profile : Option EncoderProfile) : Except Error String := do
  let words ← (← arguments timeline path context profile).mapM shellArgument
  return shellLine words

omit [Rounding] in
/-- What a request for several commands may hold. -/
def batchSignature : Signature := [.default "max_workers" (.whole 4)]

/-- The commands of several timelines, each with the file it is rendered into.  They are
independent of each other, and a request may say how many are made at once. -/
def lines (jobs : List (Timeline × Json)) (context : Context) (given : List (String × Json)) :
    Except Error (List String) := do
  let request ← Request.complete batchSignature given
  if ← (request.get "max_workers").isBelow 1 then throw (.refused .workerCount)
  jobs.mapM fun job ↦ line job.1 job.2 context none

end Command
end Montage
