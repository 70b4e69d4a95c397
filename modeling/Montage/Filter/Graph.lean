import Montage.Expr.Basic
import Montage.Filter.Escape

/-!
# Filter graphs

A filter has a name and options, a stage is a chain of filters between labelled links, and a
graph is a list of stages.  The order of the stages is the order in which they paint.

The values of options keep their kind until the graph is written: an expression is quoted as a
whole, a literal is escaped for the readers it passes, a number is written as a number.
-/

set_option autoImplicit false

namespace Montage

/-- The value of an option. -/
inductive OptionValue where
  /-- A text that is displayed. -/
  | display (text : String)
  | expr (e : Expr)
  /-- A plain text: a font, a path, a color. -/
  | plain (text : String)
  | flag (b : Bool)
  | num (n : Number)
  deriving Repr, Inhabited

namespace OptionValue

/-- Whether the text of an expression reads as one name or numeral. -/
def readsAlone : Expr → Bool
  | .num _ | .var _ => true
  | .raw text => Expr.isSimple text
  | _ => false

/-- The value as it stands in the graph. -/
def text : OptionValue → List Char
  | .display s => Filter.escapeText s.toList
  | .expr e => if readsAlone e then e.text else '\'' :: e.text ++ ['\'']
  | .plain s => Filter.escapeValue s.toList
  | .flag b => if b then ['1'] else ['0']
  | .num n => n.text.toList

/-- The value as a string. -/
def render (value : OptionValue) : String := String.ofList value.text

/-- Whether every number of a value can be written. -/
def isWritable : OptionValue → Bool
  | .expr e => e.isWritable
  | .num n => n.isWritable
  | _ => true

/-- Writes a value; whole numbers that grew too long cannot be written. -/
def write (value : OptionValue) : Except Error String :=
  if value.isWritable then .ok value.render else .error .badValue

/-- The value of an option given as a plain document value. -/
def ofJson : Json → OptionValue
  | .bool b => .flag b
  | .num n => .num n
  | value => .plain value.shown

/-- A quantity as an option. -/
def quantity (x : Quantity) : OptionValue := .num (.real x)

end OptionValue

/-- A filter with its options.  An option without a key stands by its place. -/
structure Filter where
  name : String
  options : List (Option String × OptionValue)
  deriving Repr, Inhabited

namespace Filter

/-- A filter with positional options. -/
def withArgs (name : String) (args : List OptionValue) : Filter :=
  ⟨name, args.map fun value ↦ (none, value)⟩

/-- A filter with named options. -/
def named (name : String) (options : List (String × OptionValue)) : Filter :=
  ⟨name, options.map fun option ↦ (some option.1, option.2)⟩

/-- The filter that a caller asks for by its name, with positional and then named options; named
options without a value are left out.  A filter is called by its own name, which no option can take
again. -/
def called (name : String) (args : List OptionValue)
    (options : List (String × Option OptionValue)) : Except Error Filter :=
  if options.any fun option ↦ option.1 == "name" || option.1 == "self" then .error .badKind
  else
    let given := options.filterMap fun option ↦ option.2.map fun value ↦ (option.1, value)
    .ok ⟨name, (withArgs name args).options ++ (named name given).options⟩

/-- The filter without the options of a name. -/
def unset (filter : Filter) (key : String) : Filter :=
  { filter with options := filter.options.filter fun option ↦ option.1 != some key }

/-- The filter with the option of a name; it moves behind the others. -/
def set (filter : Filter) (key : String) (value : OptionValue) : Filter :=
  { filter with options := (filter.unset key).options ++ [(some key, value)] }

/-- The first option of a name. -/
def get? (filter : Filter) (key : String) : Option OptionValue :=
  (filter.options.find? fun option ↦ option.1 == some key).map (·.2)

/-- One option as it stands in the graph. -/
def optionText : Option String × OptionValue → List Char
  | (none, value) => value.text
  | (some key, value) => key.toList ++ '=' :: value.text

/-- The filter as it stands in the graph. -/
def text (filter : Filter) : List Char :=
  if filter.options.isEmpty then filter.name.toList
  else filter.name.toList ++ '=' :: joinWith [':'] (filter.options.map optionText)

/-- The filter as a string. -/
def render (filter : Filter) : String := String.ofList filter.text

/-- Whether every number of a filter can be written. -/
def isWritable (filter : Filter) : Bool := filter.options.all fun option ↦ option.2.isWritable

/-- Writes a filter; whole numbers that grew too long cannot be written. -/
def write (filter : Filter) : Except Error String :=
  if filter.isWritable then .ok filter.render else .error .badValue

end Filter

/-- A chain of filters between labelled links. -/
structure Stage where
  inputs : List String
  filters : List Filter
  outputs : List String
  deriving Repr, Inhabited

namespace Stage

/-- Labels between brackets. -/
def labels (names : List String) : List Char :=
  names.flatMap fun name ↦ '[' :: name.toList ++ [']']

/-- The stage as it stands in the graph. -/
def text (stage : Stage) : List Char :=
  labels stage.inputs ++ joinWith [','] (stage.filters.map Filter.text) ++ labels stage.outputs

end Stage

/-- Stages in the order in which they paint. -/
structure FilterGraph where
  stages : List Stage
  deriving Repr, Inhabited

namespace FilterGraph

/-- The whole graph as one text. -/
def text (graph : FilterGraph) : List Char := joinWith [';'] (graph.stages.map Stage.text)

/-- The whole graph as a string. -/
def render (graph : FilterGraph) : String := String.ofList graph.text

/-- Whether every number of a graph can be written. -/
def isWritable (graph : FilterGraph) : Bool :=
  graph.stages.all fun stage ↦ stage.filters.all Filter.isWritable

/-- Writes a graph; whole numbers that grew too long cannot be written. -/
def write (graph : FilterGraph) : Except Error String :=
  if graph.isWritable then .ok graph.render else .error .badValue

end FilterGraph
end Montage
