import Montage.Text.Split

/-!
# Escaping in filter graphs

A literal in a filter graph is read by up to three readers in turn, and each removes its own
layer of escapes:

1. the reader of the graph stops at `[ ] , ;` and removes backslashes and single quotes;
2. the reader of options stops at `:` and removes backslashes and single quotes again, together
   with white space that is not quoted at the ends;
3. the reader of display text takes a percent sign as the start of an expansion, and a character
   behind a backslash as it is.

Literals are escaped from the inside out, for the third reader first.  `unescapeText` plays the
three readers and gives back the literal.
-/

set_option autoImplicit false

namespace Montage
namespace Filter

/-! ## One layer each -/

/-- The white space that the reader of options trims. -/
def isEdgeSpace (c : Char) : Bool := c == ' ' || c == '\n' || c == '\t' || c == '\r'

/-- Characters that the reader of options would take for its own. -/
def isOptionSpecial (c : Char) : Bool := c == '\\' || c == '\'' || c == ':'

/-- Characters that the reader of the graph would take for its own. -/
def isGraphSpecial (c : Char) : Bool :=
  c == '\\' || c == '\'' || c == '[' || c == ']' || c == ',' || c == ';'

/-- Puts a backslash before the characters of a class. -/
def backslashed (special : Char → Bool) (s : List Char) : List Char :=
  s.flatMap fun c ↦ if special c then ['\\', c] else [c]

/-- Escapes display text for the reader of expansions. -/
def escapeExpansion (s : List Char) : List Char := backslashed (fun c ↦ c == '\\' || c == '%') s

/-- Whether white space stands at an end of the text. -/
def hasEdgeSpace (s : List Char) : Bool :=
  (s.head?.map isEdgeSpace).getD false || (s.getLast?.map isEdgeSpace).getD false

/-- Puts an option between single quotes if its reader would alter it.  A quote cannot stand
inside the quotes: it closes them, follows escaped, and opens them again. -/
def quoteOption (s : List Char) : List Char :=
  if s.any isOptionSpecial || hasEdgeSpace s then
    '\'' :: s.flatMap (fun c ↦ if c = '\'' then ['\'', '\\', '\'', '\''] else [c]) ++ ['\'']
  else s

/-- Escapes an option for the reader of the graph. -/
def escapeGraph (s : List Char) : List Char := backslashed isGraphSpecial s

/-! ## All layers -/

/-- A plain option, such as a font name, a path or a color, as it stands in the graph. -/
def escapeValue (s : List Char) : List Char := escapeGraph (quoteOption s)

/-- A display text as it stands in the graph. -/
def escapeText (s : List Char) : List Char := escapeGraph (quoteOption (escapeExpansion s))

/-! ## Reading back -/

/-- What a reader takes from a token: characters, those behind a backslash held fast, and the
closing quotes, which hold fast all that stands before them. -/
inductive Taken where
  | loose (c : Char)
  | held (c : Char)
  | closing
  deriving DecidableEq, Repr

namespace Taken

/-- The character, if one was taken. -/
def char? : Taken → Option Char
  | .loose c | .held c => some c
  | .closing => none

/-- Whether the reader of options trims this at the end. -/
def isLooseSpace : Taken → Bool
  | .loose c => isEdgeSpace c
  | _ => false

end Taken

mutual

/-- Takes the characters of a token. -/
def takeToken : List Char → List Taken
  | [] => []
  | '\\' :: c :: rest => .held c :: takeToken rest
  | c :: rest => if c = '\'' then takeQuoted rest else .loose c :: takeToken rest

/-- Takes the characters up to the closing quote; a backslash is one of them. -/
def takeQuoted : List Char → List Taken
  | [] => []
  | c :: rest => if c = '\'' then .closing :: takeToken rest else .loose c :: takeQuoted rest

end

/-- Removes one layer of backslashes and quotes, and the loose white space at both ends. -/
def readToken (s : List Char) : List Char :=
  let taken := takeToken (s.dropWhile isEdgeSpace)
  (taken.reverse.dropWhile Taken.isLooseSpace).reverse.filterMap Taken.char?

/-- Takes a character behind a backslash as it is; a backslash at the end stands for nothing. -/
def readExpansion : List Char → List Char
  | [] => []
  | '\\' :: c :: rest => c :: readExpansion rest
  | c :: rest => if c = '\\' then readExpansion rest else c :: readExpansion rest

/-- The text that is displayed for an escaped text. -/
def unescapeText (s : List Char) : List Char := readExpansion (readToken (readToken s))

end Filter
end Montage
