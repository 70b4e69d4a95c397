import Montage.Text.Unicode

/-!
# Quoted text

A text in a message is shown between quotes: single ones, unless it holds a single quote and no
double one.  The quote in use, the backslash and everything that is not printable is escaped, by
letter for tab and line ends and by code point otherwise.
-/

set_option autoImplicit false

namespace Montage

/-- Hexadecimal digits of a code point, padded to a width. -/
def hexDigits (width n : Nat) : List Char :=
  let digits := Nat.toDigits 16 n
  List.replicate (width - digits.length) '0' ++ digits

/-- A character as it stands between quotes. -/
def quotedChar (quote c : Char) : List Char :=
  if c = quote ∨ c = '\\' then ['\\', c]
  else if c = '\n' then ['\\', 'n']
  else if c = '\r' then ['\\', 'r']
  else if c = '\t' then ['\\', 't']
  else if isPrintable c then [c]
  else
    let n := c.toNat
    if n < 0x100 then '\\' :: 'x' :: hexDigits 2 n
    else if n < 0x10000 then '\\' :: 'u' :: hexDigits 4 n
    else '\\' :: 'U' :: hexDigits 8 n

/-- A text between quotes. -/
def quoted (s : String) : String :=
  let cs := s.toList
  let quote := if cs.contains '\'' && !cs.contains '"' then '"' else '\''
  String.ofList (quote :: cs.flatMap (quotedChar quote) ++ [quote])

/-! ## Words of a shell

An argument that is not plainly safe is put between single quotes; a single quote inside it ends
the quotation, stands between double quotes and opens the next one. -/

/-- Characters that a shell takes as they are: Latin letters, digits and some marks. -/
def isShellSafe (c : Char) : Bool :=
  c.isAlphanum || "_@%+=:,./-".toList.contains c

/-- One argument as a shell reads it back. -/
def shellWord (s : String) : String :=
  let cs := s.toList
  if cs.isEmpty then "''"
  else if cs.all isShellSafe then s
  else
    let body := cs.flatMap fun c ↦ if c = '\'' then "'\"'\"'".toList else [c]
    String.ofList ('\'' :: body ++ ['\''])

/-- Words for a shell as one line. -/
def shellLine (words : List String) : String := " ".intercalate words

end Montage
