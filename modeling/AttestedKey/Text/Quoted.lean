import AttestedKey.Text.Hexadecimal
import AttestedKey.Text.Printable

/-!
# Quoted text

`quoted` puts a text into quotation marks so that it stays on one line and can be told from
what stands around it.  The marks are single ones, or double ones around a text that has only
single ones inside.  Inside, the mark and the backslash are escaped by a backslash, line ends
and tabs by a letter, and other characters that are not printable by their numbers.
-/

namespace AttestedKey.Text

/-- The single quotation mark. -/
def singleMark : Char := Char.ofNat 39

/-- The double quotation mark. -/
def doubleMark : Char := Char.ofNat 34

/-- The escape of a character by its number, in the shortest of three forms. -/
def numericEscape (n : Nat) : String :=
  if n < 0x100 then "\\x" ++ paddedHexadecimal 2 n
  else if n < 0x10000 then "\\u" ++ paddedHexadecimal 4 n
  else "\\U" ++ paddedHexadecimal 8 n

/-- A character between quotation marks of the given kind. -/
def escaped (mark c : Char) : String :=
  if c == mark || c == '\\' then String.ofList ['\\', c]
  else if c == '\n' then "\\n"
  else if c == '\r' then "\\r"
  else if c == '\t' then "\\t"
  else if isPrintable c then c.toString
  else numericEscape c.toNat

/-- The quotation mark for a text. -/
def markFor (text : String) : Char :=
  if text.contains singleMark && !text.contains doubleMark then doubleMark else singleMark

/-- A text in quotation marks. -/
def quoted (text : String) : String :=
  let mark := markFor text
  mark.toString ++ String.join (text.toList.map (escaped mark)) ++ mark.toString

end AttestedKey.Text
