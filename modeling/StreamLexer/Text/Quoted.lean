import StreamLexer.Text.Hex
import StreamLexer.Text.Printable

/-!
# Quoted text

Messages show texts and characters between quotes. The delimiter and the backslash take a
backslash before them, the common controls have letters of their own, and every other character
that does not show itself is written as its code point.

## Main definitions

* `escape`: the written form of one character under a delimiter
* `quote`, `quoteChar`: a text between double quotes, a character between single ones
-/

namespace StreamLexer.Text

/-- The written form of `c` between two `delimiter`s. -/
def escape (delimiter c : Char) : String :=
  if c = delimiter ∨ c = '\\' then String.ofList ['\\', c]
  else if c = '\x00' then "\\0"
  else if c = '\t' then "\\t"
  else if c = '\r' then "\\r"
  else if c = '\n' then "\\n"
  else if isPrintable c then String.singleton c
  else
    let digits := Hex.ofNat c.toNat
    s!"\\u\x7b{digits}\x7d"

/-- A text between double quotes. -/
def quote (s : String) : String :=
  "\"" ++ String.join (s.toList.map (escape '"')) ++ "\""

/-- A character between single quotes. -/
def quoteChar (c : Char) : String :=
  "'" ++ escape '\'' c ++ "'"

end StreamLexer.Text
