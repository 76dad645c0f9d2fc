import LinearProgram.Text.Printable

/-!
# Quoted text

How a text is shown inside a message: between single quotes, or between double quotes when it holds a
single quote and no double quote. The enclosing quote and the backslash are escaped by a backslash,
line feed, carriage return and tab have escapes of one letter, and every other character that is not
printable is written by its code in two, four or eight hexadecimal digits.
-/

namespace LinearProgram.Text

/-- Lower-case hexadecimal digits of `n`, filled up with zeros to `width`. -/
def hex (width n : Nat) : String :=
  let digits := Nat.toDigits 16 n
  String.ofList (List.replicate (width - digits.length) '0' ++ digits)

/-- The quote that encloses `s`. -/
def enclosingQuote (s : String) : Char :=
  if s.toList.contains '\'' && !s.toList.contains '"' then '"' else '\''

def escaped (quote c : Char) : String :=
  if c = quote ∨ c = '\\' then String.ofList ['\\', c]
  else if c = '\n' then "\\n"
  else if c = '\r' then "\\r"
  else if c = '\t' then "\\t"
  else if isPrintable c then String.singleton c
  else if c.toNat < 0x100 then "\\x" ++ hex 2 c.toNat
  else if c.toNat < 0x10000 then "\\u" ++ hex 4 c.toNat
  else "\\U" ++ hex 8 c.toNat

def quoted (s : String) : String :=
  let quote := enclosingQuote s
  String.singleton quote ++ String.join (s.toList.map (escaped quote)) ++ String.singleton quote

/-- The text without the line feeds at its end. -/
def withoutFinalNewlines (s : String) : String :=
  String.ofList (s.toList.reverse.dropWhile (· == '\n')).reverse

/-- Whether `short` stands at the start of `long`. -/
def startsWith (short long : String) : Bool := short.toList.isPrefixOf long.toList

end LinearProgram.Text
