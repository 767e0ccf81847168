import NormalOrder.Text.Printable

namespace NormalOrder.Text

/-- Hexadecimal digits of `n`, at least `width` of them. -/
def hex (width n : Nat) : List Char :=
  let digits := Nat.toDigits 16 n
  List.replicate (width - digits.length) '0' ++ digits

/-- The quote that encloses `cs`. -/
def quoteFor (cs : List Char) : Char :=
  if cs.contains '\'' && !cs.contains '"' then '"' else '\''

/-- One character inside the quote `q`; those that are not `shown` are escaped. -/
def quotedChar (shown : Char → Bool) (q c : Char) : List Char :=
  if c = '\\' || c = q then ['\\', c]
  else if c = '\n' then ['\\', 'n']
  else if c = '\r' then ['\\', 'r']
  else if c = '\t' then ['\\', 't']
  else if shown c then [c]
  else if c.toNat < 0x100 then '\\' :: 'x' :: hex 2 c.toNat
  else if c.toNat < 0x10000 then '\\' :: 'u' :: hex 4 c.toNat
  else '\\' :: 'U' :: hex 8 c.toNat

def quotedBy (shown : Char → Bool) (s : String) : String :=
  let q := quoteFor s.toList
  String.ofList (q :: s.toList.flatMap (quotedChar shown q) ++ [q])

/-- The text in single quotes, or in double quotes if it holds single quotes only; whatever cannot
be shown is escaped. -/
def quoted (s : String) : String := quotedBy isPrintable s

/-- Quoted in ASCII characters. -/
def asciiQuoted (s : String) : String := quotedBy (fun c => isPrintable c && c.toNat < 0x80) s

end NormalOrder.Text
