import NormalOrder.Text.Blank

namespace NormalOrder.Text

/-- The zero of every decimal digit sequence of Unicode 14; nine digits follow each. -/
def decimalZeros : List Nat :=
  [0x30, 0x660, 0x6F0, 0x7C0, 0x966, 0x9E6, 0xA66, 0xAE6, 0xB66, 0xBE6, 0xC66, 0xCE6, 0xD66,
    0xDE6, 0xE50, 0xED0, 0xF20, 0x1040, 0x1090, 0x17E0, 0x1810, 0x1946, 0x19D0, 0x1A80, 0x1A90,
    0x1B50, 0x1BB0, 0x1C40, 0x1C50, 0xA620, 0xA8D0, 0xA900, 0xA9D0, 0xA9F0, 0xAA50, 0xABF0,
    0xFF10, 0x104A0, 0x10D30, 0x11066, 0x110F0, 0x11136, 0x111D0, 0x112F0, 0x11450, 0x114D0,
    0x11650, 0x116C0, 0x11730, 0x118E0, 0x11950, 0x11C50, 0x11D50, 0x11DA0, 0x16A60, 0x16AC0,
    0x16B50, 0x1D7CE, 0x1D7D8, 0x1D7E2, 0x1D7EC, 0x1D7F6, 0x1E140, 0x1E2F0, 0x1E950, 0x1FBF0]

/-- The value of a decimal digit. -/
def digitValue? (c : Char) : Option Nat :=
  (decimalZeros.find? fun first => first ≤ c.toNat && c.toNat < first + 10).map (c.toNat - ·)

/-- The number with the digits `ds`, the highest first. -/
def ofDigits (ds : List Nat) : Nat := ds.foldl (fun n d => 10 * n + d) 0

/-- The digits that `cs` begins with, and what follows them. -/
def leadingDigits : List Char → List Nat × List Char
  | [] => ([], [])
  | c :: cs =>
    match digitValue? c with
    | none => ([], c :: cs)
    | some d =>
      let (ds, rest) := leadingDigits cs
      (d :: ds, rest)

/-- The number that `cs` begins with, if it begins with a digit, and what follows it. -/
def leadingNumber (cs : List Char) : Option Nat × List Char :=
  let (ds, rest) := leadingDigits cs
  (if ds.isEmpty then none else some (ofDigits ds), rest)

/-- A blank that may surround an integer: any blank but the four ASCII separators. -/
def isPadding (c : Char) : Bool := isBlank c && !inRanges c.toNat [(0x1C, 0x1F)]

/-- The longest integer that is read. -/
def maxDigits : Nat := 4300

/-- The digit values of `cs`, where an underscore may stand between two digits only. -/
def digitValues? : List Char → Option (List Nat)
  | [] => none
  | [c] => (digitValue? c).map ([·])
  | c :: '_' :: rest => do
    let d ← digitValue? c
    let ds ← digitValues? rest
    return d :: ds
  | c :: rest => do
    let d ← digitValue? c
    let ds ← digitValues? rest
    return d :: ds

def natural? (cs : List Char) : Option Nat := do
  let ds ← digitValues? cs
  if ds.length ≤ maxDigits then return ofDigits ds else none

/-- The integer that `cs` denotes. -/
def integer? (cs : List Char) : Option Int :=
  match ((cs.dropWhile isPadding).reverse.dropWhile isPadding).reverse with
  | '-' :: ds => (natural? ds).map fun n => -(n : Int)
  | '+' :: ds => (natural? ds).map fun n => (n : Int)
  | ds => (natural? ds).map fun n => (n : Int)

end NormalOrder.Text
