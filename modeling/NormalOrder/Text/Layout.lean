import NormalOrder.Text.Decimal
import NormalOrder.Text.Quoted

namespace NormalOrder.Text

/-- Where a text stands in a space that is wider than it. -/
inductive Side where
  | left
  | right
  | centre
  deriving DecidableEq, Repr

/-- How a text is cut to a number of characters and padded to a width. A layout is written as a
padding character and a side (`<`, `>` or `^`), a width, a dot with the number of characters to
keep, and the kind `s`; each of these may be missing. -/
structure Layout where
  padding : Char := ' '
  side : Side := .left
  width : Nat := 0
  /-- The most characters that are kept. -/
  limit : Option Nat := none
  deriving DecidableEq, Repr

namespace Layout

def apply (l : Layout) (cs : List Char) : List Char :=
  let kept := cs.take (l.limit.getD cs.length)
  let room := l.width - kept.length
  let before :=
    match l.side with
    | .left => 0
    | .right => room
    | .centre => room / 2
  List.replicate before l.padding ++ kept ++ List.replicate (room - before) l.padding

@[simp] theorem apply_default (cs : List Char) : apply {} cs = cs := by
  simp [apply]

inductive Error where
  | tooManyDigits
  | bothSeparators
  | missingLimit
  | unreadable (layout : String)
  | separator (mark kind : Char)
  | unknownKind (kind : Char)
  | space
  | sign
  | negativeZero
  | alternate
  | numeric
  | tooWide
  deriving DecidableEq, Repr

/-- A character as a message names it: as it is if its code lies between `0x20` and `bound`, by its
code otherwise. -/
def nameOf (bound : Nat) (c : Char) : String :=
  if 0x20 < c.toNat && c.toNat < bound then c.toString
  else "\\x" ++ String.ofList (hex 1 c.toNat)

def Error.message : Error → String
  | .tooManyDigits => "Too many decimal digits in format string"
  | .bothSeparators => "Cannot specify both ',' and '_'."
  | .missingLimit => "Format specifier missing precision"
  | .unreadable l => "Invalid format specifier '" ++ l ++ "' for object of type 'str'"
  | .separator m k => "Cannot specify '" ++ m.toString ++ "' with '" ++ nameOf 0x80 k ++ "'."
  | .unknownKind k => "Unknown format code '" ++ nameOf 0x80 k ++ "' for object of type 'str'"
  | .space => "Space not allowed in string format specifier"
  | .sign => "Sign not allowed in string format specifier"
  | .negativeZero => "Negative zero coercion (z) not allowed in string format specifier"
  | .alternate => "Alternate form (#) not allowed in string format specifier"
  | .numeric => "'=' alignment not allowed in string format specifier"
  | .tooWide => ""

/-- The largest number that a template may hold. -/
def maxNumber : Nat := 0x7fffffffffffffff

/-- The greatest width that can be filled. -/
def maxWidth : Nat := 0x100000000

/-- The first character if it fulfils `p`, and what follows. -/
def takeIf (p : Char → Bool) : List Char → Option Char × List Char
  | [] => (none, [])
  | c :: cs => if p c then (some c, cs) else (none, c :: cs)

def isAlignment (c : Char) : Bool := c = '<' || c = '>' || c = '^' || c = '='

/-- The padding, the alignment, and what follows. A padding stands before an alignment only. -/
def readAlignment (cs : List Char) : Option Char × Option Char × List Char :=
  match cs with
  | p :: a :: rest =>
    if isAlignment a then (some p, some a, rest) else (none, takeIf isAlignment cs)
  | _ => (none, takeIf isAlignment cs)

def readNumber (cs : List Char) : Except Error (Option Nat × List Char) :=
  match leadingNumber cs with
  | (some n, rest) => if maxNumber < n then .error .tooManyDigits else .ok (some n, rest)
  | (none, rest) => .ok (none, rest)

def readSeparator : List Char → Except Error (Option Char × List Char)
  | ',' :: '_' :: _ => .error .bothSeparators
  | '_' :: ',' :: _ => .error .bothSeparators
  | ',' :: cs => .ok (some ',', cs)
  | '_' :: cs => .ok (some '_', cs)
  | cs => .ok (none, cs)

def readLimit : List Char → Except Error (Option Nat × List Char)
  | '.' :: cs => do
    match ← readNumber cs with
    | (none, _) => .error .missingLimit
    | limit => return limit
  | cs => .ok (none, cs)

/-- Whether `mark` may separate groups of digits in a number of this kind. -/
def groups (mark kind : Char) : Bool :=
  "defgEFG%\x00".contains kind || mark = '_' && "boxX".contains kind

/-- The side that an alignment puts a text to, which is the left one if there is no alignment. -/
def sideOf : Option Char → Except Error Side
  | some '>' => .ok .right
  | some '^' => .ok .centre
  | some '=' => .error .numeric
  | _ => .ok .left

/-- The layout that `cs` describes. The first fault in the order of the parts is reported, and what
is wrong with a part only after all were read. -/
def read (cs : List Char) : Except Error Layout := do
  let (padding, alignment, rest) := readAlignment cs
  let (sign, rest) := takeIf (fun c => c = '+' || c = '-' || c = ' ') rest
  let (coercion, rest) := takeIf (· = 'z') rest
  let (alternate, rest) := takeIf (· = '#') rest
  let (zero, rest) := takeIf (fun c => c = '0' && padding.isNone) rest
  let (width, rest) ← readNumber rest
  let (separator, rest) ← readSeparator rest
  let (limit, rest) ← readLimit rest
  let kind ←
    match rest with
    | [] => .ok 's'
    | [c] => .ok c
    | _ => .error (.unreadable (String.ofList cs))
  if let some mark := separator then
    if !groups mark kind then throw (.separator mark kind)
  if kind ≠ 's' then throw (.unknownKind kind)
  if let some c := sign then throw (if c = ' ' then .space else .sign)
  if coercion.isSome then throw .negativeZero
  if alternate.isSome then throw .alternate
  let side ← sideOf alignment
  if maxWidth < width.getD 0 then throw .tooWide
  return { padding := (padding <|> zero).getD ' ', side, width := width.getD 0, limit }

end Layout

end NormalOrder.Text
