import NormalOrder.Text.Styled
import NormalOrder.Text.Template.Field

namespace NormalOrder.Text.Template

/-- How the fields met so far chose their arguments. -/
inductive Numbering where
  | undecided
  | automatic (next : Nat)
  | explicit
  deriving DecidableEq, Repr

/-- A number at the beginning of `cs`, and what follows it. -/
def readNumber (cs : List Char) : Except Error (Option Nat × List Char) :=
  (Layout.readNumber cs).mapError fun _ => .tooManyDigits

/-- The argument that the name `cs` asks for, and the numbering after it. -/
def Numbering.choose (numbering : Numbering) (cs : List Char) : Except Error (Nat × Numbering) := do
  match ← readNumber cs, numbering with
  | (none, []), .undecided => return (0, .automatic 1)
  | (none, []), .automatic n => return (n, .automatic (n + 1))
  | (none, []), .explicit => .error .alreadyNumbered
  | (some _, []), .automatic _ => .error .alreadyAutomatic
  | (some i, []), _ => return (i, .explicit)
  | _, _ => .error (.unknown (String.ofList cs))

def isAccess (c : Char) : Bool := c = '.' || c = '['

/-- The character of `value` with the number `key`. -/
def item (value key : List Char) : Except Error (List Char) := do
  match ← readNumber key with
  | (none, []) => .error .emptyAccess
  | (some i, []) =>
    match value[i]? with
    | some c => return [c]
    | none => .error .outOfRange
  | _ => .error .badKey

/-- What `cs` picks out of `value`. `key` is the key being read, if a bracket is open. A text has
characters but no attributes. -/
def access (value : List Char) : Option (List Char) → List Char → Except Error (List Char)
  | none, [] => .ok value
  | some _, [] => .error .unclosed
  | some key, c :: cs => do
    if c = ']' then access (← item value key) none cs else access value (some (key ++ [c])) cs
  | none, c :: cs =>
    if c = '[' then access value (some []) cs
    else if c = '.' then
      let name := cs.takeWhile (!isAccess ·)
      .error (if name.isEmpty then .emptyAccess else .noAttribute (String.ofList name))
    else .error .strayAccess

/-- What a field stands for, before it is converted and laid out, and the numbering after it. -/
def Field.value (args : List (List Char)) (numbering : Numbering) (f : Field) :
    Except Error (List Char × Numbering) := do
  let (index, numbering) ← numbering.choose (f.name.takeWhile (!isAccess ·))
  match args[index]? with
  | none => .error (.missing index)
  | some arg => return (← access arg none (f.name.dropWhile (!isAccess ·)), numbering)

def convert (value : List Char) : Option Char → Except Error (List Char)
  | none | some 's' => .ok value
  | some 'r' => .ok (quoted (String.ofList value)).toList
  | some 'a' => .ok (asciiQuoted (String.ofList value)).toList
  | some c => .error (.unknownConversion c)

/-- Fills a template, and gives the numbering after it. -/
abbrev Filling := Numbering → List Char → Except Error (List Char × Numbering)

/-- The text of a field. Its layout is filled first if it holds fields. -/
def Field.fill (fillLayout : Filling) (args : List (List Char)) (numbering : Numbering)
    (f : Field) : Except Error (List Char × Numbering) := do
  let (value, numbering) ← f.value args numbering
  let value ← convert value f.conversion
  let (layout, numbering) ←
    if f.layout.contains '\x7b' then fillLayout numbering f.layout else .ok (f.layout, numbering)
  let layout ← (Layout.read layout).mapError .layout
  return (layout.apply value, numbering)

def fillParts (fillLayout : Filling) (args : List (List Char)) :
    Numbering → List (Except Error Part) → Except Error (List Char × Numbering)
  | numbering, [] => .ok ([], numbering)
  | _, .error e :: _ => .error e
  | numbering, .ok (.literal c) :: ps => do
    let (cs, numbering) ← fillParts fillLayout args numbering ps
    return (c :: cs, numbering)
  | numbering, .ok (.field f) :: ps => do
    let (value, numbering) ← f.fill fillLayout args numbering
    let (cs, numbering) ← fillParts fillLayout args numbering ps
    return (value ++ cs, numbering)

/-- Fills a template in which fields may be nested less than `depth` deep. -/
def fill (args : List (List Char)) : Nat → Filling
  | 0, _, _ => .error .tooDeep
  | depth + 1, numbering, cs => fillParts (fill args depth) args numbering (parts .text cs)

/-- Fills `template` with `args`; arguments left over are ignored. A field without a name takes the
next argument, a numbered field that of its number. The layout of a field may hold fields, but their
layouts may not. -/
def format (template : String) (args : List String) : Except Error String := do
  let (cs, _) ← fill (args.map String.toList) 2 .undecided template.toList
  return String.ofList cs

/-- The message that `template` and `args` make, with bold arguments. Where styles are shown, a
conversion or a layout sees what the palette makes of an argument, so the shown form may differ in
more than that, and may fail alone; otherwise it is not filled. -/
def message [Palette] (styles : Bool) (template : String) (args : List String) :
    Except Error Styled := do
  let text ← format template args
  let shown ← if styles then format template (args.map (Palette.paint .bold)) else .ok text
  return [⟨text, shown⟩]

/-- The template that reads `s`, braces included. -/
def escape (s : String) : String :=
  String.ofList (s.toList.flatMap fun c => if c = '\x7b' || c = '\x7d' then [c, c] else [c])

end NormalOrder.Text.Template
