import NormalOrder.Text.Template.Error

namespace NormalOrder.Text.Template

/-- A field stands in braces. After an exclamation mark it has a conversion, and after a colon a
layout, which may hold fields of its own. -/
structure Field where
  name : List Char
  conversion : Option Char := none
  layout : List Char := []
  deriving DecidableEq, Repr

inductive Part where
  | literal (c : Char)
  | field (f : Field)
  deriving DecidableEq, Repr

/-- Where the reading of a template stands. -/
inductive Mode where
  | text
  /-- After a single opening brace. -/
  | opening
  /-- After a single closing brace. -/
  | closing
  | name (name : List Char)
  /-- Between brackets in a name, where braces and marks stand for themselves. -/
  | key (name : List Char)
  | conversion (name : List Char)
  | converted (f : Field)
  /-- In a layout, with this many braces open inside it. -/
  | layout (f : Field) (depth : Nat)
  deriving DecidableEq, Repr

namespace Mode

/-- The character that follows the name `n`. -/
def readName (n : List Char) : Char → Except Error (Mode × Option Part)
  | '\x7b' => .error .nested
  | '\x7d' => .ok (.text, some (.field { name := n }))
  | '[' => .ok (.key (n ++ ['[']), none)
  | ':' => .ok (.layout { name := n } 0, none)
  | '!' => .ok (.conversion n, none)
  | c => .ok (.name (n ++ [c]), none)

/-- The character `c` that follows the layout of `f`. -/
def readLayout (f : Field) (depth : Nat) (c : Char) : Mode × Option Part :=
  let longer := { f with layout := f.layout ++ [c] }
  match c, depth with
  | '\x7b', _ => (.layout longer (depth + 1), none)
  | '\x7d', 0 => (.text, some (.field f))
  | '\x7d', depth + 1 => (.layout longer depth, none)
  | _, _ => (.layout longer depth, none)

/-- The state after the character `c`, and the part that it completes. -/
def step : Mode → Char → Except Error (Mode × Option Part)
  | .text, c =>
    if c = '\x7b' then .ok (.opening, none)
    else if c = '\x7d' then .ok (.closing, none)
    else .ok (.text, some (.literal c))
  | .opening, c => if c = '\x7b' then .ok (.text, some (.literal c)) else readName [] c
  | .closing, c => if c = '\x7d' then .ok (.text, some (.literal c)) else .error .loneClosing
  | .name n, c => readName n c
  | .key n, c => .ok (if c = ']' then .name (n ++ [c]) else .key (n ++ [c]), none)
  | .conversion n, c =>
    .ok (.converted { name := n, conversion := if c = '\x00' then none else some c }, none)
  | .converted f, c =>
    if c = '\x7d' then .ok (.text, some (.field f))
    else if c = ':' then .ok (.layout f 0, none)
    else .error .longConversion
  | .layout f depth, c => .ok (readLayout f depth c)

/-- What is wrong with a template that ends in this state. -/
def atEnd : Mode → Option Error
  | .text => none
  | .opening => some .loneOpening
  | .closing => some .loneClosing
  | .name _ | .key _ => some .unclosed
  | .conversion _ => some .noConversion
  | .converted _ | .layout _ _ => some .unclosedLayout

end Mode

/-- The parts that `cs` has, up to the first fault. -/
def parts (mode : Mode) : List Char → List (Except Error Part)
  | [] => (mode.atEnd.map Except.error).toList
  | c :: cs =>
    match mode.step c with
    | .error e => [.error e]
    | .ok (mode, part) => (part.map Except.ok).toList ++ parts mode cs

end NormalOrder.Text.Template
