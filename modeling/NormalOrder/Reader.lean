import NormalOrder.Text.Line
import NormalOrder.Text.Utf8

namespace NormalOrder

/-- A file that is read character by character. A line is taken up when the one before is used up,
and every line taken up is kept for diagnostics. -/
structure Reader where
  /-- The lines taken up so far. -/
  lines : List String
  /-- What is left of the line being read. -/
  current : List Char
  /-- The lines not yet taken up. -/
  ahead : List (List Char)
  /-- What is met after those lines. -/
  ending : Text.Utf8.Ending
  closed : Bool
  deriving DecidableEq, Repr

namespace Reader

/-- The lines that can be read before a sequence that is cut short: whole ones only, and a carriage
return right before it may be half a line ending. -/
def linesBefore (cs : List Char) : List (List Char) :=
  let cs := if cs.getLast? = some '\r' then cs.dropLast else cs
  (Text.splitAfterNewlines (Text.unifyNewlines cs)).dropLast

/-- A reader at the start of a file. A file with a fault other than a sequence cut short is not read
at all. -/
def ofBytes (bytes : List UInt8) : Reader :=
  match Text.Utf8.decode bytes with
  | (cs, .clean) => ⟨[], [], Text.lines (Text.unifyNewlines cs), .clean, false⟩
  | (_, .invalid f) => ⟨[], [], [], .invalid f, false⟩
  | (cs, .cutShort f) => ⟨[], [], linesBefore cs, .cutShort f, false⟩

/-- What the end of the file brings: the reader is closed there, or meets a fault. A sequence cut
short is met again and again. -/
def atEnd (r : Reader) : Except Text.Utf8.Fault Unit × Reader :=
  match r.ending with
  | .clean => (.ok (), { r with closed := true })
  | .invalid f => (.error f, { r with ending := .clean })
  | .cutShort f => (.error f, r)

/-- The next character, or nothing at the end. -/
def next (r : Reader) : Except Text.Utf8.Fault (Option Char) × Reader :=
  match r.current with
  | c :: cs => (.ok (some c), { r with current := cs })
  | [] =>
    if r.closed then (.ok none, r)
    else
      match r.ahead with
      | (c :: cs) :: ahead =>
        (.ok (some c),
          { r with lines := r.lines ++ [String.ofList (c :: cs)], current := cs, ahead := ahead })
      | [] :: _ => (.ok none, { r with closed := true })
      | [] =>
        let (met, r) := r.atEnd
        (met.map fun _ => none, r)

/-- Up to `n` characters, and whether the end was met. -/
def take (r : Reader) : Nat → Except Text.Utf8.Fault (List Char × Bool) × Reader
  | 0 => (.ok ([], false), r)
  | n + 1 =>
    match r.next with
    | (.error f, r) => (.error f, r)
    | (.ok none, r) => (.ok ([], true), r)
    | (.ok (some c), r) =>
      match take r n with
      | (.error f, r) => (.error f, r)
      | (.ok (cs, ended), r) => (.ok (c :: cs, ended), r)

/-- All the characters that are left. -/
def rest (r : Reader) : Except Text.Utf8.Fault (List Char) × Reader :=
  if r.closed then (.ok r.current, { r with current := [] })
  else
    let (met, spent) :=
      { r with current := [], lines := r.lines ++ r.ahead.map String.ofList, ahead := [] }.atEnd
    (met.map fun _ => r.current ++ r.ahead.flatten, spent)

def close (r : Reader) : Reader := { r with closed := true }

end Reader

end NormalOrder
