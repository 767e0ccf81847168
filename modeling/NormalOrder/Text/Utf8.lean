import NormalOrder.Text.Quoted

namespace NormalOrder.Text.Utf8

inductive Reason where
  | invalidStart
  | invalidContinuation
  | truncated
  deriving DecidableEq, Repr

/-- The bytes of a sequence that cannot be read, and their offset. -/
structure Fault where
  reason : Reason
  offset : Nat
  bytes : List UInt8
  deriving DecidableEq, Repr

def Reason.message : Reason → String
  | .invalidStart => "invalid start byte"
  | .invalidContinuation => "invalid continuation byte"
  | .truncated => "unexpected end of data"

def Fault.message (f : Fault) : String :=
  let place :=
    match f.bytes with
    | [b] => "byte 0x" ++ String.ofList (hex 2 b.toNat) ++ " in position " ++ toString f.offset
    | bs =>
      "bytes in position " ++ toString f.offset ++ "-" ++ toString (f.offset + bs.length - 1)
  "'utf-8' codec can't decode " ++ place ++ ": " ++ f.reason.message

/-- A sequence of which some bytes were read: its value so far, how many bytes are still to come,
and between which bounds the next one lies. -/
structure Sequence where
  value : Nat
  missing : Nat
  low : Nat
  high : Nat
  bytes : List UInt8
  deriving DecidableEq, Repr

/-- The sequence that a byte beyond ASCII begins. The bounds shut out overlong forms, surrogates
and values above the last code point. -/
def Sequence.start? (b : UInt8) : Option Sequence :=
  let n := b.toNat
  if 0xC2 ≤ n && n ≤ 0xDF then some ⟨n - 0xC0, 1, 0x80, 0xBF, [b]⟩
  else if 0xE0 ≤ n && n ≤ 0xEF then
    some ⟨n - 0xE0, 2, if n = 0xE0 then 0xA0 else 0x80, if n = 0xED then 0x9F else 0xBF, [b]⟩
  else if 0xF0 ≤ n && n ≤ 0xF4 then
    some ⟨n - 0xF0, 3, if n = 0xF0 then 0x90 else 0x80, if n = 0xF4 then 0x8F else 0xBF, [b]⟩
  else none

/-- The sequence with one more byte, which lies between its bounds. -/
def Sequence.extend (s : Sequence) (b : UInt8) : Sequence :=
  ⟨64 * s.value + (b.toNat - 0x80), s.missing - 1, 0x80, 0xBF, s.bytes ++ [b]⟩

/-- Whether the last two bytes begin a surrogate. More bytes could not mend this, but it comes to
light only when there are no more. -/
def isCutSurrogate (s : Sequence) (b : UInt8) (rest : List UInt8) : Bool :=
  s.bytes = [0xED] && 0xA0 ≤ b.toNat && b.toNat ≤ 0xBF && rest.isEmpty

/-- How the bytes after the last whole character end. -/
inductive Ending where
  | clean
  /-- A sequence that no further bytes could complete. -/
  | invalid (f : Fault)
  /-- A sequence cut short by the end of the bytes; its offset counts from itself. -/
  | cutShort (f : Fault)
  deriving DecidableEq, Repr

/-- Reads the bytes from `offset` on, with the sequence being read, if one is open. -/
def decodeFrom (offset : Nat) : Option Sequence → List UInt8 → List Char × Ending
  | none, [] => ([], .clean)
  | some s, [] => ([], .cutShort ⟨.truncated, 0, s.bytes⟩)
  | none, b :: bs =>
    if b.toNat < 0x80 then
      let (cs, ending) := decodeFrom (offset + 1) none bs
      (Char.ofNat b.toNat :: cs, ending)
    else
      match Sequence.start? b with
      | none => ([], .invalid ⟨.invalidStart, offset, [b]⟩)
      | some s => decodeFrom (offset + 1) (some s) bs
  | some s, b :: bs =>
    if s.low ≤ b.toNat && b.toNat ≤ s.high then
      let s := s.extend b
      if s.missing = 0 then
        let (cs, ending) := decodeFrom (offset + 1) none bs
        (Char.ofNat s.value :: cs, ending)
      else decodeFrom (offset + 1) (some s) bs
    else if isCutSurrogate s b bs then ([], .cutShort ⟨.invalidContinuation, 0, s.bytes⟩)
    else ([], .invalid ⟨.invalidContinuation, offset - s.bytes.length, s.bytes⟩)

/-- The characters that the bytes spell before the first fault, and how they end. -/
def decode (bytes : List UInt8) : List Char × Ending := decodeFrom 0 none bytes

end NormalOrder.Text.Utf8
