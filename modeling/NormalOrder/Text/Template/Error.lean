import NormalOrder.Text.Layout

namespace NormalOrder.Text.Template

inductive Error where
  | loneOpening
  | loneClosing
  | unclosed
  | nested
  | unclosedLayout
  | noConversion
  | longConversion
  | unknownConversion (c : Char)
  | tooManyDigits
  | missing (index : Nat)
  | unknown (field : String)
  | alreadyNumbered
  | alreadyAutomatic
  | emptyAccess
  | strayAccess
  | noAttribute (name : String)
  | badKey
  | outOfRange
  | tooDeep
  | layout (e : Layout.Error)
  deriving DecidableEq, Repr

def Error.message : Error → String
  | .loneOpening => "Single '\x7b' encountered in format string"
  | .loneClosing => "Single '\x7d' encountered in format string"
  | .unclosed => "expected '\x7d' before end of string"
  | .nested => "unexpected '\x7b' in field name"
  | .unclosedLayout => "unmatched '\x7b' in format spec"
  | .noConversion => "end of string while looking for conversion specifier"
  | .longConversion => "expected ':' after conversion specifier"
  | .unknownConversion c => "Unknown conversion specifier " ++ Layout.nameOf 0x7F c
  | .tooManyDigits => "Too many decimal digits in format string"
  | .missing i => "Replacement index " ++ toString i ++ " out of range for positional args tuple"
  | .unknown f => quoted f
  | .alreadyNumbered =>
    "cannot switch from manual field specification to automatic field numbering"
  | .alreadyAutomatic =>
    "cannot switch from automatic field numbering to manual field specification"
  | .emptyAccess => "Empty attribute in format string"
  | .strayAccess => "Only '.' or '[' may follow ']' in format field specifier"
  | .noAttribute name => "'str' object has no attribute '" ++ name ++ "'"
  | .badKey => "string indices must be integers, not 'str'"
  | .outOfRange => "string index out of range"
  | .tooDeep => "Max string recursion exceeded"
  | .layout e => e.message

end NormalOrder.Text.Template
