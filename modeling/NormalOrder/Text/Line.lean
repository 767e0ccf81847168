namespace NormalOrder.Text

/-- Every line ending as a line feed: a carriage return is one too, alone or before a line feed. -/
def unifyNewlines : List Char → List Char
  | [] => []
  | '\r' :: '\n' :: cs => '\n' :: unifyNewlines cs
  | '\r' :: cs => '\n' :: unifyNewlines cs
  | c :: cs => c :: unifyNewlines cs

/-- Cuts a text after every line feed. What follows the last one is a piece too, also if empty. -/
def splitAfterNewlines : List Char → List (List Char)
  | [] => [[]]
  | c :: cs =>
    if c = '\n' then [c] :: splitAfterNewlines cs
    else
      match splitAfterNewlines cs with
      | [] => [[c]]
      | piece :: pieces => (c :: piece) :: pieces

/-- Cutting loses nothing. -/
@[simp] theorem flatten_splitAfterNewlines (cs : List Char) :
    (splitAfterNewlines cs).flatten = cs := by
  induction cs with
  | nil => rfl
  | cons c cs ih =>
    rw [splitAfterNewlines]
    split
    · simp [ih]
    · split <;> simp_all

/-- The lines of a text, each with its line feed; nothing follows a last line feed. -/
def lines (cs : List Char) : List (List Char) :=
  (splitAfterNewlines cs).filter (!·.isEmpty)

end NormalOrder.Text
