import NormalOrder.Text.Line
import Mathlib.Data.List.TakeWhile

namespace NormalOrder.Text

/-- A text is a last line without a line feed, or a line with one in front of another text. -/
theorem induct_lines {motive : List Char → Prop} (last : ∀ w, '\n' ∉ w → motive w)
    (line : ∀ w cs, '\n' ∉ w → motive cs → motive (w ++ '\n' :: cs)) (cs : List Char) :
    motive cs := by
  suffices h : ∀ w, '\n' ∉ w → motive (w ++ cs) from h [] (by simp)
  induction cs with
  | nil =>
    intro w hw
    rw [List.append_nil]
    exact last w hw
  | cons c cs ih =>
    intro w hw
    by_cases hc : c = '\n'
    · rw [hc]
      exact line w cs hw (ih [] (by simp))
    · have hnext := ih (w ++ [c]) (by simp [hw, Ne.symm hc])
      rwa [List.append_assoc] at hnext

theorem splitAfterNewlines_of_notMem {w : List Char} (h : '\n' ∉ w) : splitAfterNewlines w = [w] := by
  induction w with
  | nil => rfl
  | cons c w ih =>
    simp only [List.mem_cons, not_or] at h
    simp [splitAfterNewlines, Ne.symm h.1, ih h.2]

theorem splitAfterNewlines_line {w : List Char} (h : '\n' ∉ w) (cs : List Char) :
    splitAfterNewlines (w ++ '\n' :: cs) = (w ++ ['\n']) :: splitAfterNewlines cs := by
  induction w with
  | nil => simp [splitAfterNewlines]
  | cons c w ih =>
    simp only [List.mem_cons, not_or] at h
    simp [splitAfterNewlines, Ne.symm h.1, ih h.2]

/-- The lines of a text: each but the last ends in the only line feed it has, and the last is not
empty. -/
inductive IsLines : List Char → List (List Char) → Prop
  | nil : IsLines [] []
  | last {w : List Char} : w ≠ [] → '\n' ∉ w → IsLines w [w]
  | line {w cs : List Char} {ls : List (List Char)} :
      '\n' ∉ w → IsLines cs ls → IsLines (w ++ '\n' :: cs) ((w ++ ['\n']) :: ls)

theorem isLines_lines (cs : List Char) : IsLines cs (lines cs) := by
  induction cs using induct_lines with
  | last w hw =>
    rw [lines, splitAfterNewlines_of_notMem hw]
    cases w with
    | nil => exact .nil
    | cons c w => exact .last (by simp) hw
  | line w cs hw ih =>
    have hlines : lines (w ++ '\n' :: cs) = (w ++ ['\n']) :: lines cs := by
      simp [lines, splitAfterNewlines_line hw]
    rw [hlines]
    exact .line hw ih

theorem flatten_lines (cs : List Char) : (lines cs).flatten = cs := by
  rw [lines, List.flatten_filter_not_isEmpty, flatten_splitAfterNewlines]

/-- The pieces are the lines, and then nothing or what follows the last line feed. -/
theorem splitAfterNewlines_eq_lines (cs : List Char) :
    ∃ rest, splitAfterNewlines cs = lines cs ++ rest ∧ ∀ l ∈ rest, l = [] := by
  induction cs using induct_lines with
  | last w hw =>
    rw [lines, splitAfterNewlines_of_notMem hw]
    cases w with
    | nil => exact ⟨[[]], rfl, by simp⟩
    | cons c w => exact ⟨[], rfl, by simp⟩
  | line w cs hw ih =>
    obtain ⟨rest, hrest, hempty⟩ := ih
    refine ⟨rest, ?_, hempty⟩
    rw [lines, splitAfterNewlines_line hw, List.filter_cons_of_pos (by simp), ← lines, hrest,
      List.cons_append]

theorem getElem?_lines {cs l : List Char} {i : Nat} (hne : l ≠ [])
    (h : (splitAfterNewlines cs)[i]? = some l) : (lines cs)[i]? = some l := by
  obtain ⟨rest, hrest, hempty⟩ := splitAfterNewlines_eq_lines cs
  rw [hrest] at h
  by_cases hi : i < (lines cs).length
  · rwa [List.getElem?_append_left hi] at h
  · -- beyond the lines there are empty pieces only
    rw [List.getElem?_append_right (by omega)] at h
    exact absurd (hempty l (List.mem_of_getElem? h)) hne

/-- What follows the last line feed. -/
def sinceNewline (cs : List Char) : List Char := (cs.reverse.takeWhile (· != '\n')).reverse

/-- What stands before the first line feed. -/
def untilNewline (cs : List Char) : List Char := cs.takeWhile (· != '\n')

/-- The first line feed, if there is one. -/
def newlineAfter (cs : List Char) : List Char := (cs.dropWhile (· != '\n')).take 1

theorem newlineAfter_cases (cs : List Char) : newlineAfter cs = [] ∨ newlineAfter cs = ['\n'] := by
  cases h : cs.dropWhile (· != '\n') with
  | nil => exact .inl (by simp [newlineAfter, h])
  | cons c rest =>
    have hhead := List.head_dropWhile_not (· != '\n') (l := cs) (by simp [h])
    have hc : c = '\n' := by simpa [h] using hhead
    exact .inr (by simp [newlineAfter, h, hc])

theorem untilNewline_append {w : List Char} (h : '\n' ∉ w) (cs : List Char) :
    untilNewline (w ++ cs) = w ++ untilNewline cs := by
  induction w with
  | nil => rfl
  | cons c w ih =>
    simp only [List.mem_cons, not_or] at h
    simpa [untilNewline, Ne.symm h.1] using ih h.2

theorem newlineAfter_append {w : List Char} (h : '\n' ∉ w) (cs : List Char) :
    newlineAfter (w ++ cs) = newlineAfter cs := by
  induction w with
  | nil => rfl
  | cons c w ih =>
    simp only [List.mem_cons, not_or] at h
    simpa [newlineAfter, Ne.symm h.1] using ih h.2

theorem sinceNewline_append {w : List Char} (h : '\n' ∉ w) (cs : List Char) :
    sinceNewline (cs ++ w) = sinceNewline cs ++ w := by
  have hrev := untilNewline_append (w := w.reverse) (by simpa using h) cs.reverse
  rw [sinceNewline, List.reverse_append, ← untilNewline, hrev, List.reverse_append,
    List.reverse_reverse, untilNewline, ← sinceNewline]

theorem sinceNewline_of_notMem {w : List Char} (h : '\n' ∉ w) : sinceNewline w = w :=
  sinceNewline_append h []

theorem sinceNewline_line (w cs : List Char) : sinceNewline (w ++ '\n' :: cs) = sinceNewline cs := by
  have hstop (xs ys : List Char) :
      (xs ++ '\n' :: ys).takeWhile (· != '\n') = xs.takeWhile (· != '\n') := by
    induction xs with
    | nil => simp
    | cons x xs ih => by_cases hx : x = '\n' <;> simp [hx, ih]
  rw [sinceNewline, List.reverse_append, List.reverse_cons, List.append_assoc, List.singleton_append,
    hstop, ← sinceNewline]

theorem newline_notMem_untilNewline (cs : List Char) : '\n' ∉ untilNewline cs := by
  intro h
  have hmem := List.mem_takeWhile_imp h
  simp at hmem

theorem newline_notMem_sinceNewline (cs : List Char) : '\n' ∉ sinceNewline cs := by
  intro h
  exact newline_notMem_untilNewline cs.reverse (List.mem_reverse.mp h)

theorem splitAfterNewlines_head (cs : List Char) :
    (splitAfterNewlines cs)[0]? = some (untilNewline cs ++ newlineAfter cs) := by
  induction cs using induct_lines with
  | last w hw =>
    have huntil := untilNewline_append hw []
    have hafter := newlineAfter_append hw []
    rw [List.append_nil] at huntil hafter
    rw [splitAfterNewlines_of_notMem hw, huntil, hafter]
    simp [untilNewline, newlineAfter]
  | line w cs hw =>
    rw [splitAfterNewlines_line hw, untilNewline_append hw, newlineAfter_append hw]
    simp [untilNewline, newlineAfter]

/-- The piece with the number of a character goes from the line feed before the character to the one
after it. -/
theorem getElem?_splitAfterNewlines (before after : List Char) :
    (splitAfterNewlines (before ++ after))[before.count '\n']? =
      some (sinceNewline before ++ (untilNewline after ++ newlineAfter after)) := by
  induction before using induct_lines with
  | last w hw =>
    rw [List.count_eq_zero.mpr hw, splitAfterNewlines_head, untilNewline_append hw,
      newlineAfter_append hw, sinceNewline_of_notMem hw, List.append_assoc]
  | line w cs hw ih =>
    have hcount : (w ++ '\n' :: cs).count '\n' = cs.count '\n' + 1 := by
      simp [List.count_eq_zero.mpr hw]
    rw [hcount, List.append_assoc, List.cons_append, splitAfterNewlines_line hw,
      List.getElem?_cons_succ, ih, sinceNewline_line]

end NormalOrder.Text
