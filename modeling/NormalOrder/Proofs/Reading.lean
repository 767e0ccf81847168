import NormalOrder.Reader
import NormalOrder.Proofs.Encoding
import NormalOrder.Proofs.Lines
import Mathlib.Logic.Function.Iterate

namespace NormalOrder.Reader

open Text (IsLines)

/-- The reader after a character was asked for. -/
def pull (r : Reader) : Reader := r.next.2

/-- What has not been handed out yet. -/
def remaining (r : Reader) : List Char := r.current ++ if r.closed then [] else r.ahead.flatten

/-- A reader of a text that was decoded without a fault. -/
structure Sound (r : Reader) : Prop where
  clean : r.ending = .clean
  nonempty : ∀ l ∈ r.ahead, l ≠ []

theorem next_spec {r : Reader} (h : r.Sound) :
    r.next.1 = .ok r.remaining.head? ∧ r.pull.remaining = r.remaining.tail ∧ r.pull.Sound := by
  obtain ⟨lines, current, ahead, ending, closed⟩ := r
  obtain rfl : ending = .clean := h.clean
  have hahead : ∀ l ∈ ahead, l ≠ [] := h.nonempty
  match current, closed, ahead with
  | c :: cs, _, _ => exact ⟨rfl, rfl, rfl, hahead⟩
  | [], true, _ => exact ⟨rfl, rfl, rfl, hahead⟩
  | [], false, [] => exact ⟨rfl, rfl, rfl, hahead⟩
  | [], false, [] :: _ => exact absurd rfl (hahead [] (by simp))
  | [], false, (c :: cs) :: ahead =>
    exact ⟨rfl, rfl, rfl, fun l hl => hahead l (List.mem_cons_of_mem _ hl)⟩

/-- The characters come in the order of the text, and after the last one there is nothing, however
often the reader is asked. -/
theorem next_iterate {r : Reader} (h : r.Sound) (k : Nat) :
    (pull^[k] r).next.1 = .ok r.remaining[k]? := by
  induction k generalizing r with
  | zero =>
    rw [Function.iterate_zero_apply, (next_spec h).1, List.head?_eq_getElem?]
  | succ k ih =>
    obtain ⟨-, hremaining, hsound⟩ := next_spec h
    rw [Function.iterate_succ_apply, ih hsound, hremaining, List.getElem?_tail]

theorem pull_iterate_current (lines : List String) (current : List Char) (ahead : List (List Char))
    (ending : Text.Utf8.Ending) (closed : Bool) (k : Nat) (hk : k ≤ current.length) :
    pull^[k] ⟨lines, current, ahead, ending, closed⟩ =
      ⟨lines, current.drop k, ahead, ending, closed⟩ := by
  induction k generalizing current with
  | zero => rfl
  | succ k ih =>
    cases current with
    | nil => simp at hk
    | cons c cs =>
      rw [Function.iterate_succ_apply]
      exact ih cs (by simpa using hk)

/-- A reader that has no lines ahead keeps those that it has. -/
theorem lines_pull_iterate {r : Reader} (h : r.Sound) (hahead : r.ahead = []) (k : Nat) :
    (pull^[k] r).lines = r.lines := by
  induction k generalizing r with
  | zero => rfl
  | succ k ih =>
    have hpull : r.pull.lines = r.lines ∧ r.pull.ahead = [] := by
      obtain ⟨lines, current, ahead, ending, closed⟩ := r
      obtain rfl : ending = .clean := h.clean
      obtain rfl : ahead = [] := hahead
      cases current <;> cases closed <;> exact ⟨rfl, rfl⟩
    rw [Function.iterate_succ_apply, ih (next_spec h).2.2 hpull.2, hpull.1]

/-- With a character, the lines up to the one it stands on have been taken up. -/
theorem lines_taken {text : List Char} {ls : List (List Char)} (h : IsLines text ls)
    (done : List String) (k : Nat) :
    (pull^[k + 1] ⟨done, [], ls, .clean, false⟩).lines =
      done ++ (ls.take ((text.take k).count '\n' + 1)).map String.ofList := by
  induction h generalizing done k with
  | nil =>
    rw [lines_pull_iterate ⟨rfl, by simp⟩ rfl]
    simp
  | @last w hne hw =>
    obtain ⟨c, cs, rfl⟩ := List.exists_cons_of_ne_nil hne
    rw [Function.iterate_succ_apply]
    change (pull^[k] ⟨done ++ [String.ofList (c :: cs)], cs, [], .clean, false⟩).lines = _
    rw [lines_pull_iterate ⟨rfl, by simp⟩ rfl]
    simp
  | @line w cs ls hw hls ih =>
    obtain ⟨d, ds, hd⟩ := List.exists_cons_of_ne_nil (l := w ++ ['\n']) (by simp)
    have hlength : ds.length = w.length := by
      have := congrArg List.length hd
      simpa using this.symm
    have hfirst : pull ⟨done, [], (w ++ ['\n']) :: ls, .clean, false⟩ =
        ⟨done ++ [String.ofList (w ++ ['\n'])], ds, ls, .clean, false⟩ := by
      rw [hd]
      rfl
    rw [Function.iterate_succ_apply, hfirst]
    by_cases hk : k ≤ w.length
    · -- still on the first line, whose line feed has at most just been reached
      have hcount : ((w ++ '\n' :: cs).take k).count '\n' = 0 := by
        rw [List.take_append_of_le_length hk]
        exact List.count_eq_zero.mpr fun hmem => hw (List.mem_of_mem_take hmem)
      rw [pull_iterate_current _ _ _ _ _ _ (by omega), hcount]
      simp
    · obtain ⟨j, rfl⟩ : ∃ j, k = j + 1 + w.length := ⟨k - w.length - 1, by omega⟩
      have hcount : ((w ++ '\n' :: cs).take (j + 1 + w.length)).count '\n' =
          (cs.take j).count '\n' + 1 := by
        rw [Nat.add_comm, List.take_length_add_append, List.take_succ_cons, List.count_append,
          List.count_eq_zero.mpr hw, List.count_cons_self, Nat.zero_add]
      have hdrained := pull_iterate_current (done ++ [String.ofList (w ++ ['\n'])]) ds ls .clean false
        w.length (by omega)
      rw [List.drop_of_length_le (by omega)] at hdrained
      rw [Function.iterate_add_apply, hdrained, ih, hcount]
      simp

/-- Asking for characters to the end takes up every line and closes the reader. -/
theorem pull_iterate_all (lines : List String) (current : List Char) (ahead : List (List Char))
    (hahead : ∀ l ∈ ahead, l ≠ []) :
    pull^[(current ++ ahead.flatten).length + 1] ⟨lines, current, ahead, .clean, false⟩ =
      ⟨lines ++ ahead.map String.ofList, [], [], .clean, true⟩ := by
  induction ahead generalizing lines current with
  | nil =>
    have hdrained := pull_iterate_current lines current [] .clean false current.length (by omega)
    rw [List.drop_length] at hdrained
    rw [List.flatten_nil, List.append_nil, Function.iterate_succ_apply', hdrained, List.map_nil,
      List.append_nil]
    rfl
  | cons l ahead ih =>
    obtain ⟨hl, hrest⟩ := List.forall_mem_cons.mp hahead
    obtain ⟨c, cs, rfl⟩ := List.exists_cons_of_ne_nil hl
    have hdrained := pull_iterate_current lines current ((c :: cs) :: ahead) .clean false
      current.length (by omega)
    rw [List.drop_length] at hdrained
    have hcount : (current ++ ((c :: cs) :: ahead).flatten).length + 1 =
        (cs ++ ahead.flatten).length + 1 + 1 + current.length := by
      simp only [List.length_append, List.flatten_cons, List.length_cons]
      omega
    have hnext : pull ⟨lines, [], (c :: cs) :: ahead, .clean, false⟩ =
        ⟨lines ++ [String.ofList (c :: cs)], cs, ahead, .clean, false⟩ := rfl
    rw [hcount, Function.iterate_add_apply, hdrained, Function.iterate_succ_apply, hnext,
      ih _ cs hrest]
    simp

theorem ofBytes_encode (cs : List Char) :
    ofBytes (Text.Utf8.encode cs) =
      ⟨[], [], Text.lines (Text.unifyNewlines cs), .clean, false⟩ := by
  rw [ofBytes, Text.Utf8.decode_encode]

theorem line_ne_nil {text : List Char} : ∀ l ∈ Text.lines text, l ≠ [] := by
  intro l hl
  have hkept := (List.mem_filter.mp hl).2
  simpa using hkept

theorem rest_ofBytes_encode (cs : List Char) :
    (ofBytes (Text.Utf8.encode cs)).rest =
      (.ok (Text.unifyNewlines cs),
        ⟨(Text.lines (Text.unifyNewlines cs)).map String.ofList, [], [], .clean, true⟩) := by
  rw [ofBytes_encode]
  simp [rest, atEnd, Text.flatten_lines, Except.map]

end NormalOrder.Reader
