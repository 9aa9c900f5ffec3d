import Scriptlet.Text.Basic

/-! Texts made up of lines.

A text is made up of its lines, each with a newline (`unlines`). The number of the line
that holds a character is found by counting newlines, since no line has one in it
(`lineNumber_unlines`). -/
namespace Scriptlet

/-! ### Lines put together -/

/-- The text of lines, each with a newline. -/
def unlines (lines : List (List Char)) : List Char :=
  lines.flatMap (· ++ ['\n'])

theorem unlines_append (lines others : List (List Char)) :
    unlines (lines ++ others) = unlines lines ++ unlines others :=
  List.flatMap_append ..

theorem unlines_singleton (line : List Char) : unlines [line] = line ++ ['\n'] :=
  List.flatMap_singleton ..

theorem unlines_concat (lines : List (List Char)) (line : List Char) :
    unlines (lines ++ [line]) = unlines lines ++ line ++ ['\n'] := by
  rw [unlines_append, unlines_singleton, List.append_assoc]

theorem unlines_flatten (groups : List (List (List Char))) :
    unlines groups.flatten = (groups.map unlines).flatten := by
  induction groups with
  | nil => rfl
  | cons g groups ih => rw [List.flatten_cons, unlines_append, ih, List.map_cons, List.flatten_cons]

theorem unlines_eq_nil {lines : List (List Char)} (h : unlines lines = []) : lines = [] := by
  cases lines with
  | nil => rfl
  | cons line lines => simp [unlines] at h

/-! ### Counting lines -/

/-- Behind a text and a newline, lines are counted on from the lines of that text. -/
theorem lineNumber_append (a b : List Char) (offset : Nat) :
    Text.lineNumber (a ++ '\n' :: b) (offset + (a.length + 1)) =
      Text.lineNumber b offset + (1 + a.count '\n') := by
  have htake : (a ++ '\n' :: b).take (offset + (a.length + 1)) = a ++ '\n' :: b.take offset := by
    rw [Nat.add_left_comm, List.take_length_add_append, List.take_succ_cons]
  simp only [Text.lineNumber, htake, List.count_append, List.count_cons_self]
  omega

/-! ### The line that holds a character -/

/-- More lines are no shorter. -/
theorem length_unlines_take (lines : List (List Char)) {few many : Nat} (h : few ≤ many) :
    (unlines (lines.take few)).length ≤ (unlines (lines.take many)).length := by
  have hsplit := List.take_append_drop few (lines.take many)
  rw [List.take_take, Nat.min_eq_left h] at hsplit
  rw [← hsplit, unlines_append, List.length_append]
  exact Nat.le_add_right _ _

/-- The line with the number, from one, holds the character at the offset. -/
structure LineHolds (lines : List (List Char)) (number offset : Nat) : Prop where
  begun : (unlines (lines.take (number - 1))).length ≤ offset
  unended : offset < (unlines (lines.take number)).length

namespace LineHolds

variable {lines : List (List Char)} {number other offset : Nat}

theorem pos (h : LineHolds lines number offset) : 0 < number := by
  refine Nat.pos_of_ne_zero fun hzero => ?_
  have := h.unended
  rw [hzero, List.take_zero] at this
  exact Nat.not_lt_zero _ this

/-- A character is on one line only. -/
theorem unique (h : LineHolds lines number offset) (h' : LineHolds lines other offset) :
    number = other := by
  have hnot : ∀ {few many : Nat}, LineHolds lines few offset → LineHolds lines many offset →
      ¬ few < many := fun hfew hmany hlt => by
    have := length_unlines_take lines (Nat.le_sub_one_of_lt hlt)
    have := hfew.unended
    have := hmany.begun
    omega
  exact Nat.le_antisymm (Nat.not_lt.mp (hnot h' h)) (Nat.not_lt.mp (hnot h h'))

/-- Lines in front of the others move them. -/
theorem behind (h : LineHolds lines number offset) (before : List (List Char)) :
    LineHolds (before ++ lines) (before.length + number) ((unlines before).length + offset) := by
  have hpred : before.length + number - 1 = before.length + (number - 1) :=
    Nat.add_sub_assoc h.pos _
  obtain ⟨hbegun, hunended⟩ := h
  constructor
  · rw [hpred, List.take_length_add_append, unlines_append, List.length_append]
    omega
  · rw [List.take_length_add_append, unlines_append, List.length_append]
    omega

/-- The last line holds the last character. -/
theorem last (h : lines ≠ []) : LineHolds lines lines.length ((unlines lines).length - 1) := by
  have hpos : 0 < (unlines lines).length :=
    List.length_pos_iff.mpr fun hnil => h (unlines_eq_nil hnil)
  constructor
  · have hlast : unlines lines = unlines lines.dropLast ++ lines.getLast h ++ ['\n'] := by
      rw [← unlines_concat, List.dropLast_concat_getLast h]
    rw [← List.dropLast_eq_take, hlast, List.length_append, List.length_append,
      List.length_singleton]
    omega
  · rw [List.take_length]
    omega

end LineHolds

/-- Counting newlines finds the line. -/
theorem lineNumber_unlines {lines : List (List Char)} (hlines : ∀ l ∈ lines, '\n' ∉ l)
    {offset : Nat} (h : offset < (unlines lines).length) :
    LineHolds lines (Text.lineNumber (unlines lines) offset) offset := by
  induction lines generalizing offset with
  | nil => exact absurd h (Nat.not_lt_zero _)
  | cons line rest ih =>
    obtain ⟨hline, hrest⟩ := List.forall_mem_cons.mp hlines
    have hcons : unlines (line :: rest) = line ++ '\n' :: unlines rest := List.append_assoc _ _ _
    have hone : unlines [line] = line ++ ['\n'] := unlines_singleton line
    by_cases hfirst : offset ≤ line.length
    · -- No newline is in front of the offset.
      have hnumber : Text.lineNumber (unlines (line :: rest)) offset = 1 := by
        rw [hcons, Text.lineNumber, List.take_append_of_le_length hfirst,
          List.count_eq_zero_of_not_mem fun hmem => hline (List.mem_of_mem_take hmem)]
      rw [hnumber]
      refine ⟨Nat.zero_le _, ?_⟩
      rw [List.take_succ_cons, List.take_zero, hone, List.length_append]
      exact Nat.lt_succ_of_le hfirst
    · obtain ⟨later, rfl⟩ : ∃ later, offset = later + (line.length + 1) :=
        ⟨offset - (line.length + 1), by omega⟩
      have hlater : later < (unlines rest).length := by
        rw [hcons, List.length_append, List.length_cons] at h
        omega
      have := (ih hrest hlater).behind [line]
      rw [hone, List.length_append, List.length_singleton, List.length_singleton] at this
      rw [hcons, lineNumber_append, List.count_eq_zero_of_not_mem hline, Nat.add_zero,
        Nat.add_comm _ 1, Nat.add_comm later]
      exact this

end Scriptlet
