import Mathlib.Data.List.Induction
import Scriptlet.Proofs.Lexing.Exactness
import Scriptlet.Proofs.Locality.Spacing
import Scriptlet.Proofs.Reporting.Lines
import Scriptlet.Report.Notice

/-! What an excerpt shows.

The number of a line is a count of newlines, and the line that an excerpt shows is what
stands around an offset up to the nearest newlines. Both are found by cutting the text
at that offset into whole lines, the part of its line before the offset and the part
behind it (`Text.Around`). So the line that is shown is the one that has the number, and the
underline covers the part of the token that is on it (`excerpts_point`). -/
namespace Scriptlet

/-! ### Around an offset -/

namespace Text

/-- The whole lines in front of an offset, and the parts of its line before and behind it. -/
structure Around (text : List Char) (offset : Nat) (front : List (List Char))
    (left right : List Char) : Prop where
  whole : ∀ l ∈ front, '\n' ∉ l
  clear : '\n' ∉ left ++ right
  offset : offset = (unlines front ++ left).length
  text : ∃ rest, text = unlines front ++ left ++ (right ++ rest) ∧ ∀ c ∈ rest.head?, c = '\n'

/-- A text is whole lines and an unfinished one. -/
theorem exists_unlines_append (text : List Char) :
    ∃ front left, text = unlines front ++ left ∧ (∀ l ∈ front, '\n' ∉ l) ∧ '\n' ∉ left := by
  induction text using List.reverseRecOn with
  | nil => exact ⟨[], [], rfl, nofun, nofun⟩
  | append_singleton text c ih =>
    obtain ⟨front, left, rfl, hfront, hleft⟩ := ih
    by_cases hc : c = '\n'
    · subst hc
      refine ⟨front ++ [left], [], ?_, ?_, nofun⟩
      · rw [unlines_concat, List.append_nil]
      · exact fun l hl => (List.mem_append.mp hl).elim (hfront l) fun hlast =>
          List.mem_singleton.mp hlast ▸ hleft
    · refine ⟨front, left ++ [c], List.append_assoc .., hfront, fun hmem => ?_⟩
      exact (List.mem_append.mp hmem).elim hleft fun hlast =>
        hc (List.mem_singleton.mp hlast).symm

theorem exists_around {text : List Char} {offset : Nat} (h : offset ≤ text.length) :
    ∃ front left right, Around text offset front left right := by
  obtain ⟨front, left, htake, hfront, hleft⟩ := exists_unlines_append (text.take offset)
  have hright : '\n' ∉ (text.drop offset).takeWhile (· ≠ '\n') := fun hmem => by
    simpa using List.mem_takeWhile_imp hmem
  refine ⟨front, left, (text.drop offset).takeWhile (· ≠ '\n'), hfront,
    fun hmem => (List.mem_append.mp hmem).elim hleft hright, ?_,
    (text.drop offset).dropWhile (· ≠ '\n'), ?_, fun c hc => ?_⟩
  · rw [← htake, List.length_take, Nat.min_eq_left h]
  · rw [← htake, List.takeWhile_append_dropWhile, List.take_append_drop]
  · have hstop := List.head?_dropWhile_not (· ≠ '\n') (text.drop offset)
    rw [Option.mem_def.mp hc] at hstop
    simpa using hstop

theorem count_unlines {front : List (List Char)} (h : ∀ l ∈ front, '\n' ∉ l) :
    (unlines front).count '\n' = front.length := by
  induction front with
  | nil => rfl
  | cons l front ih =>
    obtain ⟨hl, hfront⟩ := List.forall_mem_cons.mp h
    rw [← List.singleton_append, unlines_append, unlines_singleton, List.count_append,
      List.count_append, List.count_eq_zero_of_not_mem hl, ih hfront, List.count_singleton_self,
      List.length_append]
    rfl

theorem splitOn_unlines {front : List (List Char)} (h : ∀ l ∈ front, '\n' ∉ l)
    (rest : List Char) : (unlines front ++ rest).splitOn '\n' = front ++ rest.splitOn '\n' := by
  induction front with
  | nil => rfl
  | cons l front ih =>
    obtain ⟨hl, hfront⟩ := List.forall_mem_cons.mp h
    rw [← List.singleton_append, unlines_append, unlines_singleton, List.append_assoc,
      List.append_assoc, List.singleton_append, List.splitOn_append_cons_self_of_not_mem hl,
      ih hfront]
    rfl

/-- The offset at which the line with the number, from one, begins. -/
def lineOffset (text : List Char) (number : Nat) : Nat :=
  (unlines ((text.splitOn '\n').take (number - 1))).length

namespace Around

variable {text : List Char} {offset : Nat} {front : List (List Char)} {left right : List Char}

theorem splitOn (h : Around text offset front left right) :
    ∃ behind, text.splitOn '\n' = front ++ (left ++ right) :: behind := by
  obtain ⟨rest, rfl, hrest⟩ := h.text
  rw [List.append_assoc, ← List.append_assoc left, splitOn_unlines h.whole]
  cases rest with
  | nil =>
    rw [List.append_nil, List.splitOn_eq_singleton h.clear]
    exact ⟨[], rfl⟩
  | cons c rest =>
    obtain rfl := hrest c rfl
    rw [List.splitOn_append_cons_self_of_not_mem h.clear]
    exact ⟨rest.splitOn '\n', rfl⟩

theorem take (h : Around text offset front left right) :
    text.take offset = unlines front ++ left := by
  obtain ⟨rest, rfl, -⟩ := h.text
  rw [h.offset, List.take_left]

theorem lineNumber (h : Around text offset front left right) :
    lineNumber text offset = front.length + 1 := by
  have hleft : '\n' ∉ left := fun hmem => h.clear (List.mem_append_left _ hmem)
  rw [Text.lineNumber, h.take, List.count_append, count_unlines h.whole,
    List.count_eq_zero_of_not_mem hleft]

/-- The line is the one that has the number. -/
theorem getElem? (h : Around text offset front left right) :
    (text.splitOn '\n')[Text.lineNumber text offset - 1]? = some (left ++ right) := by
  obtain ⟨behind, hsplit⟩ := h.splitOn
  rw [hsplit, h.lineNumber, Nat.add_sub_cancel, List.getElem?_append_right (Nat.le_refl _),
    Nat.sub_self]
  rfl

theorem lineOffset (h : Around text offset front left right) :
    lineOffset text (Text.lineNumber text offset) = (unlines front).length := by
  obtain ⟨behind, hsplit⟩ := h.splitOn
  rw [Text.lineOffset, hsplit, h.lineNumber, Nat.add_sub_cancel, List.take_left]

theorem takeWhile_clear {line rest : List Char} (h : '\n' ∉ line)
    (hrest : ∀ c ∈ rest.head?, c = '\n') : (line ++ rest).takeWhile (· ≠ '\n') = line := by
  have hall : ∀ c ∈ line, decide (c ≠ '\n') = true := fun c hc => by
    rw [decide_eq_true_iff]
    rintro rfl
    exact h hc
  rw [List.takeWhile_append_of_pos hall]
  cases rest with
  | nil => exact List.append_nil line
  | cons c rest =>
    obtain rfl := hrest c rfl
    exact List.append_nil line

/-- The nearest newline in front of the offset ends the line before. -/
theorem lineStart (h : Around text offset front left right) :
    lineStart text offset = (unlines front).length := by
  have hleft : '\n' ∉ left.reverse := fun hmem =>
    h.clear (List.mem_append_left _ (List.mem_reverse.mp hmem))
  have hfront : ∀ c ∈ (unlines front).reverse.head?, c = '\n' := by
    rcases List.eq_nil_or_concat' front with rfl | ⟨init, last, rfl⟩
    · nofun
    · rw [unlines_concat, List.reverse_append]
      exact fun c hc => (Option.some.inj hc).symm
  rw [Text.lineStart, h.take, List.reverse_append, takeWhile_clear hleft hfront,
    List.length_reverse, List.length_append, Nat.add_sub_cancel]

theorem lineEnd (h : Around text offset front left right) :
    lineEnd text offset = (unlines front).length + (left ++ right).length := by
  have hright : '\n' ∉ right := fun hmem => h.clear (List.mem_append_right _ hmem)
  obtain ⟨rest, rfl, hrest⟩ := h.text
  rw [Text.lineEnd, h.offset, List.drop_left, takeWhile_clear hright hrest, Nat.min_eq_left,
    List.length_append, List.length_append, Nat.add_assoc]
  exact (List.sublist_append_left _ _).length_le

theorem slice (h : Around text offset front left right) :
    slice text (Text.lineStart text offset) (Text.lineEnd text offset) = left ++ right := by
  rw [h.lineStart, h.lineEnd, Text.slice]
  obtain ⟨rest, rfl, -⟩ := h.text
  rw [List.append_assoc, ← List.append_assoc left, List.take_length_add_append, List.drop_left,
    List.take_left]

end Around

/-- A line in three parts. -/
theorem take_slice_drop (line : List Char) {start stop : Nat} (h : start ≤ stop) :
    line.take start ++ (Text.slice line start stop ++ line.drop stop) = line := by
  have hfirst : line.take start = (line.take stop).take start := by
    rw [List.take_take, Nat.min_eq_left h]
  rw [Text.slice, hfirst, ← List.append_assoc, List.take_append_drop, List.take_append_drop]

end Text

/-! ### The underline -/

/-- The line, the column and the width with which an excerpt points at a token. -/
structure Points (source : List Char) (t : Token) (line : List Char) (column width : Nat) :
    Prop where
  numbered : (source.splitOn '\n')[Text.lineNumber source t.start - 1]? = some line
  begins : Text.lineOffset source (Text.lineNumber source t.start) + column = t.start
  inside : column ≤ line.length
  visible : 0 < width
  /-- It covers what the token has of the line. -/
  covers : column < line.length → ∀ k, column ≤ k ∧ k < column + width ↔
    k < line.length ∧ t.start ≤ Text.lineOffset source (Text.lineNumber source t.start) + k ∧
      Text.lineOffset source (Text.lineNumber source t.start) + k ≤ t.stop
  /-- At the end of the line it covers one column. -/
  single : column = line.length → width = 1

/-- A line, and below it a caret and tildes. -/
def pointing (line : List Char) (column width : Nat) : String :=
  "  " ++ String.ofList line ++ "\n" ++
    "  " ++ String.ofList (List.replicate column ' ') ++ "^" ++
      String.ofList (List.replicate (width - 1) '~')

/-- The parts of an excerpt are a line and an underline. -/
theorem pointing_of_parts (line : List Char) {start stop : Nat} (h : start ≤ stop) :
    String.ofList (Place.indent ++ line.take start) ++ String.ofList (Text.slice line start stop) ++
        String.ofList (line.drop stop) ++ "\n" ++
        String.ofList (Place.indent ++ List.replicate start ' ') ++
        String.ofList ('^' :: List.replicate (stop - start - 1) '~') =
      pointing line start (stop - start) := by
  have hparts := Text.take_slice_drop line h
  refine String.toList_injective ?_
  simp only [pointing, String.toList_append, String.toList_ofList]
  conv_rhs => rw [← hparts]
  simp only [List.append_assoc]
  rfl

theorem excerpt_points [Text.Painter] {source : List Char} {t : Token}
    (hstart : t.start ≤ source.length) (hordered : t.start ≤ t.stop) :
    ∃ line column width, Points source t line column width ∧
      Place.excerpt false ⟨t, source⟩ = pointing line column width := by
  obtain ⟨front, left, right, h⟩ := Text.exists_around hstart
  have hoffset := h.offset
  rw [List.length_append] at hoffset
  have hlength : (left ++ right).length = left.length + right.length := List.length_append
  have hcolumn : t.start - Text.lineStart source t.start = left.length := by
    rw [h.lineStart]
    omega
  obtain ⟨stop, hstop⟩ : ∃ stop, stop = max (min (t.stop + 1) (Text.lineEnd source t.start) -
    Text.lineStart source t.start) (left.length + 1) := ⟨_, rfl⟩
  have hshown : Place.excerpt false ⟨t, source⟩ =
      pointing (left ++ right) left.length (stop - left.length) := by
    simp only [Place.excerpt, hcolumn, h.slice, ← hstop]
    exact pointing_of_parts (left ++ right) (by omega)
  rw [h.lineStart, h.lineEnd] at hstop
  refine ⟨left ++ right, left.length, stop - left.length,
    ⟨h.getElem?, ?_, by omega, by omega, fun hlt k => ?_, fun heq => by omega⟩, hshown⟩
  · rw [h.lineOffset]
    omega
  · rw [h.lineOffset]
    omega

/-- A token stands in its source, and the end marker at the last character. -/
theorem token_within {source : List Char} {t : Token} (ht : t ∈ (Tokens.scan source).toList) :
    t.start ≤ source.length ∧ t.start ≤ t.stop := by
  obtain ⟨-, hstands, -, hall⟩ := scan_exact source
  rw [hall] at ht
  rcases List.mem_append.mp ht with hbody | hfinal
  · have ht := hstands t hbody
    exact ⟨Nat.le_of_lt (Nat.lt_of_le_of_lt ht.ordered ht.inside), ht.ordered⟩
  · rw [List.mem_singleton.mp hfinal]
    exact ⟨Nat.sub_le _ _, Nat.le_refl _⟩

/-- **Excerpts point at the token.** The excerpt for a diagnostic is the line that has the number
of the diagnostic, with a caret and tildes under what the token has of it. Under the end of a line
there is the caret alone. -/
theorem excerpts_point [Text.Painter] (limit : Int) (source : List Char) :
    ∀ d ∈ (parse limit.toNat source).diagnostics, ∃ line column width,
      Points source d.token line column width ∧
        Place.excerpt false ⟨d.token, source⟩ = pointing line column width := by
  intro d hd
  obtain ⟨hstart, hordered⟩ := token_within (diagnostics_mem limit.toNat source d hd)
  exact excerpt_points hstart hordered

/-- A string that goes on behind its line. -/
theorem excerpts_point_string :
    ∃ line column width,
      Points "x;\n  \"a\nb".toList ⟨.string, 5, 8, "\"a\nb"⟩ line column width ∧
        pointing line column width = "    \"a\n    ^~" := by
  obtain ⟨line, column, width, hpoints, hexcerpt⟩ := excerpts_point 41 "x;\n  \"a\nb".toList
    ⟨.unterminatedString, ⟨.string, 5, 8, "\"a\nb"⟩⟩ (by decide +kernel)
  exact ⟨line, column, width, hpoints, hexcerpt.symm.trans (by decide +kernel)⟩

end Scriptlet
