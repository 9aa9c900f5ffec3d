import Mathlib.Data.List.Infix
import Scriptlet.Proofs.Console.Conversations
import Scriptlet.Proofs.Console.Sessions
import Scriptlet.Proofs.Locality.Braces

/-! What a prompt waits for.

A prompt that holds lines back waits for braces to be closed, and a program that is
well formed has closed them all. So what the prompt waits on is no such program yet,
and lines that make one up together are not held back. It is the prompt that decides
which lines belong together: it runs lines that leave no brace open, even if they leave
a string open. A program that is typed in line by line is therefore done with at its
last line if no string of it is cut where lines are run (`not_held_of_clean`), and
`cut_string_held` is a program with a string that is cut. -/
namespace Scriptlet

/-! ### Programs in lines -/

/-- The lines of a source; its last line may lack the newline. -/
def LinesOf (source : List Char) (lines : List (List Char)) : Prop :=
  unlines lines = source ∨ unlines lines = source ++ ['\n']

/-- Lines of a source that is well formed have braces that are balanced. -/
theorem LinesOf.balanced {source : List Char} {lines : List (List Char)} {room : Nat}
    (h : LinesOf source lines) (hclean : (parse room source).diagnostics = []) :
    Balanced (Tokens.scan (unlines lines)).body := by
  have hsource := balanced_of_clean hclean
  rcases h with h | h
  · rwa [h]
  · obtain ⟨hclosed, -⟩ := (parse_diagnostics_iff room source).mp hclean
    rw [h, scan_append hclosed]
    exact hsource.append .nil

theorem exists_unlines {lines : List (List Char)} (h : lines ≠ []) :
    ∃ text, unlines lines = text ++ ['\n'] := by
  refine ⟨unlines lines.dropLast ++ lines.getLast h, ?_⟩
  rw [← unlines_concat, List.dropLast_concat_getLast h]

/-- The tokens of lines that leave no string open, with other lines behind them. -/
theorem scan_unlines {front : List (List Char)}
    (h : (Tokens.scan (unlines front)).unterminated = []) (back : List (List Char)) :
    ∃ move, Relocates move ∧ (Tokens.scan (unlines (front ++ back))).body =
      (Tokens.scan (unlines front)).body ++ (Tokens.scan (unlines back)).body.map move := by
  rw [unlines_append]
  by_cases hfront : front = []
  · subst hfront
    exact ⟨id, relocates_id, (List.map_id _).symm⟩
  · obtain ⟨text, htext⟩ := exists_unlines hfront
    rw [htext] at h ⊢
    have hclosed := unterminated_of_newline h
    have halone := scan_append hclosed []
    refine ⟨Token.shift (text.length + 1), shift_relocates _, ?_⟩
    rw [List.append_assoc, List.singleton_append, scan_append hclosed, halone]
    exact congrArg (· ++ _) (List.append_nil _).symm

/-- Behind lines that leave no string open, no lines of a program that is well formed leave a
brace open. -/
theorem openBraces_back {front back : List (List Char)}
    (hclosed : (Tokens.scan (unlines front)).unterminated = [])
    (h : Balanced (Tokens.scan (unlines (front ++ back))).body) : openBraces back ≤ 0 := by
  obtain ⟨move, hm, hscan⟩ := scan_unlines hclosed back
  have hall := h.netBraces_eq_zero
  rw [hscan, netBraces_append, netBraces_relocate hm] at hall
  have hfront : 0 ≤ netBraces (Tokens.scan (unlines front)).body :=
    h.netBraces_nonneg (hscan ▸ List.prefix_append _ _)
  show netBraces (Tokens.scan (unlines back)).body ≤ 0
  omega

/-! ### Prompts -/

/-- Whenever what was asked so far leaves nothing to hold back, the lines of source leave no
string open. -/
def Prompt.CutsNoString [Text.Painter] (p : Prompt) (rs : List Request) : Prop :=
  ∀ front back, rs = front ++ back → (p.conduct front).chunking.pending = [] →
    (Tokens.scan (unlines (front.filterMap Request.line?))).unterminated = []

/-- A line that makes up a program with what is held back is not held back. -/
theorem Chunking.take_of_clean {room : Nat} {c : Chunking} {line : List Char}
    (h : (parse room (c.pending ++ line ++ ['\n'])).diagnostics = []) :
    ∃ first, c.take line =
      (some ⟨c.pending ++ line ++ ['\n'], first⟩, ⟨[], first, c.lines + 1⟩) := by
  have hnone : ¬ 0 < (Tokens.scan (c.pending ++ line ++ ['\n'])).openBraces := by
    rw [openBraces_eq, (balanced_of_clean h).netBraces_eq_zero]
    exact Int.lt_irrefl 0
  refine ⟨if c.pending.isEmpty then c.lines + 1 else c.first, ?_⟩
  simp only [Chunking.take, if_neg hnone]

/-- A program that is typed in, no string of which is cut, leaves nothing to hold back. -/
theorem Prompt.pending_of_clean [Text.Painter] {room : Nat} {source : List Char} {p : Prompt}
    {rs : List Request} (hp : p.chunking.pending = []) (hcut : p.CutsNoString rs)
    (hlines : LinesOf source (rs.filterMap Request.line?))
    (hclean : (parse room source).diagnostics = []) : (p.conduct rs).chunking.pending = [] := by
  obtain ⟨front, back, rfl, hfront, hback⟩ := cut_behind_chunks hp rs
  have hholds : (p.conduct front).HoldsAll back _ := holdsAll_conduct hfront hback
  have hbalanced := hlines.balanced hclean
  rw [List.filterMap_append] at hbalanced
  have hnone := openBraces_back (hcut front back rfl hfront) hbalanced
  rw [conduct_append, hholds.pending]
  by_cases hempty : back.filterMap Request.line? = []
  · rw [hempty]
    rfl
  · have hopen := hholds.held _ List.prefix_rfl hempty
    omega

/-- **What a prompt waits on is no program yet.** In a source that is well formed no part, from
the front on, closes more braces than it opens, and the whole closes as many as it opens. So a
source that leaves a brace open is not well formed; a line that makes up a program that is well
formed with the lines held back is run with them; and a prompt that holds nothing back does not
hold anything back at the last line of such a program either, unless a string of the program is
cut where lines are run. -/
theorem not_held_of_clean [Text.Painter] (limit : Int) :
    (∀ source, (parse limit.toNat source).diagnostics = [] →
      (∀ front, front <+: (Tokens.scan source).toList →
        front.countP (·.kind == .rightBrace) ≤ front.countP (·.kind == .leftBrace)) ∧
      (Tokens.scan source).openBraces = 0) ∧
    (∀ source, 0 < (Tokens.scan source).openBraces →
      (parse limit.toNat source).diagnostics ≠ []) ∧
    (∀ (c : Chunking) (line : List Char),
      (parse limit.toNat (c.pending ++ line ++ ['\n'])).diagnostics = [] →
      ∃ first, c.take line =
        (some ⟨c.pending ++ line ++ ['\n'], first⟩, ⟨[], first, c.lines + 1⟩)) ∧
    (∀ (p : Prompt) (rs : List Request) (source : List Char), p.chunking.pending = [] →
      p.CutsNoString rs → LinesOf source (rs.filterMap Request.line?) →
      (parse limit.toNat source).diagnostics = [] →
      (p.conduct rs).chunking.pending = [] ∧ (p.InStep → (p.conduct rs).text = "> ")) := by
  refine ⟨fun source h => ⟨fun front hfront => ?_, ?_⟩, fun source hopen h => ?_,
    fun c line => Chunking.take_of_clean, fun p rs source hp hcut hlines h => ?_⟩
  · have hfinal : (Tokens.scan source).final.kind = .eof := rfl
    have hbalanced : Balanced (Tokens.scan source).toList :=
      (balanced_of_clean h).append (balanced_token hfinal (by decide) (by decide) .nil)
    have := hbalanced.netBraces_nonneg hfront
    simp only [netBraces] at this
    omega
  · exact (balanced_of_clean h).netBraces_eq_zero
  · have := (balanced_of_clean h).netBraces_eq_zero
    rw [openBraces_eq] at hopen
    omega
  · have hpending := Prompt.pending_of_clean hp hcut hlines h
    exact ⟨hpending, fun hstep => (hstep.conduct rs).text_iff.2.mpr hpending⟩

/-- A block that is typed in on three lines, with a brace in a string and one in a comment. -/
theorem not_held_of_clean_block :
    LinesOf "if (true) \x7b // \x7b\nprint \"\x7d\";\n\x7d".toList
      ["if (true) \x7b // \x7b".toList, "print \"\x7d\";".toList, "\x7d".toList] ∧
    (parse (41 : Int).toNat
      "if (true) \x7b // \x7b\nprint \"\x7d\";\n\x7d".toList).diagnostics = [] ∧
    ((Prompt.start (Session.opened 41)).conduct
      [.source "if (true) \x7b // \x7b".toList, .source "print \"\x7d\";".toList]).text = ". " ∧
    ((Prompt.start (Session.opened 41)).conduct
      [.source "if (true) \x7b // \x7b".toList, .source "print \"\x7d\";".toList,
        .source "\x7d".toList]).text = "> " := by
  have hlines : LinesOf "if (true) \x7b // \x7b\nprint \"\x7d\";\n\x7d".toList
      ["if (true) \x7b // \x7b".toList, "print \"\x7d\";".toList, "\x7d".toList] :=
    .inr (by decide +kernel)
  have hclean : (parse (41 : Int).toNat
      "if (true) \x7b // \x7b\nprint \"\x7d\";\n\x7d".toList).diagnostics = [] := by
    decide +kernel
  have hcut : (Prompt.start (Session.opened 41)).CutsNoString
      [.source "if (true) \x7b // \x7b".toList, .source "print \"\x7d\";".toList,
        .source "\x7d".toList] := by
    have hall : ∀ front ∈ List.inits [.source "if (true) \x7b // \x7b".toList,
        .source "print \"\x7d\";".toList, .source "\x7d".toList],
        ((Prompt.start (Session.opened 41)).conduct front).chunking.pending = [] →
        (Tokens.scan (unlines (front.filterMap Request.line?))).unterminated = [] := by
      decide +kernel
    exact fun front back hrs => hall front ((List.mem_inits _ _).mpr ⟨back, hrs.symm⟩)
  obtain ⟨-, -, -, hprompt⟩ := not_held_of_clean 41
  exact ⟨hlines, hclean, by decide +kernel,
    (hprompt _ _ _ rfl hcut hlines hclean).2 (Prompt.inStep_start _)⟩

/-- A program of two lines with a string that goes on behind the first line. The first line leaves
no brace open, so that it is run by itself; by itself, the second leaves one open. -/
theorem cut_string_held :
    (parse (41 : Int).toNat "print \"\n\x7b\";".toList).diagnostics = [] ∧
    (Tokens.scan "print \"\n\x7b\";".toList).openBraces = 0 ∧
    LinesOf "print \"\n\x7b\";".toList ["print \"".toList, "\x7b\";".toList] ∧
    (Prompt.start (Session.opened 41)).chunking.pending = [] ∧
    ((Prompt.start (Session.opened 41)).conduct
      [.source "print \"".toList, .source "\x7b\";".toList]).text = ". " := by
  refine ⟨by decide +kernel, by decide +kernel, .inr ?_, rfl, ?_⟩ <;> decide +kernel

end Scriptlet
