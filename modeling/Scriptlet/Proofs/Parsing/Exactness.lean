import Scriptlet.Proofs.Lexing.Numerals
import Scriptlet.Proofs.Parsing.Frames
import Scriptlet.Proofs.Parsing.Sequences

/-! Parsing a source is exact.

A source has no diagnostics if its strings are closed and its tokens are a program
of the grammar for which there is room; and then the statements are the tree of
that program. Recovery never stops the parser, so that a malformed source is known
by the diagnostics it leaves and by nothing else: `parse_statements` says the one
direction, `parse_diagnostics_iff` both.

How deep a source may nest is asked for, but the stack is what it is. `parse_exact`
tells up to which limit the stack is enough, and `limits_out_of_reach` that it is not
for every limit. -/
namespace Scriptlet

open Scriptlet.Parser Scriptlet.Cursor

/-! ### Parsing goes on to the end -/

theorem recovering_ok (inBlock : Bool) (p : Parser Stmt) (c : Cursor) :
    ∃ o, (recovering inBlock p c).outcome = .ok o := by
  cases h : (p c).outcome with
  | ok s => exact ⟨some s, by rw [recovering_of_ok h]⟩
  | error d => exact ⟨none, by rw [recovering_of_error h]⟩

theorem bind_outcome_ok {α β : Type} {p : Parser α} {f : α → Parser β} {c : Cursor}
    (hp : ∃ a, (p c).outcome = .ok a) (hf : ∀ a d, ∃ b, (f a d).outcome = .ok b) :
    ∃ b, ((p >>= f) c).outcome = .ok b := by
  obtain ⟨a, ha⟩ := hp
  obtain ⟨b, hb⟩ := hf a (p c).cursor
  exact ⟨b, by rw [bind_ok ha]; exact hb⟩

theorem sequence_ok {inBlock : Bool} {one : Parser (Option Stmt)}
    (h : ∀ c, ∃ o, (one c).outcome = .ok o) (bound : List Token) (c : Cursor) :
    ∃ ss, (sequence inBlock one bound c).outcome = .ok ss := by
  induction bound generalizing c with
  | nil => exact ⟨[], rfl⟩
  | cons _ bound ih =>
    refine bind_outcome_ok ⟨_, rfl⟩ fun rest m => bind_outcome_ok ⟨_, rfl⟩ fun t k => ?_
    split
    · exact ⟨[], rfl⟩
    · exact bind_outcome_ok (h k) fun first l => bind_outcome_ok (ih l) fun more _ => ⟨_, rfl⟩

theorem program_ok (room : Nat) (c : Cursor) : ∃ ss, (program room c).outcome = .ok ss :=
  bind_outcome_ok ⟨_, rfl⟩ fun rest m => sequence_ok (recovering_ok false _) rest m

/-! ### Whole sources -/

/-- The tokens of a source are as parsing expects them. -/
theorem start_proper (source : List Char) : (start (Tokens.scan source)).Proper := by
  have hsplits : Splits 0 source (Tokens.scan source).body := splits_iff.mpr rfl
  exact ⟨⟨rfl, fun t ht => ((hsplits.standsIn [] rfl).1 t ht).kind⟩, hsplits.number⟩

theorem past_start (ts : List Token) (final : Token) :
    ∃ d, (start ⟨ts, final⟩).Past ts d ∧ d.rest = [] ∧ d.final = final := by
  have hrest : ((start ⟨ts, final⟩).forward ts.length).rest = [] := by
    rw [rest_forward]
    exact List.drop_length
  refine ⟨_, ⟨?_, rfl⟩, hrest, by rw [final_forward]; rfl⟩
  rw [hrest, List.append_nil]
  rfl

/-- What is read of a source from its start to its end. -/
theorem program_reads_iff (room : Nat) (source : List Char) (statements : List Stmt) :
    (∃ d, Reads (program room) (start (Tokens.scan source)) statements d) ↔
      ∃ n, Program (Tokens.scan source).body statements n ∧ n ≤ room := by
  have hc := start_proper source
  constructor
  · intro ⟨d, h⟩
    obtain ⟨ts, hts, hprogram, hend⟩ := (recognizes_program room _ _ _ hc).mp h
    have hnil : d.rest = [] := (hc.past hts).rest_eq_nil.mpr (by simpa [EndsSequence] using hend)
    have hbody : (Tokens.scan source).body = ts := by
      rw [← List.append_nil ts, ← hnil]
      exact hts.rest
    rw [hbody]
    exact hprogram
  · intro hprogram
    obtain ⟨d, hpast, hnil, _⟩ := past_start (Tokens.scan source).body
      (Tokens.scan source).final
    have hend := (hc.past hpast).rest_eq_nil.mp hnil
    exact ⟨d, (recognizes_program room _ _ _ hc).mpr ⟨_, hpast, hprogram, .inl hend⟩⟩

/-- A program of the grammar gives its own tree. -/
theorem parse_statements {room n : Nat} {source : List Char} {statements : List Stmt}
    (h : Program (Tokens.scan source).body statements n) (hn : n ≤ room) :
    (parse room source).statements = statements := by
  obtain ⟨d, hr⟩ := (program_reads_iff room source statements).mpr ⟨n, h, hn⟩
  show (program room (start (Tokens.scan source))).outcome.toOption.getD [] = statements
  rw [hr.outcome]
  rfl

/-- The tokens of a source are one program only. -/
theorem program_unique {source : List Char} {statements others : List Stmt} {m n : Nat}
    (h : Program (Tokens.scan source).body statements m)
    (h' : Program (Tokens.scan source).body others n) : statements = others := by
  rw [← parse_statements h (Nat.le_max_left m n), ← parse_statements h' (Nat.le_max_right m n)]

/-- There are no diagnostics where there is a program. -/
theorem parse_diagnostics_iff (room : Nat) (source : List Char) :
    (parse room source).diagnostics = [] ↔
      (Tokens.scan source).unterminated = [] ∧
        ∃ statements n, Program (Tokens.scan source).body statements n ∧ n ≤ room := by
  have hsplit : (parse room source).diagnostics =
      (Tokens.scan source).lexical ++ (program room (start (Tokens.scan source))).noted := rfl
  have hlexical : (Tokens.scan source).lexical = [] ↔ (Tokens.scan source).unterminated = [] :=
    List.map_eq_nil_iff
  rw [hsplit, List.append_eq_nil_iff, hlexical]
  refine and_congr_right fun _ => ⟨fun hnoted => ?_, ?_⟩
  · obtain ⟨statements, hok⟩ := program_ok room (start (Tokens.scan source))
    exact ⟨statements, (program_reads_iff room source statements).mp ⟨_, hok, rfl, hnoted⟩⟩
  · intro ⟨statements, hprogram⟩
    obtain ⟨d, hr⟩ := (program_reads_iff room source statements).mpr hprogram
    exact hr.noted

/-- **Parsing is exact.** A source has no diagnostics if and only if its strings are closed
and its tokens are a program that is nested no deeper than the limit, which is zero if it is
negative; the statements are then those of the program, of which there is one only; and up to a
limit of 55 the stack always has room for the parsing. -/
theorem parse_exact (limit : Int) (source : List Char) :
    ((parse limit.toNat source).diagnostics = [] ↔
      (Tokens.scan source).unterminated = [] ∧ ∃ statements n,
        Program (Tokens.scan source).body statements n ∧ (n : Int) ≤ max limit 0) ∧
    (∀ statements n, Program (Tokens.scan source).body statements n → (n : Int) ≤ max limit 0 →
      (parse limit.toNat source).statements = statements) ∧
    (∀ statements others m n, Program (Tokens.scan source).body statements m →
      Program (Tokens.scan source).body others n → statements = others) ∧
    (limit ≤ 55 → (parse limit.toNat source).fits = true) := by
  have hroom (n : Nat) : (n : Int) ≤ max limit 0 ↔ n ≤ limit.toNat := by omega
  simp only [hroom]
  refine ⟨parse_diagnostics_iff _ source, fun statements n => parse_statements,
    fun statements others m n h h' => ?_, fun h => parse_fits _ (by omega) source⟩
  rw [← parse_statements h (Nat.le_max_left m n), ← parse_statements h' (Nat.le_max_right m n)]

/-! ### Limits out of reach -/

/-- A number in as many parentheses. -/
def nestedGroups (n : Nat) : List Char :=
  List.replicate n '(' ++ '1' :: (List.replicate n ')' ++ [';'])

/-- A hundred groups are a program that is nested no deeper than a limit of a hundred, and
the stack has no room for parsing it. A limit below zero allows what is not nested at all,
although no program is nested less than that. -/
theorem limits_out_of_reach :
    ((Tokens.scan (nestedGroups 100)).unterminated = [] ∧ (∃ statements n,
      Program (Tokens.scan (nestedGroups 100)).body statements n ∧ n ≤ 100) ∧
      (parse 100 (nestedGroups 100)).fits = false) ∧
    ((parse (-1 : Int).toNat "1;".toList).diagnostics = [] ∧
      ¬ ∃ statements n, Program (Tokens.scan "1;".toList).body statements n ∧ (n : Int) ≤ -1) := by
  have hgroups : (parse 100 (nestedGroups 100)).diagnostics = [] := by decide +kernel
  obtain ⟨hclosed, hprogram⟩ := (parse_diagnostics_iff 100 (nestedGroups 100)).mp hgroups
  refine ⟨⟨hclosed, hprogram, by decide +kernel⟩, by decide +kernel, ?_⟩
  intro ⟨statements, n, _, hn⟩
  omega

end Scriptlet
