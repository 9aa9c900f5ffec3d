import Scriptlet.Proofs.Nesting.Bounds
import Scriptlet.Proofs.Progress.Charges
import Scriptlet.Proofs.Progress.Loops

/-! Parsing ends, with few diagnostics.

Every declaration passes a token, so no loop goes on for ever. What a declaration
notes that stopped one is its own or that of a declaration in it, and it has one of
its own at most; together there are no more diagnostics than tokens. -/
namespace Scriptlet

open Scriptlet.Parser Scriptlet.Cursor

namespace Counting

/-- A declaration that comes to its end adds what stopped it, if anything did, to what has been
recorded before. -/
theorem recovering_records {q : Counting Stmt} {frames : Nat} {s : Progress} {o : Option Stmt}
    (h : (recovering q frames s).1 = .ok o) :
    ∃ stop : Option Diagnostic,
      (recovering q frames s).2.noted = (q frames s).2.noted ++ stop.toList ∧
      (recovering q frames s).2.ended = (q frames s).2.ended ++ [stop] := by
  cases hq : (q frames s).1 with
  | ok stmt =>
    rw [recovering_ok hq]
    exact ⟨none, (List.append_nil _).symm, rfl⟩
  | error stop =>
    cases stop with
    | fault d =>
      rw [recovering_fault hq]
      exact ⟨some d, rfl, rfl⟩
    | overflow =>
      rw [recovering_overflow hq] at h
      cases h

/-- The diagnostics of a program that stopped a declaration are those of the declarations that
ended, in the same order. -/
theorem raised_program (limit : Int) {frames : Nat} {ts : Tokens}
    (h : (parseTokens limit.toNat ts).frames ≤ frames) :
    raised (parseTokens limit.toNat ts).diagnostics =
      (program limit frames (.start ts)).2.ended.filterMap id := by
  have run := mirrors_program limit frames (.start ts) rfl
  obtain ⟨noted, ended, hnoted, hended, hraised⟩ := run.keeps.recorded
  rw [← (program_counted limit frames ts).2 h, hnoted, hended]
  exact hraised

end Counting

/-- **Parsing goes forward and ends**, for all tokens and limits. A declaration passes a token
wherever there is one and never the end marker, at every depth, so that every loop ends and a
program always has statements. A declaration adds one diagnostic at most to those that were
recorded by the ones in it and to those of targets, and all diagnostics together are no more than
the tokens in front of the end marker. -/
theorem parsing_progresses (limit : Int) (ts : Tokens) (h : (start ts).Delimited) :
    (∀ room inBlock (c : Cursor), c.Delimited → c.rest ≠ [] → ∃ us, us ≠ [] ∧
      c.Past us
        (recovering inBlock (declarationWith (expression room) (body room)) c).cursor ∧
      (recovering inBlock (declarationWith (expression room) (body room)) c).cursor.Delimited) ∧
    (∀ room (c : Cursor), c.Delimited → LoopsEnd room c) ∧
    (∃ ss, (program limit.toNat (start ts)).outcome = .ok ss) ∧
    (∀ frames s o, (Counting.declaration limit (limit.toNat - s.depth) frames s).1 = .ok o →
      Counting.Keeps limit s (Counting.attempt limit (limit.toNat - s.depth) frames s).2 ∧
      ∃ stop : Option Diagnostic,
        (Counting.declaration limit (limit.toNat - s.depth) frames s).2.noted =
          (Counting.attempt limit (limit.toNat - s.depth) frames s).2.noted ++ stop.toList ∧
        (Counting.declaration limit (limit.toNat - s.depth) frames s).2.ended =
          (Counting.attempt limit (limit.toNat - s.depth) frames s).2.ended ++ [stop]) ∧
    (∀ frames, (parseTokens limit.toNat ts).frames ≤ frames →
      Counting.raised (parseTokens limit.toNat ts).diagnostics =
        (Counting.program limit frames (.start ts)).2.ended.filterMap id) ∧
    (parseTokens limit.toNat ts).diagnostics.length ≤ ts.body.length := by
  refine ⟨fun room inBlock c hc hrest => ?_, fun room c hc => loops_end room hc, program_ok _ _,
    fun frames s o ho => ?_, fun frames => Counting.raised_program limit, ?_⟩
  · obtain ⟨us, hne, hus, -⟩ := recovering_charged (charges_declaration_room room)
      (declaration_facts room).2 hc hrest inBlock
    exact ⟨us, hne, hus, hc.past hus⟩
  · exact ⟨(Counting.mirrors_attempt limit s.depth frames s rfl).keeps,
      Counting.recovering_records ho⟩
  · obtain ⟨us, hus, hnoted⟩ := charges_program limit.toNat (start ts) h
    have hlen : ts.body.length = us.length + _ := hus.length
    exact Nat.le_trans hnoted (Nat.le_trans (Nat.sub_le _ _) (by omega))

/-- A statement that is not supported is blamed twice as a branch, which has tokens enough. -/
theorem parsing_progresses_unsupported :
    (parseTokens (41 : Int).toNat (Tokens.scan "if (a) return;".toList)).diagnostics.length = 2 ∧
      (parseTokens (41 : Int).toNat (Tokens.scan "if (a) return;".toList)).diagnostics.length ≤
        (Tokens.scan "if (a) return;".toList).body.length := by
  have hprogress := parsing_progresses 41 (Tokens.scan "if (a) return;".toList)
    (start_proper _).toDelimited
  exact ⟨by decide +kernel, hprogress.2.2.2.2.2⟩

end Scriptlet
