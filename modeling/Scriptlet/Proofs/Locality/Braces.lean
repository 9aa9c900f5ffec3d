import Scriptlet.Proofs.Limits.Losses
import Scriptlet.Proofs.Locality.Chunks

/-! Braces that are left open.

How many braces tokens leave open is counted over all of them at once. A sentence
closes what it opens, and closes nothing before it is opened: no part of it, from
the front on, closes more than it opens (`Balanced.netBraces_nonneg`). A source that
is well formed is made up of sentences, and so it leaves no brace open. The count adds
up over two sources with a newline between them (`openBraces_append`), since the tokens
of both are the tokens of the one and those of the other. -/
namespace Scriptlet

/-! ### Counting -/

/-- How many braces the tokens open more than they close; below zero, if they close more. -/
def netBraces (ts : List Token) : Int :=
  (ts.countP (·.kind == .leftBrace) : Int) - ts.countP (·.kind == .rightBrace)

theorem openBraces_eq (ts : Tokens) : ts.openBraces = netBraces ts.body := rfl

theorem netBraces_append (ts us : List Token) :
    netBraces (ts ++ us) = netBraces ts + netBraces us := by
  simp only [netBraces, List.countP_append]
  omega

theorem netBraces_opening {t : Token} (h : t.kind = .leftBrace) (ts : List Token) :
    netBraces (t :: ts) = netBraces ts + 1 := by
  simp only [netBraces, List.countP_cons, h, beq_self_eq_true, if_true, reduceCtorEq, beq_iff_eq,
    if_false]
  omega

theorem netBraces_closing {t : Token} (h : t.kind = .rightBrace) (ts : List Token) :
    netBraces (t :: ts) = netBraces ts - 1 := by
  simp only [netBraces, List.countP_cons, h, beq_self_eq_true, if_true, reduceCtorEq, beq_iff_eq,
    if_false]
  omega

theorem netBraces_other {t : Token} (hopen : t.kind ≠ .leftBrace) (hclose : t.kind ≠ .rightBrace)
    (ts : List Token) : netBraces (t :: ts) = netBraces ts := by
  simp only [netBraces, List.countP_cons, hopen, hclose, beq_iff_eq, if_false, Nat.add_zero]

/-- Where the tokens stand does not matter. -/
theorem netBraces_relocate {move : Token → Token} (hm : Relocates move) (ts : List Token) :
    netBraces (ts.map move) = netBraces ts := by
  simp only [netBraces, List.countP_map, Function.comp_def, hm.kind]

/-! ### Sentences -/

theorem prefix_append_cases {ts us front : List Token} (h : front <+: ts ++ us) :
    front <+: ts ∨ ∃ more, more <+: us ∧ front = ts ++ more := by
  rcases List.prefix_or_prefix_of_prefix h (List.prefix_append ts us) with hfront | ⟨more, rfl⟩
  · exact .inl hfront
  · exact .inr ⟨more, (List.prefix_append_right_inj ts).mp h, rfl⟩

/-- Tokens in which braces are balanced close as many as they open. -/
theorem Balanced.netBraces_eq_zero {ts : List Token} (h : Balanced ts) : netBraces ts = 0 := by
  induction h with
  | nil => rfl
  | token hopen hclose _ ih => rw [netBraces_other hopen hclose, ih]
  | block hopen _ hclose _ ih ih' =>
    rw [netBraces_opening hopen, netBraces_append, netBraces_closing hclose, ih, ih']
    rfl

/-- However many of them are read, they have not closed more than they have opened. -/
theorem Balanced.netBraces_nonneg {ts front : List Token} (h : Balanced ts)
    (hfront : front <+: ts) : 0 ≤ netBraces front := by
  induction h generalizing front with
  | nil =>
    rw [List.prefix_nil.mp hfront]
    exact Int.le_refl 0
  | token hopen hclose _ ih =>
    rcases List.prefix_cons_iff.mp hfront with rfl | ⟨more, rfl, hmore⟩
    · exact Int.le_refl 0
    · rw [netBraces_other hopen hclose]
      exact ih hmore
  | block hopen hus hclose _ ih ih' =>
    rcases List.prefix_cons_iff.mp hfront with rfl | ⟨more, rfl, hmore⟩
    · exact Int.le_refl 0
    rw [netBraces_opening hopen]
    -- What is read ends inside the block, or the closing brace is read too.
    rcases prefix_append_cases hmore with hinside | ⟨behind, hbehind, rfl⟩
    · have := ih hinside
      omega
    · rw [netBraces_append, hus.netBraces_eq_zero]
      rcases List.prefix_cons_iff.mp hbehind with rfl | ⟨rest, rfl, hrest⟩
      · decide
      · have := ih' hrest
        rw [netBraces_closing hclose]
        omega

/-- A source that is well formed closes every brace that it opens, and no other. -/
theorem balanced_of_clean {room : Nat} {source : List Char}
    (h : (parse room source).diagnostics = []) : Balanced (Tokens.scan source).body := by
  obtain ⟨-, -, -, ⟨parts, hparts, htokens, -, -⟩, -⟩ := (parse_diagnostics_iff room source).mp h
  rw [htokens]
  exact balanced_parts fun p hp => (hparts p hp).balanced

/-! ### Two sources -/

/-- Of two sources with a newline between them, the one leaves open what it does, and so does the
other. -/
theorem openBraces_append {a : List Char} (h : (Tokens.scan a).unterminated = [])
    (b : List Char) :
    (Tokens.scan (a ++ '\n' :: b)).openBraces =
      (Tokens.scan a).openBraces + (Tokens.scan b).openBraces := by
  simp only [openBraces_eq]
  rw [scan_append h b, netBraces_append, netBraces_relocate (shift_relocates _)]

/-- **Scanning goes on anew behind a newline.** If the first of two sources leaves no string open,
the tokens of both with a newline between them are those of the first and those of the second,
further behind by the length of the first and the newline; the strings without an end are those
of the second, as much further behind; and the braces that are left open add up. -/
theorem scan_compositional {a : List Char} (h : (Tokens.scan a).unterminated = [])
    (b : List Char) :
    (Tokens.scan (a ++ '\n' :: b)).body =
      (Tokens.scan a).body ++ (Tokens.scan b).body.map (Token.shift (a.length + 1)) ∧
    (Tokens.scan (a ++ '\n' :: b)).lexical =
      (Tokens.scan b).lexical.map (Diagnostic.relocate (Token.shift (a.length + 1))) ∧
    (Tokens.scan (a ++ '\n' :: b)).openBraces =
      (Tokens.scan a).openBraces + (Tokens.scan b).openBraces :=
  ⟨scan_append h b, lexical_append h b, openBraces_append h b⟩

/-- A number with a point behind it, a comment, and a string that is left open. -/
theorem scan_compositional_joint :
    (Tokens.scan "\x7b 1. // \x7b".toList).unterminated = [] ∧
    (Tokens.scan "\x7b 1. // \x7b\n5 \x7b \"a".toList).openBraces = 2 ∧
    (Tokens.scan "\x7b 1. // \x7b\n5 \x7b \"a".toList).lexical =
      [⟨.unterminatedString, ⟨.string, 14, 15, "\"a"⟩⟩] := by
  have h : (Tokens.scan "\x7b 1. // \x7b".toList).unterminated = [] := by decide +kernel
  obtain ⟨-, hlexical, hbraces⟩ := scan_compositional h "5 \x7b \"a".toList
  refine ⟨h, hbraces.trans (by decide +kernel), hlexical.trans (by decide +kernel)⟩

end Scriptlet
