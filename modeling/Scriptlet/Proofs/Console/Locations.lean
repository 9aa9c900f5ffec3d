import Scriptlet.Proofs.Console.Conversations
import Scriptlet.Proofs.Console.Reports
import Scriptlet.Proofs.Console.Sessions
import Scriptlet.Proofs.Lexing.Exactness

/-! Where the errors of typed lines are.

An error is located by a number that is put together from three others: the number of
the line in the chunk, the number of the chunk's first line, which the chunk was given
when it was begun, and the count of all lines, from which that number was taken. The
result is the number of the typed line that holds the first character of the token
(`diagnostics_located`), whatever was typed and whatever went wrong before. -/
namespace Scriptlet

/-- A token begins at a character of its source; the end marker begins at the last one. -/
theorem start_lt_length {source : List Char} (hsource : source ≠ []) {t : Token}
    (ht : t ∈ (Tokens.scan source).toList) :
    t.start < source.length ∧ (t.kind = .eof → t.start = source.length - 1) := by
  have hpos : 0 < source.length := List.length_pos_iff.mpr hsource
  have hsplits : Splits 0 source (Tokens.scan source).body := splits_iff.mpr rfl
  rcases List.mem_append.mp ht with hbody | hfinal
  · have hstands := (hsplits.standsIn [] rfl).1 t hbody
    rw [List.nil_append] at hstands
    exact ⟨Nat.lt_of_le_of_lt hstands.ordered hstands.inside, fun heof => absurd heof hstands.kind⟩
  · rw [List.mem_singleton.mp hfinal]
    exact ⟨Nat.sub_lt hpos Nat.one_pos, fun _ => rfl⟩

/-! ### The number of a chunk -/

/-- The lines that were taken in are counted, and if the last of them are held back, the number
of the first one of these is known. -/
def Chunking.Counts (lines : List (List Char)) (c : Chunking) : Prop :=
  c.lines = lines.length ∧ ∃ before held, lines = before ++ held ∧ c.pending = unlines held ∧
    (held ≠ [] → c.first = before.length + 1)

/-- A chunk is the last ones of the lines, and has the number of the first of them. -/
def Chunk.Ends (lines : List (List Char)) (chunk : Chunk) : Prop :=
  ∃ before group, lines = before ++ group ∧ group ≠ [] ∧ chunk.source = unlines group ∧
    chunk.first = before.length + 1

theorem Chunking.Counts.take {lines : List (List Char)} {c : Chunking} (h : c.Counts lines)
    (line : List Char) : (c.take line).2.Counts (lines ++ [line]) ∧
      ∀ chunk, (c.take line).1 = some chunk → chunk.Ends (lines ++ [line]) := by
  obtain ⟨hcount, before, held, rfl, hpending, hfirst⟩ := h
  have hsource : c.pending ++ line ++ ['\n'] = unlines (held ++ [line]) := by
    rw [hpending, unlines_concat]
  -- The count of lines is the number of the first line if nothing is held back.
  have hnumber : (if c.pending.isEmpty then c.lines + 1 else c.first) = before.length + 1 := by
    by_cases hheld : held = []
    · rw [hpending, hcount, hheld, List.append_nil]
      rfl
    · have hne : c.pending.isEmpty = false := by
        rw [hpending, List.isEmpty_eq_false_iff]
        exact fun hnil => hheld (unlines_eq_nil hnil)
      rw [hne, hfirst hheld]
      rfl
  have hlines : c.lines + 1 = (before ++ held ++ [line]).length := by
    simp only [hcount, List.length_append, List.length_singleton]
  have hne : held ++ [line] ≠ [] := List.append_ne_nil_of_right_ne_nil _ (List.cons_ne_nil _ _)
  simp only [Chunking.take, hsource, hnumber]
  split
  · exact ⟨⟨hlines, before, held ++ [line], List.append_assoc .., rfl, fun _ => rfl⟩,
      fun chunk hchunk => by cases hchunk⟩
  · refine ⟨⟨hlines, before ++ held ++ [line], [], (List.append_nil _).symm, rfl,
      fun h => absurd rfl h⟩, fun chunk hchunk => ?_⟩
    cases hchunk
    exact ⟨before, held ++ [line], List.append_assoc .., hne, rfl, rfl⟩

/-! ### Prompts -/

/-- The location that is shown of an error, if the number of the chunk's first line is known. -/
theorem Reporter.location_numbered {r : Reporter} {n : Notice} {place : Place} {path : String}
    {shown : Option String} {before : Nat} (hplace : n.place = some place)
    (hfiles : r.files = [(path, ⟨shown, some ((before + 1 : Nat) : Int)⟩)]) :
    r.location n = path ++ ":" ++
      Nat.repr (before + Text.lineNumber place.source place.token.start) ++ ": " := by
  have hfirst :
      firstLine ⟨shown, some ((before + 1 : Nat) : Int)⟩ = ((before + 1 : Nat) : Int) := by
    rw [firstLine]
    exact if_neg (Int.natCast_ne_zero.mpr before.succ_ne_zero)
  have hnumber : (Text.lineNumber place.source place.token.start : Int) +
      ((before + 1 : Nat) : Int) - 1 =
        ((before + Text.lineNumber place.source place.token.start : Nat) : Int) := by
    omega
  simp only [location, hfiles, hplace, hfirst, hnumber]
  rfl

namespace Prompt

/-- The session of a prompt is on a path, and no other path is registered. -/
structure On (path : String) (p : Prompt) : Prop where
  onPath : p.session.path = path
  only : p.session.reporter.Only path

section
variable [Text.Painter] {p : Prompt} {path : String}

/-- A line of source makes a history. The errors in it that have a place are those of the
diagnostics of the chunk that the line completes. -/
theorem On.feed (h : p.On path) (line : List Char) : (p.feed line).2.On path ∧
    ∃ xs, Reporter.History path p.session.reporter xs (p.feed line).2.session.reporter ∧
      (∀ chunk, (p.chunking.take line).1 = some chunk →
        Reporter.placed xs = p.session.told chunk.source) ∧
      ∀ x ∈ xs, ∃ chunk, (p.chunking.take line).1 = some chunk ∧
        Session.Blames chunk.source (some chunk.first) path x := by
  obtain ⟨hpath, honly⟩ := h
  unfold Prompt.feed
  rcases p.chunking.take line with ⟨_ | chunk, c⟩
  · refine ⟨⟨hpath, honly⟩, [], .done _, fun chunk hchunk => ?_, List.forall_mem_nil _⟩
    cases hchunk
  · subst hpath
    obtain ⟨⟨xs, hxs, htold, hall⟩, hpath⟩ := Session.runChunk_history honly chunk
    refine ⟨⟨hpath, hxs.only honly⟩, xs, hxs, fun other hother => ?_,
      fun x hx => ⟨chunk, rfl, hall x hx⟩⟩
    cases hother
    exact htold

theorem On.respond (h : p.On path) (r : Request) : (p.respond r).2.On path := by
  cases r with
  | source line => exact (h.feed line).1
  | exit argument =>
    cases argument with
    | nil => exact h
    | cons c argument => exact ⟨h.onPath, h.only⟩
  | help => exact ⟨h.onPath, h.only⟩
  | leave => exact ⟨h.onPath, h.only⟩
  | nothing => exact h

theorem On.respondAll (h : p.On path) (rs : List Request) : (p.respondAll rs).On path := by
  induction rs generalizing p with
  | nil => exact h
  | cons r rs ih => exact ih (h.respond r)

theorem counts_respondAll {lines : List (List Char)} (h : p.chunking.Counts lines)
    (rs : List Request) :
    (p.respondAll rs).chunking.Counts (lines ++ rs.filterMap Request.line?) := by
  induction rs generalizing p lines with
  | nil =>
    rw [List.filterMap_nil, List.append_nil]
    exact h
  | cons r rs ih =>
    rw [filterMap_cons_toList, ← List.append_assoc]
    refine ih ?_
    rw [chunking_respond]
    cases r.line? with
    | none =>
      rw [Option.toList_none, List.append_nil]
      exact h
    | some line => exact (h.take line).1

/-- **Line numbers are right.** Whatever a prompt has been asked, and whatever came of it, let it
be given a line of source, and let no path be registered but that of typed lines. Of all errors
that it reports then, those that have a place are those of the diagnostics of the chunk that the
line completes, which is the last ones of the lines of source so far. Each is located by the
number of the line, of all lines of source from one on, that holds the first character of the
token. If the token is the end marker, that is the last line. -/
theorem diagnostics_located {s : Session} (hpath : s.path = typedPath)
    (hfiles : s.reporter.files.map Prod.fst = [typedPath]) (rs : List Request) (line : List Char)
    (hlines : ∀ l ∈ rs.filterMap Request.line? ++ [line], '\n' ∉ l) :
    ∃ (p q : Prompt) (xs : List (Notice × Reporter)),
      p = (start s).respondAll rs ∧ q = (p.feed line).2 ∧
      Reporter.History typedPath p.session.reporter xs q.session.reporter ∧
      q.session.reporter.log =
        p.session.reporter.log ++ String.join (xs.map fun x => x.2.wording x.1) ∧
      (∀ chunk, (p.chunking.take line).1 = some chunk →
        Reporter.placed xs = p.session.told chunk.source) ∧
      ∀ x ∈ xs, ∀ place, x.1.place = some place →
        ∃ (before group : List (List Char)) (number : Nat),
          rs.filterMap Request.line? ++ [line] = before ++ group ∧
          place.source = unlines group ∧ place.token ∈ (Tokens.scan place.source).toList ∧
          x.2.location x.1 = "<in>:" ++ Nat.repr number ++ ": " ∧
          LineHolds (before ++ group) number ((unlines before).length + place.token.start) ∧
          (place.token.kind = .eof → number = (before ++ group).length) := by
  have hon : (start s).On typedPath := ⟨hpath, hfiles⟩
  have hcounts : (start s).chunking.Counts [] :=
    ⟨rfl, [], [], rfl, rfl, fun h => absurd rfl h⟩
  obtain ⟨-, hends⟩ := (counts_respondAll hcounts rs).take line
  obtain ⟨-, xs, hxs, htold, hall⟩ := (hon.respondAll rs).feed line
  refine ⟨_, _, xs, rfl, rfl, hxs, hxs.log, htold, fun x hx place hplace => ?_⟩
  obtain ⟨chunk, hchunk, hblames⟩ := hall x hx
  obtain ⟨before, group, hgroup, hne, hsource, hfirst⟩ := hends chunk hchunk
  rw [List.nil_append] at hgroup
  obtain ⟨hin, htoken, shown, hknown⟩ := hblames place hplace
  rw [← hin] at htoken
  rw [hsource] at hin
  rw [hfirst] at hknown
  have hnonempty : place.source ≠ [] := fun hnil => hne (unlines_eq_nil (hin.symm.trans hnil))
  obtain ⟨hlt, heof⟩ := start_lt_length hnonempty htoken
  have hclean : ∀ l ∈ group, '\n' ∉ l := fun l hl =>
    hlines l (hgroup ▸ List.mem_append_right _ hl)
  rw [hin] at hlt heof
  have hholds := lineNumber_unlines hclean hlt
  refine ⟨before, group, before.length + Text.lineNumber place.source place.token.start, hgroup,
    hin, htoken, Reporter.location_numbered hplace hknown, ?_, fun hkind => ?_⟩
  · rw [hin]
    exact hholds.behind before
  · have hlast := LineHolds.last hne
    rw [← heof hkind] at hlast
    rw [hin, hholds.unique hlast, List.length_append]

end

/-- A chunk of two lines with an error on the second, behind a chunk that failed. -/
theorem diagnostics_located_brace :
    (Session.opened 41).path = typedPath ∧
    (Session.opened 41).reporter.files.map Prod.fst = [typedPath] ∧
    (∀ l ∈ [.source "print ;".toList, .help, .source "\x7b".toList].filterMap Request.line? ++
      ["true \x7d".toList], '\n' ∉ l) ∧
    ∃ (p q : Prompt) (xs : List (Notice × Reporter)),
      p = (start (Session.opened 41)).respondAll
        [.source "print ;".toList, .help, .source "\x7b".toList] ∧
      q = (p.feed "true \x7d".toList).2 ∧
      q.session.reporter.log =
        "  File '<in>', line 1:\n    print ;\n" ++
        "<in>:1: error: Expected expression.\n" ++
        "AtLine [1] AtToken[Token(SEMICOLON, 6, 6)]\n  print ;\n        ^\n" ++
        "  File '<in>', line 2:\n    \x7b\ntrue \x7d\n" ++
        "<in>:3: error: Expected ';' after expression.\n" ++
        "AtLine [2] AtToken[Token(RIGHT_BRACE, 7, 7)]\n  true \x7d\n       ^\n" ∧
      Reporter.History typedPath p.session.reporter xs q.session.reporter ∧
      ∀ x ∈ xs, ∀ place, x.1.place = some place → ∃ (before : List (List Char)) (number : Nat),
        x.2.location x.1 = "<in>:" ++ Nat.repr number ++ ": " ∧
        LineHolds ["print ;".toList, "\x7b".toList, "true \x7d".toList] number
          ((unlines before).length + place.token.start) := by
  have hlines : ∀ l ∈ [.source "print ;".toList, .help, .source "\x7b".toList].filterMap
      Request.line? ++ ["true \x7d".toList], '\n' ∉ l := by
    decide
  obtain ⟨p, q, xs, rfl, rfl, hxs, -, -, hall⟩ :=
    diagnostics_located (s := Session.opened 41) rfl rfl
      [.source "print ;".toList, .help, .source "\x7b".toList] "true \x7d".toList hlines
  refine ⟨rfl, rfl, hlines, _, _, xs, rfl, rfl, by decide +kernel, hxs,
    fun x hx place hplace => ?_⟩
  obtain ⟨before, group, number, hgroup, -, -, hlocation, hholds, -⟩ := hall x hx place hplace
  rw [← hgroup] at hholds
  exact ⟨before, number, hlocation, hholds⟩

end Prompt

end Scriptlet
