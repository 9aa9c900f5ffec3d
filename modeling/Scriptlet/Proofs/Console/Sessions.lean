import Scriptlet.Proofs.Console.Steps
import Scriptlet.Proofs.Locality.Chunks
import Scriptlet.Proofs.Reporting.Lines
import Scriptlet.Proofs.Running.Executions

/-! A program that is run in parts.

A session that is patient goes on after every error, so that it does not matter where
one run of its queue ends and the next begins. What is fed to the session source by
source therefore comes to the same as all the statements at once (`feed_patient`), and
the parser finds the same statements in the parts as in the whole (`parse_append`). -/
namespace Scriptlet

/-! ### Feeding a session -/

namespace Session

/-- A session that no error stops, which writes neither tokens nor trees and has room for
`room` levels. -/
structure Patient (room : Nat) (s : Session) : Prop where
  lenient : s.reporter.fatal = false
  settings : s.settings = ⟨some room, false, false⟩

variable [Text.Painter]

/-- Adds sources, each with the number of its first line, and runs every one of them before
the next. The errors of all runs are returned. -/
def feed : List (List Char × Option Int) → Session → Step (List RunError)
  | [], s => (.ok [], s)
  | (source, line) :: rest, s =>
    match s.add source line with
    | (.error i, s) => (.error i, s)
    | (.ok _, s) =>
      match s.run with
      | (.error i, s) => (.error i, s)
      | (.ok errors, s) =>
        match feed rest s with
        | (.error i, s) => (.error i, s)
        | (.ok more, s) => (.ok (errors ++ more), s)

variable {room : Nat} {s : Session}

theorem add_patient (h : s.Patient room) {source : List Char}
    (hfits : (parse room source).fits = true) (line : Option Int) :
    ∃ t, s.add source line = (.ok (parse room source).diagnostics, t) ∧ t.Patient room ∧
      t.machine = s.machine ∧ t.queue = s.queue ++ (parse room source).statements := by
  have hroom : s.settings.nesting = some room := by rw [h.settings]
  have hparse := Settings.parse_of_fits hroom hfits
  have hshow : s.settings.canShow (parse room source).statements = true := by rw [h.settings]; rfl
  have hmachine : s.machine.write (s.settings.dump source (parse room source).statements) =
      s.machine := by
    rw [h.settings]
    simp only [Machine.write, Settings.dump, Settings.tokensShown, Settings.treesShown,
      Bool.false_eq_true, if_false, String.append_empty]
  exact ⟨_, add_parsed h.lenient hparse hshow line, ⟨h.lenient, h.settings⟩, hmachine, rfl⟩

theorem run_patient (h : s.Patient room) :
    ∃ t, s.run = (.ok (interpret true s.queue s.machine).1, t) ∧ t.Patient room ∧
      t.machine = (interpret true s.queue s.machine).2 ∧ t.queue = [] :=
  ⟨_, run_lenient h.lenient, ⟨h.lenient, h.settings⟩, rfl, rfl⟩

/-- What remains of a source once it has run is the machine. -/
theorem feed_cons (h : s.Patient room) {source : List Char}
    (hfits : (parse room source).fits = true) (line : Option Int)
    (rest : List (List Char × Option Int)) {errors : List RunError} {next : Machine}
    (hruns : interpret true (s.queue ++ (parse room source).statements) s.machine =
      (errors, next)) :
    ∃ t : Session, t.Patient room ∧ t.machine = next ∧ t.queue = [] ∧
      ∀ more u, t.feed rest = (.ok more, u) →
        s.feed ((source, line) :: rest) = (.ok (errors ++ more), u) := by
  obtain ⟨added, hadd, hpatient, hmachine, hqueue⟩ := add_patient h hfits line
  obtain ⟨t, hrun, ht, hnext, hempty⟩ := run_patient hpatient
  rw [hmachine, hqueue, hruns] at hrun hnext
  refine ⟨t, ht, hnext, hempty, fun more u hmore => ?_⟩
  simp only [feed, hadd, hrun, hmore]

/-- Sources that are fed to a patient session run as the statements of all of them. -/
theorem feed_patient (h : s.Patient room) (source : List Char) (line : Option Int)
    (rest : List (List Char × Option Int)) (hfits : (parse room source).fits = true)
    (hrest : ∀ chunk ∈ rest, (parse room chunk.1).fits = true) {errors : List RunError}
    {final : Machine}
    (hruns : interpret true (s.queue ++ (parse room source).statements ++
      rest.flatMap fun chunk => (parse room chunk.1).statements) s.machine = (errors, final)) :
    ∃ t : Session, s.feed ((source, line) :: rest) = (.ok errors, t) ∧ t.machine = final := by
  induction rest generalizing s source line errors final with
  | nil =>
    rw [List.flatMap_nil, List.append_nil] at hruns
    obtain ⟨t, _, hmachine, _, hfeed⟩ := feed_cons h hfits line [] hruns
    exact ⟨t, by rw [hfeed [] t rfl, List.append_nil], hmachine⟩
  | cons chunk rest ih =>
    rw [interpret_append] at hruns
    obtain ⟨rfl, rfl⟩ := Prod.mk.inj hruns
    obtain ⟨hchunk, hrest⟩ := List.forall_mem_cons.mp hrest
    obtain ⟨t, ht, hmachine, hqueue, hfeed⟩ := feed_cons h hfits line (chunk :: rest) rfl
    obtain ⟨u, hmore, hfinal⟩ := ih ht chunk.1 chunk.2 hchunk hrest (by rw [hqueue, hmachine])
    exact ⟨u, hfeed _ u hmore, hfinal⟩

end Session

/-! ### Two parts -/

/-- A token of the second source stands on a line that is as much further down as the first
source has lines. -/
theorem lineNumber_shift (a b : List Char) (t : Token) :
    Text.lineNumber (a ++ '\n' :: b) (t.shift (a.length + 1)).start =
      Text.lineNumber b t.start + (1 + a.count '\n') :=
  lineNumber_append a b t.start

/-- **A program in two parts is the program.** If the first part is well formed and the second
does not begin with an else, the parser finds in the whole what it finds in the parts, the
diagnostics of the second part further behind and further down; the stack has room for the
whole if it has for the parts; and a patient session that is fed the parts, one after the
other, ends as one that is fed the whole, with the same errors. -/
theorem parts_agree [Text.Painter] {room : Nat} {a b : List Char}
    (ha : (parse room a).diagnostics = [])
    (hb : ∀ t ∈ (Tokens.scan b).body.head?, t.kind ≠ .elseWord) :
    (parse room (a ++ '\n' :: b)).statements =
      (parse room a).statements ++ (parse room b).statements ∧
    (parse room (a ++ '\n' :: b)).diagnostics =
      (parse room b).diagnostics.map (Diagnostic.relocate (Token.shift (a.length + 1))) ∧
    (∀ d ∈ (parse room b).diagnostics,
      Text.lineNumber (a ++ '\n' :: b) (d.relocate (Token.shift (a.length + 1))).token.start =
        Text.lineNumber b d.token.start + (1 + a.count '\n')) ∧
    (parse room (a ++ '\n' :: b)).fits = ((parse room a).fits && (parse room b).fits) ∧
    (room ≤ 55 → (parse room (a ++ '\n' :: b)).fits = true) ∧
    ∀ s : Session, s.Patient room → (parse room (a ++ '\n' :: b)).fits = true →
      ∀ line line' line'', ∃ errors t u,
        s.feed [(a, line), (b, line')] = (.ok errors, t) ∧
        s.feed [(a ++ '\n' :: b, line'')] = (.ok errors, u) ∧ t.machine = u.machine := by
  have hwhole := parse_append ha hb
  have hfits : (parse room (a ++ '\n' :: b)).fits =
      ((parse room a).fits && (parse room b).fits) := by
    simp only [hwhole, Parsed.fits, Nat.max_le, Bool.decide_and]
  refine ⟨by rw [hwhole], by rw [hwhole], fun d _ => lineNumber_shift a b d.token, hfits,
    fun h => parse_fits _ h _, fun s hs hroom line line' line'' => ?_⟩
  obtain ⟨hfirst, hsecond⟩ := Bool.and_eq_true_iff.mp (hfits ▸ hroom)
  rcases hruns : interpret true (s.queue ++ (parse room (a ++ '\n' :: b)).statements) s.machine
    with ⟨errors, final⟩
  have hparts : interpret true (s.queue ++ (parse room a).statements ++
      [(b, line')].flatMap fun chunk => (parse room chunk.1).statements) s.machine =
        (errors, final) := by
    rw [← hruns, hwhole, List.append_assoc, List.flatMap_singleton]
  obtain ⟨t, hfeed, ht⟩ := Session.feed_patient hs a line [(b, line')] hfirst
    (List.forall_mem_singleton.mpr hsecond) hparts
  have hone : interpret true (s.queue ++ (parse room (a ++ '\n' :: b)).statements ++
      [].flatMap fun chunk : List Char × Option Int => (parse room chunk.1).statements)
        s.machine = (errors, final) := by
    rw [List.flatMap_nil, List.append_nil, hruns]
  obtain ⟨u, hfeed', hu⟩ := Session.feed_patient hs (a ++ '\n' :: b) line'' [] hroom
    (List.forall_mem_nil _) hone
  exact ⟨errors, t, u, hfeed, hfeed', ht.trans hu.symm⟩

theorem opened_patient [Text.Painter] (room : Nat) : (Session.opened room).Patient room :=
  ⟨rfl, rfl⟩

/-- A declaration, and behind it an error and a block that is not closed. -/
theorem parts_agree_declaration :
    (parse 41 "let a = 1;".toList).diagnostics = [] ∧
    (∀ t ∈ (Tokens.scan "print b; \x7b print a;".toList).body.head?, t.kind ≠ .elseWord) ∧
    (Session.opened 41).Patient 41 ∧
    ∃ errors t u,
      (Session.opened 41).feed
        [("let a = 1;".toList, none), ("print b; \x7b print a;".toList, none)] =
          (.ok errors, t) ∧
      (Session.opened 41).feed [("let a = 1;\nprint b; \x7b print a;".toList, none)] =
        (.ok errors, u) ∧
      t.machine = u.machine := by
  have ha : (parse 41 "let a = 1;".toList).diagnostics = [] := by decide +kernel
  have hb : ∀ t ∈ (Tokens.scan "print b; \x7b print a;".toList).body.head?, t.kind ≠ .elseWord := by
    decide +kernel
  obtain ⟨_, _, _, _, hfits, hsame⟩ := parts_agree ha hb
  exact ⟨ha, hb, opened_patient 41,
    hsame (Session.opened 41) (opened_patient 41) (hfits (by decide)) none none none⟩

/-- Where the stack has no room for the second part, the first part has run by then, and of
the whole nothing runs. -/
theorem nestedGroups_parts_differ :
    (parse 100 "print true;".toList).diagnostics = [] ∧
    (∀ t ∈ (Tokens.scan (nestedGroups 100)).body.head?, t.kind ≠ .elseWord) ∧
    (Session.opened 100).Patient 100 ∧
    ((Session.opened 100).feed
      [("print true;".toList, none), (nestedGroups 100, none)]).2.machine.printed = "true\n" ∧
    ((Session.opened 100).feed
      [("print true;".toList ++ '\n' :: nestedGroups 100, none)]).2.machine.printed = "" := by
  refine ⟨?_, ?_, opened_patient 100, ?_, ?_⟩ <;> decide +kernel

end Scriptlet
