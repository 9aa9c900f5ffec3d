import Scriptlet.Proofs.Reporting.Histories
import Scriptlet.Proofs.Styling.Templates

/-! Style changes nothing but the style of what is reported.

Two reporters that differ in style alone are told the same things. Nothing that they are told
or know has the escape character in it, so all sequences in what the styled one writes come
from emphasis. If the painter puts nothing but sequences around a text, what remains without
them is what the other reporter writes (`Reporter.reports_shed`). Each call keeps this up
(`Reporter.Abreast`), since each part of what is written sheds. A slot with a width does not:
it counts the characters of the sequences too (`Reporter.width_counts_sequences`). -/
namespace Scriptlet

open Text (Unescaped Sheds escapeChar)

/-! ### Notices -/

theorem Kind.name_unescaped (kind : Kind) : Unescaped kind.name := by
  cases kind <;> decide

theorem Token.label_unescaped (t : Token) : Unescaped t.label :=
  have hkind := Unescaped.append (s := "Token(") (by decide) t.kind.name_unescaped
  have hstart := (hkind.append (by decide)).append (Text.unescaped_natRepr t.start)
  ((hstart.append (by decide)).append (Text.unescaped_natRepr t.stop)).append (by decide)

theorem Token.position_unescaped (source : List Char) (t : Token) :
    Unescaped (t.position source) :=
  have hline := Unescaped.append (s := "\nAtLine [") (by decide)
    (Text.unescaped_natRepr (Text.lineNumber source t.start))
  ((hline.append (by decide)).append t.label_unescaped).append (by decide)

/-- The message sheds, and nothing in the source is an escape character. -/
structure Notice.Sheds [Text.Painter] (n : Notice) : Prop where
  message : Text.Sheds (n.message.render true) (n.message.render false)
  source : ∀ p ∈ n.place, escapeChar ∉ p.source

theorem Notice.Sheds.render [Text.Painter] {n : Notice} (h : n.Sheds) :
    Text.Sheds (n.render true) (n.render false) := by
  refine h.message.append (Unescaped.sheds ?_)
  cases n.place with
  | none => exact (by decide : Unescaped "")
  | some p => exact p.token.position_unescaped p.source

theorem escape_notMem_slice {text : List Char} (h : escapeChar ∉ text) (start stop : Nat) :
    escapeChar ∉ Text.slice text start stop :=
  fun hmem => h (List.mem_of_mem_take (List.mem_of_mem_drop hmem))

/-- The line and what is below it shed. -/
theorem Place.excerpt_sheds {painter : Text.Painter} (hwraps : painter.Wraps) {p : Place}
    (h : escapeChar ∉ p.source) : Sheds (p.excerpt true) (p.excerpt false) := by
  have hline := escape_notMem_slice h (Text.lineStart p.source p.token.start)
    (Text.lineEnd p.source p.token.start)
  simp only [Place.excerpt]
  -- which part of the line is the token's does not matter
  generalize Text.slice p.source _ _ = line at hline
  generalize p.token.start - _ = start
  generalize (max _ _ : Nat) = stop
  have hindented {text : List Char} (ht : escapeChar ∉ text) :
      Unescaped (String.ofList (indent ++ text)) :=
    Text.unescaped_ofList (List.not_mem_append (by decide) ht)
  have hblank : escapeChar ∉ List.replicate start ' ' :=
    fun hmem => absurd (List.eq_of_mem_replicate hmem) (by decide)
  have hmark : escapeChar ∉ '^' :: List.replicate (stop - start - 1) '~' := by
    refine List.not_mem_cons_of_ne_of_not_mem (by decide) fun hmem => ?_
    exact absurd (List.eq_of_mem_replicate hmem) (by decide)
  have hbefore := hindented fun hmem => hline (List.mem_of_mem_take (i := start) hmem)
  have htoken := Text.unescaped_ofList (escape_notMem_slice hline start stop)
  have hbehind : Unescaped (String.ofList (line.drop stop)) :=
    Text.unescaped_ofList fun hmem => hline (List.mem_of_mem_drop hmem)
  exact ((((hbefore.sheds.append (htoken.emphasized hwraps _)).append hbehind.sheds).append
    (Unescaped.sheds (by decide))).append (hindented hblank).sheds).append
    ((Text.unescaped_ofList hmark).emphasized hwraps _)

/-! ### Reporters -/

namespace Reporter

/-- Neither the path nor the typed line has an escape character. -/
def Unescaped (file : String × Entry) : Prop :=
  Text.Unescaped file.1 ∧ ∀ line ∈ file.2.line, Text.Unescaped line

section
variable {r : Reporter} (hfiles : ∀ file ∈ r.files, Unescaped file)
include hfiles

theorem location_unescaped (n : Notice) : Text.Unescaped (r.location n) := by
  unfold location
  cases hr : r.files with
  | nil => exact (by decide : Text.Unescaped "")
  | cons file rest =>
    have hpath := (hfiles file (hr ▸ List.mem_cons_self)).1
    cases n.place with
    | none => exact hpath.append (by decide)
    | some p =>
      exact ((hpath.append (by decide)).append (Text.unescaped_intRepr _)).append (by decide)

theorem trace_unescaped : Text.Unescaped r.trace := by
  have hlines : ∀ line ∈ r.files.filterMap typedLine, Text.Unescaped line := by
    intro text htext
    obtain ⟨⟨path, line, number⟩, hfile, htyped⟩ := List.mem_filterMap.mp htext
    obtain ⟨hpath, hline⟩ := hfiles _ hfile
    have hnumber : Text.Unescaped (number.elim "None" Int.repr) := by
      cases number with
      | none => exact (by decide : Text.Unescaped "None")
      | some n => exact Text.unescaped_intRepr n
    cases line with
    | none => cases htyped
    | some line =>
      simp only [typedLine, Option.ite_none_left_eq_some, Option.some.injEq] at htyped
      obtain ⟨-, rfl⟩ := htyped
      have hfront := (Text.Unescaped.append (s := "  File '") (by decide) hpath).append
        (by decide : Text.Unescaped "', line ")
      exact (((hfront.append hnumber).append (by decide)).append (hline line rfl)).append
        (by decide)
  refine Text.Unescaped.append ?_ ?_
  · split <;> decide
  · rw [Text.Unescaped, String.toList_join, List.mem_flatMap]
    rintro ⟨line, hline, hmem⟩
    exact hlines line hline hmem

end

/-- Reporters that differ in style alone, of which the first has written what sheds to what the
other has written. -/
structure Abreast (on off : Reporter) : Prop where
  styled : on.styled = true
  plain : off.styled = false
  files : on.files = off.files
  errors : on.errors = off.errors
  log : Sheds on.log off.log
  /-- Nothing that they know has an escape character. -/
  unescaped : ∀ file ∈ on.files, Unescaped file

namespace Abreast

variable {painter : Text.Painter} (hwraps : painter.Wraps) {on off : Reporter}
include hwraps

theorem emphasize (h : Abreast on off) {text : String} (ht : Text.Unescaped text)
    (colour : Option Text.Colour) :
    Sheds (Text.emphasize on.styled colour text) (Text.emphasize off.styled colour text) := by
  rw [h.styled, h.plain]
  exact ht.emphasized hwraps colour

omit hwraps in
theorem render (h : Abreast on off) {n : Notice} (hn : n.Sheds) :
    Sheds (n.render on.styled) (n.render off.styled) := by
  rw [h.styled, h.plain]
  exact hn.render

theorem boldLocation (h : Abreast on off) (n : Notice) :
    Sheds (on.boldLocation n) (off.boldLocation n) := by
  have hlocation : off.location n = on.location n := by
    rw [location, location, h.files]
  rw [Reporter.boldLocation, Reporter.boldLocation, hlocation]
  split
  · exact Text.sheds_nil
  · exact h.emphasize hwraps (location_unescaped h.unescaped n) none

theorem excerpt (h : Abreast on off) {n : Notice} (hn : n.Sheds) :
    Sheds (on.excerpt n) (off.excerpt n) := by
  unfold Reporter.excerpt
  split
  next p _ hp =>
    rw [h.styled, h.plain]
    exact (Place.excerpt_sheds hwraps (hn.source p hp)).append (Text.Unescaped.sheds (by decide))
  next => exact Text.sheds_nil

/-- What is written of an error sheds. -/
theorem wording (h : Abreast on off) {n : Notice} (hn : n.Sheds) :
    Sheds (on.wording n) (off.wording n) := by
  have htrace : off.trace = on.trace := by
    rw [trace, trace, h.files]
  have hinternal : Sheds
      (if n.internal then Text.emphasize on.styled (some .red) "[internal] " else "")
      (if n.internal then Text.emphasize off.styled (some .red) "[internal] " else "") := by
    split
    · exact h.emphasize hwraps (by decide) _
    · exact Text.sheds_nil
  have herror := h.emphasize hwraps (by decide : Text.Unescaped "error: ") (some .red)
  have hnewline := Text.Unescaped.sheds (by decide : Text.Unescaped "\n")
  rw [Reporter.wording, Reporter.wording, htrace]
  exact ((((((trace_unescaped h.unescaped).sheds.append (h.boldLocation hwraps n)).append
    hinternal).append herror).append (h.render hn)).append hnewline).append (h.excerpt hwraps hn)

theorem report (h : Abreast on off) {n : Notice} (hn : n.Sheds) :
    Abreast (on.report n) (off.report n) :=
  { h with
    errors := congrArg (· + 1) h.errors
    log := h.log.append (h.wording hwraps hn) }

theorem warn (h : Abreast on off) {m : Text.Message}
    (hm : Sheds (m.render true) (m.render false)) : Abreast (on.warn m) (off.warn m) := by
  have hn : (Notice.plain m).Sheds := ⟨hm, nofun⟩
  have hwarning := h.emphasize hwraps (by decide : Text.Unescaped "warning: ") (some .magenta)
  have hnewline := Text.Unescaped.sheds (by decide : Text.Unescaped "\n")
  exact { h with
    log := h.log.append ((((h.boldLocation hwraps _).append hwarning).append (h.render hn)).append
      hnewline) }

end Abreast

/-! ### Calls -/

/-- How a message is reported. -/
inductive Severity where
  | warning
  | error (place : Option Place) (internal : Bool)

/-- A call to report a message, which a template makes of terms. -/
structure Call where
  template : String
  terms : List String
  severity : Severity

/-- The reporter after a call. The message is made of the terms as they are, and then again as it
is to be written. A template that is at fault ends the call before anything is reported. -/
def tell [Text.Painter] [Text.NamedParts] (r : Reporter) (c : Call) : Reporter :=
  let template := Text.Template.ofString c.template
  match template.fill c.terms, template.fill c.terms (Text.emphasize r.styled none),
    c.severity with
  | .ok _, .ok m, .warning => r.warn m
  | .ok _, .ok m, .error place internal => r.report ⟨m, place, internal⟩
  | _, _, _ => r

namespace Call

/-- Nothing that is reported has an escape character. -/
structure Unescaped (c : Call) : Prop where
  template : Text.Unescaped c.template
  terms : ∀ t ∈ c.terms, Text.Unescaped t
  source : ∀ p internal, c.severity = .error (some p) internal → escapeChar ∉ p.source

/-- The slots of the template take whole terms and lay them out as they are. -/
def TakesWhole (c : Call) : Prop :=
  ∀ s, Text.Piece.slot s ∈ Text.Template.ofString c.template → s.TakesWhole

end Call

section
variable {painter : Text.Painter} [Text.NamedParts]

theorem Abreast.tell (hwraps : painter.Wraps) {on off : Reporter} (h : Abreast on off) {c : Call}
    (hc : c.Unescaped) (hslots : c.TakesWhole) : Abreast (on.tell c) (off.tell c) := by
  simp only [Reporter.tell, Text.Template.fill_mark hslots c.terms (Text.emphasize _ none) id]
  cases hfill : (Text.Template.ofString c.template).fill c.terms with
  | error fault => exact h
  | ok m =>
    have hm := Text.Template.fill_sheds hwraps hc.terms hc.template hslots hfill
    cases hs : c.severity with
    | warning => exact h.warn hwraps hm
    | error place internal =>
      have hsource : ∀ p ∈ place, escapeChar ∉ p.source := by
        rintro p rfl
        exact hc.source p internal hs
      exact h.report hwraps ⟨hm, hsource⟩

theorem Abreast.tellAll (hwraps : painter.Wraps) {on off : Reporter} (h : Abreast on off)
    {calls : List Call} (hcalls : ∀ c ∈ calls, c.Unescaped ∧ c.TakesWhole) :
    Abreast (calls.foldl Reporter.tell on) (calls.foldl Reporter.tell off) := by
  induction calls generalizing on off with
  | nil => exact h
  | cons c calls ih =>
    obtain ⟨⟨hc, hslots⟩, hcalls⟩ := List.forall_mem_cons.mp hcalls
    exact ih (h.tell hwraps hc hslots) hcalls

/-- A reporter with style writes what one without style writes, but for the sequences, and counts
as many errors. -/
def StyleOnly [Text.Painter] (fatal : Bool) (files : List (String × Entry)) (errors : Nat)
    (calls : List Call) : Prop :=
  Text.unstyled (calls.foldl tell ⟨fatal, true, files, errors, ""⟩).log =
      (calls.foldl tell ⟨fatal, false, files, errors, ""⟩).log ∧
    (calls.foldl tell ⟨fatal, true, files, errors, ""⟩).errors =
      (calls.foldl tell ⟨fatal, false, files, errors, ""⟩).errors

/-- **Style changes nothing but the style**, whatever files are registered and whatever is
reported, if the painter puts nothing but sequences around a text, nothing that is reported has an
escape character and slots take whole terms. -/
theorem reports_shed (hwraps : painter.Wraps) (fatal : Bool) (files : List (String × Entry))
    (errors : Nat) (calls : List Call) (hfiles : ∀ file ∈ files, Unescaped file)
    (hcalls : ∀ c ∈ calls, c.Unescaped ∧ c.TakesWhole) :
    StyleOnly fatal files errors calls := by
  have hstart : Abreast ⟨fatal, true, files, errors, ""⟩ ⟨fatal, false, files, errors, ""⟩ :=
    ⟨rfl, rfl, rfl, rfl, Text.sheds_nil, hfiles⟩
  have hend := hstart.tellAll hwraps hcalls
  exact ⟨hend.log.unstyled, hend.errors⟩

end

/-- An error in a line that was typed, with the painter of a terminal. -/
theorem reports_shed_error :
    Text.terminal.Wraps ∧
    StyleOnly true [("a", ⟨some "print x;", some 3⟩)] 0
      [⟨"No \x7b0\x7d.", ["x"],
        .error (some ⟨⟨.identifier, 6, 6, "x"⟩, "print x;".toList⟩) false⟩] := by
  refine ⟨Text.terminal_wraps,
    reports_shed Text.terminal_wraps true _ 0 _ (fun file hfile => ?_) fun c hc => ?_⟩
  · obtain rfl := List.mem_singleton.mp hfile
    exact ⟨by decide, by decide⟩
  · obtain rfl := List.mem_singleton.mp hc
    refine ⟨⟨by decide, by decide, fun p internal hp => ?_⟩, fun s hs => ?_⟩
    · cases hp
      decide
    · have hpieces : Text.Template.ofString "No \x7b0\x7d." =
          [.char 'N', .char 'o', .char ' ', .slot ⟨['0'], none, []⟩, .char '.'] := by decide
      obtain rfl : s = ⟨['0'], none, []⟩ := by
        simpa [hpieces] using hs
      exact Text.Slot.takesWhole_of_name (by decide)

/-- A width is filled up by the characters of the sequences, which take the place of blanks. -/
theorem width_counts_sequences :
    Text.terminal.Wraps ∧ Call.Unescaped ⟨"\x7b:>10\x7d", ["x"], .warning⟩ ∧
      ¬ StyleOnly false [] 0 [⟨"\x7b:>10\x7d", ["x"], .warning⟩] :=
  ⟨Text.terminal_wraps, ⟨by decide, by decide, nofun⟩, fun h => absurd h.1 (by decide +kernel)⟩

end Reporter

end Scriptlet
