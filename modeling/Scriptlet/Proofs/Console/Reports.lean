import Scriptlet.Console.Prompt
import Scriptlet.Proofs.Console.Steps
import Scriptlet.Proofs.Locality.Spacing

/-! What the steps of a session report.

Each step of a session makes a history of its own, by a reporter that is fatal or not. A
chunk that runs gives one in which the errors that have a place are those of its
diagnostics. Each is about a token of the chunk, and was reported while the reporter knew
the number of the chunk's first line (`runChunk_history`). -/
namespace Scriptlet

/-! ### Interruptions -/

/-- An interruption whose notice, if it has one, is about no place. -/
def Interruption.Placeless (i : Interruption) : Prop :=
  ∀ n, i.notice? = some n → n.place = none

/-- A source is parsed, or it nests too deep, or it nests although the limit is not known. -/
theorem Settings.parse_cases (settings : Settings) (source : List Char) :
    (∃ room, settings.parse source = .ok (Scriptlet.parse room source)) ∨
    ∃ i : Interruption, settings.parse source = .error i ∧ i.Placeless := by
  have hoverflow : Interruption.overflow.Placeless := fun n hn => by cases hn; rfl
  have hunknown : unknownLimit.Placeless := fun n hn => by cases hn; rfl
  unfold Settings.parse
  split
  next room _ =>
    by_cases hfits : (Scriptlet.parse room source).fits = true
    · exact .inl ⟨room, if_pos hfits⟩
    · exact .inr ⟨.overflow, if_neg hfits, hoverflow⟩
  next =>
    by_cases hflat : (Scriptlet.parse source.length source).isFlat = true
    · exact .inl ⟨source.length, if_pos hflat⟩
    · exact .inr ⟨unknownLimit, if_neg hflat, hunknown⟩

namespace Session

variable {s : Session}

/-- An error is about a token of the source, and the reporter knew then that the first line of the
source has the number; or it is about no place. -/
def Blames (source : List Char) (number : Option Int) (path : String) (x : Notice × Reporter) :
    Prop :=
  ∀ place, x.1.place = some place → place.source = source ∧
    place.token ∈ (Tokens.scan source).toList ∧ ∃ line, x.2.files = [(path, ⟨line, number⟩)]

theorem blames_plain {source : List Char} {number : Option Int} {path : String}
    {x : Notice × Reporter} (h : x.1.place = none) : Blames source number path x :=
  fun place hplace => by rw [h] at hplace; cases hplace

/-! ### Steps -/

/-- The notices that are reported of a source that is added: those of its diagnostics, if it can be
parsed and what is to be shown of it can be shown. -/
def told (source : List Char) (s : Session) : List Notice :=
  match s.settings.parse source with
  | .error _ => []
  | .ok parsed =>
    if s.settings.canShow parsed.statements then
      s.reporter.reported (notices source parsed.diagnostics)
    else []

theorem mem_notices {source : List Char} {ds : List Diagnostic} {n : Notice}
    (h : n ∈ notices source ds) : ∃ d ∈ ds, Notice.ofDiagnostic source d = n := by
  obtain ⟨d, hd, hn⟩ := List.mem_map.mp h
  exact ⟨d, (List.mergeSort_perm ds _).mem_iff.mp hd, hn⟩

theorem stop?_placeless {failed : Bool} {i : Interruption} (h : s.stop? failed = some i) :
    i.Placeless := by
  unfold stop? at h
  split at h
  · cases h
    exact fun n hn => by cases hn
  · cases h

variable [Text.Painter]

/-- A step that reports no notices about a place but those that are told, each as `Blames` says,
and that is not interrupted by a notice about a place. -/
structure Tells {α : Type} (source : List Char) (number : Option Int) (told : List Notice)
    (s : Session) (step : Step α) : Prop where
  history : ∃ xs, Reporter.History s.path s.reporter xs step.2.reporter ∧
    Reporter.placed xs = told ∧ ∀ x ∈ xs, Blames source number s.path x
  path : step.2.path = s.path
  placeless : ∀ i, step.1 = .error i → i.Placeless

/-- What is reported of a source that is added, by a reporter fatal or not. -/
theorem add_reported {source : List Char} {parsed : Parsed} (number : Option Int)
    (h : s.settings.parse source = .ok parsed)
    (hshow : s.settings.canShow parsed.statements = true) :
    (s.add source number).2.path = s.path ∧
    (s.add source number).2.reporter =
      (s.registered source number).reporter.reportAll (notices source parsed.diagnostics) ∧
    ∀ i, (s.add source number).1 = .error i → i.Placeless := by
  simp only [add, h, Settings.treeLines_shown, hshow, Bool.not_true, Bool.false_eq_true, if_false]
  split
  next i hstop =>
    refine ⟨rfl, rfl, fun j hj => ?_⟩
    cases hj
    exact stop?_placeless hstop
  next => exact ⟨rfl, rfl, fun i hi => by cases hi⟩

/-- Adding a source tells of its diagnostics. -/
theorem add_tells (hs : s.reporter.Only s.path) (source : List Char) (number : Option Int) :
    Tells source number (s.told source) s (s.add source number) := by
  have hregistered : Reporter.History s.path s.reporter [] (s.registered source number).reporter :=
    .registers _ _ (.done _)
  rcases s.settings.parse_cases source with ⟨room, h⟩ | ⟨i, h, hi⟩
  case inr =>
    rw [add_unparsed h, told, h]
    refine ⟨⟨[], hregistered, rfl, List.forall_mem_nil _⟩, rfl, fun j hj => ?_⟩
    cases hj
    exact hi
  cases hshow : s.settings.canShow (parse room source).statements with
  | false =>
    rw [add_unshown h hshow, told, h]
    simp only [hshow, Bool.false_eq_true, if_false]
    refine ⟨⟨[], hregistered, rfl, List.forall_mem_nil _⟩, rfl, fun j hj => ?_⟩
    cases hj
    exact fun n hn => by cases hn; rfl
  | true =>
    obtain ⟨hpath, hreporter, hplaceless⟩ := add_reported number h hshow
    have htold : s.told source =
        s.reporter.reported (notices source (parse room source).diagnostics) := by
      rw [told, h]
      exact if_pos hshow
    obtain ⟨xs, hxs, hnotices, hfiles⟩ := Reporter.history_reportAll s.path
      (notices source (parse room source).diagnostics) (s.registered source number).reporter
    rw [← hreporter] at hxs
    have hdiagnostic : ∀ n ∈ xs.map Prod.fst, ∃ d ∈ (parse room source).diagnostics,
        Notice.ofDiagnostic source d = n := fun n hn =>
      mem_notices (Reporter.mem_of_mem_reported (hnotices ▸ hn))
    refine ⟨⟨xs, hregistered.append hxs, ?_, fun x hx place hplace => ?_⟩, hpath, hplaceless⟩
    · rw [htold, Reporter.placed, List.filter_eq_self.mpr, hnotices]
      · rfl
      · intro n hn
        obtain ⟨d, -, rfl⟩ := hdiagnostic n hn
        rfl
    · obtain ⟨d, hd, hnotice⟩ := hdiagnostic x.1 (List.mem_map_of_mem hx)
      rw [← hnotice] at hplace
      cases hplace
      exact ⟨rfl, diagnostics_mem room source d hd, _, (hfiles x hx).trans (hs.registerLine _ _)⟩

/-- A run tells of no source. -/
theorem run_tells (source : List Char) (number : Option Int) :
    Tells source number [] s s.run := by
  obtain ⟨xs, hxs, hnotices, -⟩ := Reporter.history_reportAll s.path
    ((interpret (!s.reporter.fatal) s.queue s.machine).1.map Notice.ofRunError) s.reporter
  obtain ⟨hreporter, hpath⟩ : s.run.2.reporter = (s.reporter.reportAll
      ((interpret (!s.reporter.fatal) s.queue s.machine).1.map Notice.ofRunError)).registerFile
        s.path ∧ s.run.2.path = s.path := by
    simp only [run]
    split <;> exact ⟨rfl, rfl⟩
  have hend := hxs.append (.registers none none (.done _))
  rw [List.append_nil] at hend
  have hplain : ∀ x ∈ xs, x.1.place = none := fun x hx => by
    have hmem := Reporter.mem_of_mem_reported (hnotices ▸ List.mem_map_of_mem hx)
    obtain ⟨e, -, hnotice⟩ := List.mem_map.mp hmem
    rw [← hnotice]
    rfl
  refine ⟨⟨xs, hreporter ▸ hend, Reporter.placed_eq_nil hplain,
    fun x hx => blames_plain (hplain x hx)⟩, hpath, fun i hi => ?_⟩
  simp only [run] at hi
  split at hi
  next j hstop =>
    cases hi
    exact stop?_placeless hstop
  next => cases hi

section
variable {source : List Char} {number : Option Int} {told : List Notice}

/-- What the second of two steps tells is told behind what the first tells. -/
theorem Tells.behind {α β : Type} {first : Step α} {second : Step β}
    (h : Tells source number told s first) (h' : Tells source number [] first.2 second) :
    Tells source number told s second := by
  obtain ⟨⟨xs, hxs, htold, hall⟩, hpath, -⟩ := h
  obtain ⟨⟨ys, hys, hnone, hall'⟩, hpath', hplaceless⟩ := h'
  rw [hpath] at hys hall' hpath'
  refine ⟨⟨xs ++ ys, hxs.append hys, ?_, List.forall_mem_append.mpr ⟨hall, hall'⟩⟩, hpath',
    hplaceless⟩
  rw [Reporter.placed_append, htold, hnone, List.append_nil]

/-- A guard tells of no source, either. -/
theorem Tells.guarded {α : Type} {step : Step α} (h : Tells source number told s step) :
    (∃ xs, Reporter.History s.path s.reporter xs step.guarded.2.reporter ∧
      Reporter.placed xs = told ∧ ∀ x ∈ xs, Blames source number s.path x) ∧
    step.guarded.2.path = s.path := by
  obtain ⟨⟨xs, hxs, htold, hall⟩, hpath, hplaceless⟩ := h
  rcases step with ⟨i | a, t⟩
  case ok => exact ⟨⟨xs, hxs, htold, hall⟩, hpath⟩
  have hguarded : (Step.guarded (α := α) (.error i, t)).2.reporter = (t.reporter.guard i).2 := rfl
  refine ⟨?_, hpath⟩
  rw [hguarded, Reporter.guard]
  cases hnotice : i.notice? with
  | none => exact ⟨xs, hxs, htold, hall⟩
  | some n =>
    have hplain : n.place = none := hplaceless i rfl n hnotice
    have hreport : Reporter.History s.path t.reporter [(n, t.reporter)] (t.reporter.report n) :=
      .reports n (.done _)
    have hnone : Reporter.placed [(n, t.reporter)] = [] :=
      Reporter.placed_eq_nil (List.forall_mem_singleton.mpr hplain)
    refine ⟨xs ++ [(n, t.reporter)], ?_, ?_,
      List.forall_mem_append.mpr ⟨hall, List.forall_mem_singleton.mpr (blames_plain hplain)⟩⟩
    · dsimp only
      split <;> exact hxs.append hreport
    · rw [Reporter.placed_append, htold, hnone, List.append_nil]

end

/-- **A chunk that runs** makes a history in which the errors that have a place are those of its
diagnostics. Each is about a token of the chunk, and was reported while the number of the chunk's
first line was known. -/
theorem runChunk_history (hs : s.reporter.Only s.path) (chunk : Chunk) :
    (∃ xs, Reporter.History s.path s.reporter xs (Prompt.runChunk chunk s).guarded.2.reporter ∧
      Reporter.placed xs = s.told chunk.source ∧
      ∀ x ∈ xs, Blames chunk.source (some chunk.first) s.path x) ∧
    (Prompt.runChunk chunk s).guarded.2.path = s.path := by
  have hadd := add_tells hs chunk.source (some chunk.first)
  refine Tells.guarded ?_
  unfold Prompt.runChunk
  rcases h : s.add chunk.source (some chunk.first) with ⟨i | ds, t⟩
  · rw [h] at hadd
    exact ⟨hadd.history, hadd.path, fun j hj => hadd.placeless j (by cases hj; rfl)⟩
  · rw [h] at hadd
    exact hadd.behind (run_tells chunk.source _)

end Session

end Scriptlet
