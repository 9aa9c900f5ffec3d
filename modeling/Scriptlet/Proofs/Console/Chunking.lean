import Scriptlet.Console.Prompt
import Scriptlet.Proofs.Console.Steps
import Scriptlet.Proofs.Reporting.Lines

/-! Which lines run together.

Whatever a prompt is asked, the lines of source that it was given make up the
chunks that it has added to its session and the lines that it holds back, in
order. A chunk ends with the first line that leaves no brace open, counted over
all its lines together, and the lines held back leave one open. `Chunked` says so
of what was taken in so far, and every request preserves it (`chunked_respond`),
whatever comes of running a chunk.

A prompt touches its session in three ways only: it writes, it warns of an exit that
it refuses, and it adds and runs chunks. These are its acts (`Act`), and the session
is what its acts have made of the first one (`session_respondAll`). What the user sees
before the next line is set anew with each line of source, and stays in step with the
lines that are held back (`InStep`). From the three together `chunks_exact` draws the
conclusion. -/
namespace Scriptlet

/-! ### Braces -/

/-- How many braces lines leave open. -/
def openBraces (lines : List (List Char)) : Int :=
  (Tokens.scan (unlines lines)).openBraces

/-- However many of the lines are read, at least one of them, a brace is open then. -/
def Held (lines : List (List Char)) : Prop :=
  ∀ front, front <+: lines → front ≠ [] → 0 < openBraces front

/-- The lines leave no brace open, and however many are read before the last, one is open. -/
structure Whole (lines : List (List Char)) : Prop where
  nonempty : lines ≠ []
  closed : openBraces lines ≤ 0
  opened : ∀ front, front <+: lines → front ≠ [] → front ≠ lines → 0 < openBraces front

theorem held_nil : Held [] :=
  fun _ hfront hne => absurd (List.prefix_nil.mp hfront) hne

/-- A line behind lines that are held is held too if it leaves a brace open. -/
theorem Held.concat {lines : List (List Char)} {line : List Char} (h : Held lines)
    (hopen : 0 < openBraces (lines ++ [line])) : Held (lines ++ [line]) := by
  intro front hfront hne
  rcases List.prefix_concat_iff.mp hfront with rfl | hfront
  · exact hopen
  · exact h front hfront hne

/-- Otherwise it makes them whole. -/
theorem Held.whole {lines : List (List Char)} {line : List Char} (h : Held lines)
    (hclosed : ¬ 0 < openBraces (lines ++ [line])) : Whole (lines ++ [line]) := by
  refine ⟨List.append_ne_nil_of_right_ne_nil _ (List.cons_ne_nil _ _), Int.not_lt.mp hclosed,
    fun front hfront hne hproper => ?_⟩
  rcases List.prefix_concat_iff.mp hfront with rfl | hfront
  · exact absurd rfl hproper
  · exact h front hfront hne

/-! ### Taking in lines -/

/-- The lines taken in so far, the chunks that were made of them, and what is held back. -/
def Chunked (lines : List (List Char)) (chunks : List Chunk) (c : Chunking) : Prop :=
  ∃ (groups : List (List (List Char))) (held : List (List Char)),
    lines = groups.flatten ++ held ∧ chunks.map Chunk.source = groups.map unlines ∧
    c.pending = unlines held ∧ (∀ g ∈ groups, Whole g) ∧ Held held

theorem chunked_of_pending_nil {c : Chunking} (h : c.pending = []) : Chunked [] [] c :=
  ⟨[], [], rfl, rfl, h, List.forall_mem_nil _, held_nil⟩

theorem Chunked.take {lines : List (List Char)} {chunks : List Chunk} {c : Chunking}
    (h : Chunked lines chunks c) (line : List Char) :
    Chunked (lines ++ [line]) (chunks ++ (c.take line).1.toList) (c.take line).2 := by
  obtain ⟨groups, held, rfl, hchunks, hpending, hgroups, hheld⟩ := h
  have hsource : c.pending ++ line ++ ['\n'] = unlines (held ++ [line]) := by
    rw [hpending, unlines_concat]
  unfold Chunking.take
  simp only [hsource]
  split
  case isTrue hopen =>
    exact ⟨groups, held ++ [line], List.append_assoc .., by rw [← hchunks]; simp, rfl, hgroups,
      hheld.concat hopen⟩
  case isFalse hclosed =>
    refine ⟨groups ++ [held ++ [line]], [], by simp, by simp [hchunks], rfl, ?_, held_nil⟩
    rw [List.forall_mem_append, List.forall_mem_singleton]
    exact ⟨hgroups, hheld.whole hclosed⟩

/-- A line that completes a chunk leaves nothing to hold back. -/
theorem Chunking.take_completed {c : Chunking} {line : List Char} {chunk : Chunk}
    (h : (c.take line).1 = some chunk) : (c.take line).2.pending = [] := by
  by_cases hopen : 0 < (Tokens.scan (c.pending ++ line ++ ['\n'])).openBraces
  · simp only [Chunking.take, if_pos hopen, reduceCtorEq] at h
  · simp only [Chunking.take, if_neg hopen]

/-- A line that completes none is held back itself. -/
theorem Chunking.take_held {c : Chunking} {line : List Char} (h : (c.take line).1 = none) :
    (c.take line).2.pending ≠ [] := by
  by_cases hopen : 0 < (Tokens.scan (c.pending ++ line ++ ['\n'])).openBraces
  · simp only [Chunking.take, if_pos hopen]
    exact List.append_ne_nil_of_right_ne_nil _ (List.cons_ne_nil _ _)
  · simp only [Chunking.take, if_neg hopen, reduceCtorEq] at h

/-! ### Acts -/

/-- What a prompt does to its session. -/
inductive Act where
  | write (text : String)
  /-- Warns of an exit that has an argument. -/
  | refuse (argument : List Char)
  | run (chunk : Chunk)
  deriving DecidableEq, Repr

namespace Act

/-- The calls that are made to the session, up to the first that is interrupted. -/
def calls : Act → List Call
  | .run chunk => [.add chunk.source (some chunk.first), .run]
  | _ => []

def perform [Text.Painter] (s : Session) : Act → Session
  | .write text => s.write text
  | .refuse argument => { s with reporter := s.reporter.warn (refusal argument) }
  | .run chunk => (s.callAll (Act.run chunk).calls).guarded.2

def chunk? : Act → Option Chunk
  | .run chunk => some chunk
  | _ => none

def refused? : Act → Option (List Char)
  | .refuse argument => some argument
  | _ => none

/-- The sources that are added to the session, in order. An add is the first call of its act, so
it is made whatever comes of it. -/
def added (acts : List Act) : List (List Char) :=
  (acts.flatMap calls).filterMap Call.source?

theorem added_eq (acts : List Act) : added acts = (acts.filterMap chunk?).map Chunk.source := by
  induction acts with
  | nil => rfl
  | cons a acts ih =>
    rw [added, List.flatMap_cons, List.filterMap_append]
    cases a with
    | run chunk => exact congrArg (chunk.source :: ·) ih
    | _ => exact ih

end Act

/-! ### Requests -/

namespace Request

/-- The line of source that a request brings. -/
def line? : Request → Option (List Char)
  | .source line => some line
  | _ => none

/-- The argument that an exit is refused for. -/
def refused? : Request → Option (List Char)
  | .exit (c :: rest) => some (c :: rest)
  | _ => none

end Request

/-- What is picked out of a list is picked out of its first element and then of the others. -/
theorem filterMap_cons_toList {α β : Type} (f : α → Option β) (a : α) (l : List α) :
    (a :: l).filterMap f = (f a).toList ++ l.filterMap f := by
  rw [List.filterMap_cons]
  cases f a <;> rfl

namespace Prompt

/-- The chunk that a request completes. -/
def completed (p : Prompt) (r : Request) : Option Chunk :=
  r.line?.bind fun line => (p.chunking.take line).1

/-- What a request makes the prompt do. -/
def actsOn (p : Prompt) : Request → List Act
  | .nothing => []
  | .help => [.write helpText]
  | .leave => [.write "\n"]
  | .exit [] => []
  | .exit argument => [.refuse argument]
  | .source line => (p.completed (.source line)).toList.map .run

/-- What the user sees tells whether lines are held back. -/
def InStep (p : Prompt) : Prop :=
  p.text = if p.chunking.pending.isEmpty then primaryText else secondaryText

theorem inStep_start (s : Session) : (start s).InStep :=
  rfl

theorem InStep.text_iff {p : Prompt} (h : p.InStep) :
    (p.text = ". " ↔ p.chunking.pending ≠ []) ∧ (p.text = "> " ↔ p.chunking.pending = []) := by
  have hempty : p.chunking.pending = [] ↔ p.chunking.pending.isEmpty = true :=
    List.isEmpty_iff.symm
  rw [Ne, hempty, h]
  cases p.chunking.pending.isEmpty <;> decide

variable [Text.Painter]

/-- A chunk that is run is added to the session, which then runs. -/
theorem runChunk_calls (chunk : Chunk) (s : Session) :
    (runChunk chunk s).guarded = (s.callAll (Act.run chunk).calls).guarded := by
  simp only [runChunk, Act.calls, Session.callAll, Session.call]
  rcases s.add chunk.source (some chunk.first) with ⟨i | ds, t⟩
  · rfl
  · dsimp only [Except.map]
    rcases t.run with ⟨_ | _, u⟩ <;> rfl

/-- A line of source either completes no chunk and is held back, or has the chunk that it
completes added to the session and run. -/
theorem respond_source (p : Prompt) (line : List Char) :
    p.respond (.source line) =
      match p.completed (.source line) with
      | none => (.ok false,
          { p with chunking := (p.chunking.take line).2, text := secondaryText })
      | some chunk => ((runChunk chunk p.session).guarded.1.map fun _ => false,
          ⟨(runChunk chunk p.session).guarded.2, (p.chunking.take line).2, primaryText⟩) := by
  simp only [respond, feed, completed, Request.line?, Option.bind_some]
  rcases p.chunking.take line with ⟨_ | chunk, c⟩ <;> rfl

/-! ### Answering a request -/

/-- The acts on a request make the session that it leaves, run the chunk that it completes and
warn of it if it is refused. -/
theorem actsOn_spec (p : Prompt) (r : Request) :
    (p.respond r).2.session = (p.actsOn r).foldl Act.perform p.session ∧
    (p.actsOn r).filterMap Act.chunk? = (p.completed r).toList ∧
    (p.actsOn r).filterMap Act.refused? = r.refused?.toList := by
  cases r with
  | source line =>
    rw [respond_source, actsOn]
    cases p.completed (.source line) with
    | none => exact ⟨rfl, rfl, rfl⟩
    | some chunk => exact ⟨congrArg Prod.snd (runChunk_calls chunk p.session), rfl, rfl⟩
  | exit argument => cases argument <;> exact ⟨rfl, rfl, rfl⟩
  | _ => exact ⟨rfl, rfl, rfl⟩

/-- What is taken in depends on the lines of source alone, not on what comes of running them. -/
theorem chunking_respond (p : Prompt) (r : Request) :
    (p.respond r).2.chunking =
      (r.line?.elim p.chunking fun line => (p.chunking.take line).2) := by
  cases r with
  | source line =>
    rw [respond_source]
    cases p.completed (.source line) <;> rfl
  | exit argument => cases argument <;> rfl
  | _ => rfl

theorem chunked_respond {p : Prompt} {lines : List (List Char)} {chunks : List Chunk}
    (h : Chunked lines chunks p.chunking) (r : Request) :
    Chunked (lines ++ r.line?.toList) (chunks ++ (p.completed r).toList)
      (p.respond r).2.chunking := by
  rw [chunking_respond, completed]
  cases r.line? with
  | none =>
    simp only [Option.toList_none, List.append_nil, Option.bind_none, Option.elim_none]
    exact h
  | some line => exact h.take line

/-- What the user sees is right again after a line of source, and no other request changes it. -/
theorem InStep.respond {p : Prompt} (h : p.InStep) (r : Request) : (p.respond r).2.InStep := by
  cases r with
  | source line =>
    rw [respond_source]
    cases hcompleted : p.completed (.source line) with
    | none =>
      have hheld : (p.chunking.take line).2.pending.isEmpty = false :=
        List.isEmpty_eq_false_iff.mpr (Chunking.take_held hcompleted)
      show secondaryText = _
      rw [hheld]
      rfl
    | some chunk =>
      show primaryText = _
      rw [Chunking.take_completed hcompleted]
      rfl
  | exit argument => cases argument <;> exact h
  | _ => exact h

/-! ### All requests -/

/-- Goes on with the next request whatever came of those before. -/
def respondAll (p : Prompt) : List Request → Prompt
  | [] => p
  | r :: rest => (p.respond r).2.respondAll rest

/-- What the prompt does meanwhile. -/
def actsOnAll (p : Prompt) : List Request → List Act
  | [] => []
  | r :: rest => p.actsOn r ++ (p.respond r).2.actsOnAll rest

theorem session_respondAll (p : Prompt) (rs : List Request) :
    (p.respondAll rs).session = (p.actsOnAll rs).foldl Act.perform p.session := by
  induction rs generalizing p with
  | nil => rfl
  | cons r rs ih => rw [respondAll, ih, actsOnAll, List.foldl_append, (p.actsOn_spec r).1]

theorem chunked_respondAll {p : Prompt} {lines : List (List Char)} {chunks : List Chunk}
    (h : Chunked lines chunks p.chunking) (rs : List Request) :
    Chunked (lines ++ rs.filterMap Request.line?)
      (chunks ++ (p.actsOnAll rs).filterMap Act.chunk?) (p.respondAll rs).chunking := by
  induction rs generalizing p lines chunks with
  | nil =>
    rw [actsOnAll, List.filterMap_nil, List.filterMap_nil, List.append_nil, List.append_nil]
    exact h
  | cons r rs ih =>
    rw [filterMap_cons_toList, actsOnAll, List.filterMap_append, (p.actsOn_spec r).2.1,
      ← List.append_assoc, ← List.append_assoc]
    exact ih (chunked_respond h r)

theorem InStep.respondAll {p : Prompt} (h : p.InStep) (rs : List Request) :
    (p.respondAll rs).InStep := by
  induction rs generalizing p with
  | nil => exact h
  | cons r rs ih => exact ih (h.respond r)

/-- How a prompt answers a line of source. Either it holds the line back, or it adds the chunk
that the line completes to its session, and has it run unless adding it is interrupted. -/
structure Answers (p : Prompt) (line : List Char) : Prop where
  held : p.completed (.source line) = none →
    p.respond (.source line) =
      (.ok false, { p with chunking := (p.chunking.take line).2, text := ". " })
  interrupted : ∀ chunk i t, p.completed (.source line) = some chunk →
    p.session.add chunk.source (some chunk.first) = (.error i, t) →
    p.respond (.source line) =
      ((Step.guarded (α := Unit) (.error i, t)).1.map fun _ => false,
        ⟨(Step.guarded (α := Unit) (.error i, t)).2, (p.chunking.take line).2, "> "⟩)
  run : ∀ chunk ds t, p.completed (.source line) = some chunk →
    p.session.add chunk.source (some chunk.first) = (.ok ds, t) →
    p.respond (.source line) =
      (t.run.guarded.1.map fun _ => false,
        ⟨t.run.guarded.2, (p.chunking.take line).2, "> "⟩)

theorem answers (p : Prompt) (line : List Char) : p.Answers line where
  held h := by
    rw [respond_source, h]
    rfl
  interrupted chunk i t h hadd := by
    rw [respond_source, h]
    simp only [runChunk, hadd]
    rfl
  run chunk ds t h hadd := by
    rw [respond_source, h]
    simp only [runChunk, hadd]
    rfl

/-- **Chunks are exact.** Whatever a prompt has been asked, and whatever came of it, its session is
what the acts on the requests have made of the first one. The lines of source fall into groups, one
for each source that was added to the session, and the lines that are held back. No line is lost,
doubled or out of order; a group ends with the first line that leaves no brace open; the lines held
back leave one open, after each of them; and the user sees whether there are any. The next line is
answered in the same way: it is held back, or the chunk that it completes is added and run. -/
theorem chunks_exact (s : Session) (rs : List Request) :
    ∃ (p : Prompt) (acts : List Act) (groups : List (List (List Char)))
      (held : List (List Char)),
      p = (start s).respondAll rs ∧ acts = (start s).actsOnAll rs ∧
      p.session = acts.foldl Act.perform s ∧
      rs.filterMap Request.line? = groups.flatten ++ held ∧
      Act.added acts = groups.map unlines ∧ p.chunking.pending = unlines held ∧
      (Act.added acts).flatten ++ p.chunking.pending = unlines (rs.filterMap Request.line?) ∧
      (∀ g ∈ groups, Whole g) ∧ Held held ∧
      (p.text = ". " ↔ p.chunking.pending ≠ []) ∧ (p.text = "> " ↔ p.chunking.pending = []) ∧
      ∀ line, p.Answers line := by
  obtain ⟨groups, held, hlines, hchunks, hpending, hgroups, hheld⟩ :=
    chunked_respondAll (p := start s) (chunked_of_pending_nil rfl) rs
  rw [List.nil_append] at hlines hchunks
  rw [← Act.added_eq] at hchunks
  obtain ⟨hsecondary, hprimary⟩ := ((inStep_start s).respondAll rs).text_iff
  refine ⟨_, _, groups, held, rfl, rfl, session_respondAll _ rs, hlines, hchunks, hpending, ?_,
    hgroups, hheld, hsecondary, hprimary, answers _⟩
  rw [hchunks, hpending, hlines, unlines_append, unlines_flatten]

end Prompt

/-- A line with an error, and a block that is not closed yet. -/
theorem chunks_exact_block :
    ∃ p : Prompt,
      p = (Prompt.start (Session.opened 41)).respondAll
        [.source "print ;".toList, .help, .source "if (true) \x7b".toList] ∧
      Act.added ((Prompt.start (Session.opened 41)).actsOnAll
        [.source "print ;".toList, .help, .source "if (true) \x7b".toList]) =
          ["print ;\n".toList] ∧
      p.chunking.pending = "if (true) \x7b\n".toList ∧ p.text = ". " ∧
      p.session.reporter.errors = 1 := by
  obtain ⟨_, _, _, _, rfl, rfl, -, -, -, -, -, -, -, htext, -⟩ :=
    Prompt.chunks_exact (Session.opened 41)
      [.source "print ;".toList, .help, .source "if (true) \x7b".toList]
  refine ⟨_, rfl, ?_, ?_, htext.mpr ?_, ?_⟩ <;> decide +kernel

end Scriptlet
