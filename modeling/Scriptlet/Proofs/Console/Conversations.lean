import Mathlib.Data.List.Induction
import Scriptlet.Console.CommandLine
import Scriptlet.Proofs.Console.Chunking

/-! What becomes of typed lines by the time the user leaves.

A conversation shows the prompt before each request, so its acts are those of the requests
with what is shown in between (`acts`), and the session at its end is what the acts make of
the first one (`session_conduct`). The list is cut behind its last chunk
(`cut_behind_chunks`). All lines of source before the cut are in chunks; all those behind it
are held back, and no act behind it brings them to the session or names them in a notice. To
leave does not look at what is held back, so these lines are lost. -/
namespace Scriptlet

/-! ### Acts that run nothing -/

/-- Warnings count as no errors. -/
theorem errors_foldl_warn [Text.Painter] (arguments : List (List Char)) (r : Reporter) :
    (arguments.foldl (fun r argument => r.warn (refusal argument)) r).errors = r.errors := by
  induction arguments generalizing r with
  | nil => rfl
  | cons argument arguments ih => exact ih _

/-- Acts that run nothing report nothing but the warnings among them. -/
theorem Act.reporter_foldl_perform [Text.Painter] {acts : List Act}
    (h : acts.filterMap chunk? = []) (s : Session) :
    (acts.foldl perform s).reporter =
      (acts.filterMap refused?).foldl (fun r argument => r.warn (refusal argument)) s.reporter := by
  induction acts generalizing s with
  | nil => rfl
  | cons a acts ih =>
    cases a with
    | run chunk => exact absurd h (List.cons_ne_nil _ _)
    | _ => exact ih h _

/-! ### Requests -/

/-- Whether the user leaves with this request. -/
def Request.leaves : Request → Bool
  | .leave | .exit [] => true
  | _ => false

namespace Prompt

variable [Text.Painter]

/-- The user leaves or stays as asked, or a chunk is interrupted for good; then nothing is held
back. -/
theorem respond_outcome (p : Prompt) (r : Request) :
    (p.respond r).1 = .ok r.leaves ∨
      ∃ i, (p.respond r).1 = .error i ∧ (p.respond r).2.chunking.pending = [] := by
  cases r with
  | source line =>
    rw [respond_source]
    cases h : p.completed (.source line) with
    | none => exact .inl rfl
    | some chunk =>
      dsimp only
      cases (runChunk chunk p.session).guarded.1 with
      | ok _ => exact .inl rfl
      | error i => exact .inr ⟨i, rfl, Chunking.take_completed h⟩
  | exit argument => cases argument <;> exact .inl rfl
  | _ => exact .inl rfl

/-! ### Conversations -/

/-- Shows the prompt and answers a request, and then the next, whatever came of it. -/
def conduct (p : Prompt) : List Request → Prompt
  | [] => p
  | r :: rest => ((p.write p.text).respond r).2.conduct rest

/-- What the prompt does meanwhile. -/
def acts (p : Prompt) : List Request → List Act
  | [] => []
  | r :: rest =>
    .write p.text :: (p.write p.text).actsOn r ++ ((p.write p.text).respond r).2.acts rest

/-- The requests that are answered until the user leaves or is interrupted. -/
def answered (p : Prompt) : List (List Char) → List Request
  | [] => [Request.ofLine endLine]
  | line :: rest =>
    Request.ofLine line ::
      match (p.write p.text).respond (Request.ofLine line) with
      | (.ok false, p) => p.answered rest
      | _ => []

theorem InStep.conduct {p : Prompt} (h : p.InStep) (rs : List Request) : (p.conduct rs).InStep := by
  induction rs generalizing p with
  | nil => exact h
  | cons r rs ih => exact ih (InStep.respond (p := p.write p.text) h r)

theorem conduct_append (p : Prompt) (rs others : List Request) :
    p.conduct (rs ++ others) = (p.conduct rs).conduct others := by
  induction rs generalizing p with
  | nil => rfl
  | cons r rs ih => exact ih _

theorem acts_append (p : Prompt) (rs others : List Request) :
    p.acts (rs ++ others) = p.acts rs ++ (p.conduct rs).acts others := by
  induction rs generalizing p with
  | nil => rfl
  | cons r rs ih =>
    rw [List.cons_append, acts, acts, conduct, ih, List.append_assoc]

/-- The session at the end is what the acts make of the first one. -/
theorem session_conduct (p : Prompt) (rs : List Request) :
    (p.conduct rs).session = (p.acts rs).foldl Act.perform p.session := by
  induction rs generalizing p with
  | nil => rfl
  | cons r rs ih =>
    rw [conduct, ih, acts, List.foldl_append, (actsOn_spec _ r).1]
    rfl

/-- Warnings are of the exits that are refused, in order. -/
theorem refused_acts (p : Prompt) (rs : List Request) :
    (p.acts rs).filterMap Act.refused? = rs.filterMap Request.refused? := by
  induction rs generalizing p with
  | nil => rfl
  | cons r rs ih =>
    have hwrite : (Act.write p.text).refused? = none := rfl
    rw [acts, List.cons_append, List.filterMap_cons_none hwrite, List.filterMap_append,
      (actsOn_spec _ r).2.2, ih, filterMap_cons_toList]

/-- The chunks that are run and what is held back at the end make up the lines of source. -/
theorem chunked_conduct {p : Prompt} {lines : List (List Char)} {chunks : List Chunk}
    (h : Chunked lines chunks p.chunking) (rs : List Request) :
    Chunked (lines ++ rs.filterMap Request.line?)
      (chunks ++ (p.acts rs).filterMap Act.chunk?) (p.conduct rs).chunking := by
  induction rs generalizing p lines chunks with
  | nil =>
    rw [acts, List.filterMap_nil, List.filterMap_nil, List.append_nil, List.append_nil]
    exact h
  | cons r rs ih =>
    have hwrite : (Act.write p.text).chunk? = none := rfl
    rw [filterMap_cons_toList, acts, List.cons_append, List.filterMap_cons_none hwrite,
      List.filterMap_append, (actsOn_spec _ r).2.1, ← List.append_assoc, ← List.append_assoc]
    exact ih (chunked_respond (p := p.write p.text) h r)

/-- A conversation can be cut behind its last chunk. -/
theorem cut_behind_chunks {p : Prompt} (hp : p.chunking.pending = []) (rs : List Request) :
    ∃ front back, rs = front ++ back ∧ (p.conduct front).chunking.pending = [] ∧
      ((p.conduct front).acts back).filterMap Act.chunk? = [] := by
  induction rs using List.reverseRecOn with
  | nil => exact ⟨[], [], rfl, hp, rfl⟩
  | append_singleton rs r ih =>
    obtain ⟨front, back, rfl, hfront, hback⟩ := ih
    have hlast : ((p.conduct (front ++ back)).acts [r]).filterMap Act.chunk? =
        ((p.conduct (front ++ back)).completed r).toList := by
      rw [← (actsOn_spec _ r).2.1, acts, acts, List.append_nil]
      rfl
    cases h : (p.conduct (front ++ back)).completed r with
    | none =>
      -- Nothing is completed, so the cut stays where it is.
      refine ⟨front, back ++ [r], List.append_assoc .., hfront, ?_⟩
      rw [acts_append, List.filterMap_append, hback, ← conduct_append, hlast, h]
      rfl
    | some chunk =>
      refine ⟨front ++ back ++ [r], [], (List.append_nil _).symm, ?_, rfl⟩
      rw [conduct_append, conduct, conduct, chunking_respond]
      obtain ⟨line, hline, hchunk⟩ := Option.bind_eq_some_iff.mp h
      rw [hline]
      exact Chunking.take_completed hchunk

/-! ### Typed lines -/

/-- A conversation that is over hears nothing more. -/
theorem hear_over (outcome : Except Interruption Unit) (p : Prompt) (lines : List (List Char)) :
    lines.foldl Conversation.hear (.over outcome p) = .over outcome p := by
  induction lines with
  | nil => rfl
  | cons line lines ih => exact ih

theorem converse_nil (p : Prompt) :
    p.converse [] =
      match (p.write p.text).respond (Request.ofLine endLine) with
      | (.ok false, p) => (.ok (), p.write p.text)
      | (.ok true, p) => (.ok (), p)
      | (.error i, p) => (.error i, p) := by
  simp only [converse, List.nil_append, List.foldl_cons, List.foldl_nil, Conversation.await,
    Conversation.hear, answer]
  rcases (p.write p.text).respond (Request.ofLine endLine) with ⟨⟨⟩ | ⟨_ | _⟩, q⟩ <;> rfl

theorem converse_cons (p : Prompt) (line : List Char) (rest : List (List Char)) :
    p.converse (line :: rest) =
      match (p.write p.text).respond (Request.ofLine line) with
      | (.ok false, p) => p.converse rest
      | (.ok true, p) => (.ok (), p)
      | (.error i, p) => (.error i, p) := by
  simp only [converse, List.cons_append, List.foldl_cons, Conversation.await, Conversation.hear,
    answer]
  rcases (p.write p.text).respond (Request.ofLine line) with ⟨⟨⟩ | ⟨_ | _⟩, q⟩
  · exact congrArg Conversation.result (hear_over _ q _)
  · rfl
  · exact congrArg Conversation.result (hear_over _ q _)

/-- To converse is to conduct what is answered. -/
theorem converse_eq_conduct (p : Prompt) (typed : List (List Char)) :
    (p.converse typed).2 = p.conduct (p.answered typed) := by
  induction typed generalizing p with
  | nil =>
    rw [converse_nil]
    rfl
  | cons line rest ih =>
    rw [converse_cons, answered, conduct]
    rcases h : (p.write p.text).respond (Request.ofLine line) with ⟨⟨⟩ | ⟨_ | _⟩, q⟩
    · rfl
    · exact ih q
    · rfl

/-- Lines are answered from the first on, with the end of the input behind the last. -/
theorem answered_prefix (p : Prompt) (typed : List (List Char)) :
    p.answered typed <+: (typed ++ [endLine]).map Request.ofLine := by
  induction typed generalizing p with
  | nil => exact List.prefix_rfl
  | cons line rest ih =>
    rw [answered, List.cons_append, List.map_cons, List.prefix_cons_inj]
    rcases (p.write p.text).respond (Request.ofLine line) with ⟨⟨⟩ | ⟨_ | _⟩, q⟩
    · exact List.nil_prefix
    · exact ih q
    · exact List.nil_prefix

/-- A conversation ends when the user leaves, or when a chunk is interrupted for good; then
nothing is held back. -/
theorem converse_ends (p : Prompt) (typed : List (List Char)) :
    ((p.converse typed).1 = .ok () ∧ ∃ before r, p.answered typed = before ++ [r] ∧
      r.leaves = true ∧ ∀ r ∈ before, r.leaves = false) ∨
    ∃ i, (p.converse typed).1 = .error i ∧ (p.converse typed).2.chunking.pending = [] := by
  induction typed generalizing p with
  | nil => exact .inl ⟨rfl, [], _, rfl, rfl, List.forall_mem_nil _⟩
  | cons line rest ih =>
    rw [converse_cons, answered]
    generalize Request.ofLine line = r
    have houtcome := respond_outcome (p.write p.text) r
    generalize (p.write p.text).respond r = answer at houtcome ⊢
    obtain ⟨outcome, q⟩ := answer
    dsimp only at houtcome
    obtain rfl | ⟨i, rfl, hpending⟩ := houtcome
    · cases hleaves : r.leaves with
      | true => exact .inl ⟨rfl, [], r, rfl, hleaves, List.forall_mem_nil _⟩
      | false =>
        obtain ⟨hout, before, last, hanswered, hlast, hbefore⟩ | hinterrupted := ih q
        · exact .inl ⟨hout, r :: before, last, congrArg _ hanswered, hlast,
            List.forall_mem_cons.mpr ⟨hleaves, hbefore⟩⟩
        · exact .inr hinterrupted
    · exact .inr ⟨i, rfl, hpending⟩

/-- The requests lead from one prompt to another, all lines of source among them are in chunks
that were run, and nothing is held back. -/
structure RunsAll (p : Prompt) (rs : List Request) (q : Prompt) : Prop where
  conducted : q = p.conduct rs
  session : q.session = (p.acts rs).foldl Act.perform p.session
  chunked : ∃ groups : List (List (List Char)),
    rs.filterMap Request.line? = groups.flatten ∧
    ((p.acts rs).filterMap Act.chunk?).map Chunk.source = groups.map unlines ∧
    ∀ g ∈ groups, Whole g
  pending : q.chunking.pending = []

/-- The requests lead from one prompt to another, all lines of source among them are held back,
and nothing is run. All that is reported meanwhile is which exits are refused. -/
structure HoldsAll (p : Prompt) (rs : List Request) (q : Prompt) : Prop where
  conducted : q = p.conduct rs
  session : q.session = (p.acts rs).foldl Act.perform p.session
  runs : (p.acts rs).filterMap Act.chunk? = []
  reported : q.session.reporter =
    (rs.filterMap Request.refused?).foldl (fun r argument => r.warn (refusal argument))
      p.session.reporter
  errors : q.session.reporter.errors = p.session.reporter.errors
  held : Held (rs.filterMap Request.line?)
  pending : q.chunking.pending = unlines (rs.filterMap Request.line?)

theorem runsAll_conduct {p : Prompt} (hp : p.chunking.pending = []) {rs : List Request}
    (h : (p.conduct rs).chunking.pending = []) : p.RunsAll rs (p.conduct rs) := by
  obtain ⟨groups, held, hlines, hchunks, hpending, hgroups, -⟩ :=
    chunked_conduct (chunked_of_pending_nil hp) rs
  obtain rfl : held = [] := unlines_eq_nil (hpending.symm.trans h)
  rw [List.nil_append, List.append_nil] at hlines
  exact ⟨rfl, session_conduct p rs, ⟨groups, hlines, hchunks, hgroups⟩, h⟩

theorem holdsAll_conduct {p : Prompt} (hp : p.chunking.pending = []) {rs : List Request}
    (h : (p.acts rs).filterMap Act.chunk? = []) : p.HoldsAll rs (p.conduct rs) := by
  obtain ⟨groups, held, hlines, hchunks, hpending, -, hheld⟩ :=
    chunked_conduct (chunked_of_pending_nil hp) rs
  -- A group would have a chunk of its own.
  obtain rfl : groups = [] := by
    rw [List.nil_append, h, List.map_nil] at hchunks
    exact List.map_eq_nil_iff.mp hchunks.symm
  obtain rfl : held = rs.filterMap Request.line? := hlines.symm
  have hsession := session_conduct p rs
  have hreported := Act.reporter_foldl_perform h p.session
  rw [← hsession, refused_acts] at hreported
  refine ⟨rfl, hsession, h, hreported, ?_, hheld, hpending⟩
  rw [hreported, errors_foldl_warn]

/-- **What is held back at the end is lost.** Whatever is typed in, the requests are answered from
the first on, until the user leaves or a chunk is interrupted for good. They fall into two parts.
Each line of source of the first part is in a chunk, with all lines since the chunk before, and
every chunk was added to the session and run, in order. No line of source of the second part was
added to the session or is in any notice, and none makes a difference to the count of errors and
thus to the status. There are such lines exactly if the prompt shows that it waits for more. -/
theorem typed_lines_settled (s : Session) (typed : List (List Char)) :
    ∃ (front back : List Request) (q p : Prompt),
      ((start s).converse typed).2 = p ∧
      (start s).answered typed = front ++ back ∧
      front ++ back <+: (typed ++ [endLine]).map Request.ofLine ∧
      ((((start s).converse typed).1 = .ok () ∧
          ∃ before r, front ++ back = before ++ [r] ∧ r.leaves = true ∧
            ∀ r ∈ before, r.leaves = false) ∨
        ∃ i, ((start s).converse typed).1 = .error i ∧ back.filterMap Request.line? = []) ∧
      (start s).RunsAll front q ∧ q.HoldsAll back p ∧
      (p.text = "> " ↔ back.filterMap Request.line? = []) := by
  obtain ⟨front, back, hanswered, hfront, hback⟩ :=
    cut_behind_chunks (p := start s) rfl ((start s).answered typed)
  have hruns : (start s).RunsAll front _ := runsAll_conduct rfl hfront
  have hholds : ((start s).conduct front).HoldsAll back _ := holdsAll_conduct hfront hback
  have hend : ((start s).converse typed).2 = ((start s).conduct front).conduct back := by
    rw [converse_eq_conduct, hanswered, conduct_append]
  have hinStep : (((start s).conduct front).conduct back).InStep :=
    ((inStep_start s).conduct front).conduct back
  have hnone : (((start s).conduct front).conduct back).chunking.pending = [] ↔
      back.filterMap Request.line? = [] := by
    rw [hholds.pending]
    exact ⟨unlines_eq_nil, fun h => by rw [h]; rfl⟩
  refine ⟨front, back, _, _, hend, hanswered, hanswered ▸ answered_prefix _ typed, ?_, hruns,
    hholds, hinStep.text_iff.2.trans hnone⟩
  obtain ⟨hout, hleaves⟩ | ⟨i, hout, hpending⟩ := converse_ends (start s) typed
  · exact .inl ⟨hout, hanswered ▸ hleaves⟩
  · exact .inr ⟨i, hout, hnone.mp (hend ▸ hpending)⟩

end Prompt

/-- The run of a block that is not closed before the lines end, typed in and as a command. Typed in,
the line is taken for source, but neither run nor reported, and the status is that of a
run without errors. As a command, the same text is an error. -/
theorem open_block_lost :
    ((Invocation.prompt ⟨none, none, ⟨some defaultNesting, false, false⟩, false⟩).write
        intro).answered ["\x7b print nil;".toList] =
      [.source "\x7b print nil;".toList, .leave] ∧
    ((Invocation.prompt ⟨none, none, ⟨some defaultNesting, false, false⟩, false⟩).write
        intro).acts [.source "\x7b print nil;".toList, .leave] =
      [.write "> ", .write ". ", .write "\n"] ∧
    runCommandLine ["--no-color"] (fun _ => .unopened) "\x7b print nil;\n".toList =
      ⟨intro ++ "> . \n", "", .returned 0⟩ ∧
    runCommandLine ["--no-color", "-c", "\x7b print nil;\n"] (fun _ => .unopened) [] =
      ⟨"", "<command>:1: error: Expected '\x7d' after block.\n" ++
        "AtLine [1] AtToken[Token(EOF, 12, 12)]\n  \x7b print nil;\n              ^\n",
        .returned 1⟩ := by
  decide +kernel

end Scriptlet
