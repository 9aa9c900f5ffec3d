import Scriptlet.Proofs.Faults.Declarations

/-! The loops of the parser end.

A loop goes from state to state by rounds until there is no other round, and it ends
if every round makes less of something (`Rests`, `ends_of_less`). Here it is the
tokens that are unread. The parser repeats things in five places: declarations of a
source and of a block, arms of a chain of ifs, and two ways of passing over tokens
behind what is malformed. Each of them is stated as a loop that knows no bound, and
ends where the parser, which goes by a bound, comes to. -/
namespace Scriptlet

open Scriptlet.Parser Scriptlet.Cursor

/-- What stopped a parser. -/
def Reply.raised {α : Type} (r : Reply α) : Option Diagnostic :=
  match r.outcome with
  | .ok _ => none
  | .error d => some d

/-- What is made of a result changes neither the place nor the fault. -/
theorem ends_map {α β : Type} (p : Parser α) (f : α → β) (c : Cursor) :
    ((p >>= fun a => pure (f a)) c).cursor = (p c).cursor ∧
      ((p >>= fun a => pure (f a)) c).raised = (p c).raised := by
  cases ho : (p c).outcome with
  | ok a =>
    rw [bind_ok ho]
    exact ⟨rfl, by simp only [Reply.raised, ho]; rfl⟩
  | error e =>
    rw [bind_error ho]
    exact ⟨rfl, by simp only [Reply.raised, ho]⟩

/-! ### Loops -/

/-- A loop comes to rest at `t`, so many rounds after `s`. -/
inductive Rests {σ : Type} (round : σ → Option σ) : Nat → σ → σ → Prop
  | rest {s} : round s = none → Rests round 0 s s
  | turn {s t u n} : round s = some t → Rests round n t u → Rests round (n + 1) s u

/-- A loop ends whose rounds leave less of something. What its rounds do not change is found at
its end. -/
theorem ends_of_less {σ τ : Type} {round : σ → Option σ} {good : σ → Prop} (left : σ → Nat)
    (f : σ → τ)
    (h : ∀ s t, good s → round s = some t → good t ∧ left t < left s ∧ f t = f s) {s : σ}
    (hs : good s) :
    ∃ n ≤ left s, ∃ t, Rests round n s t ∧ round t = none ∧ good t ∧ f t = f s := by
  generalize hleft : left s = size
  induction size using Nat.strongRecOn generalizing s with
  | ind size ih =>
    cases hround : round s with
    | none => exact ⟨0, Nat.zero_le _, s, .rest hround, hround, hs, rfl⟩
    | some t =>
      obtain ⟨ht, hless, hsame⟩ := h s t hs hround
      rw [hleft] at hless
      obtain ⟨n, hn, u, hrests, hend, hu, hkept⟩ := ih _ hless ht rfl
      exact ⟨n + 1, Nat.lt_of_le_of_lt hn hless, u, .turn hround hrests, hend, hu,
        hkept.trans hsame⟩

/-! ### Passing over tokens -/

/-- One round of resuming. -/
def resumeRound (inBlock : Bool) (c : Cursor) : Option Cursor :=
  match c.rest with
  | [] => none
  | t :: _ => if resumesBefore inBlock c t then none else some c.advance

/-- Resuming comes to where its loop ends. -/
theorem rests_resume (inBlock : Bool) (c : Cursor) :
    ∃ n ≤ c.rest.length, Rests (resumeRound inBlock) n c (c.resume inBlock) := by
  have hturn (s t : Cursor) (_ : True) (hround : resumeRound inBlock s = some t) :
      True ∧ t.rest.length < s.rest.length ∧ t.resume inBlock = s.resume inBlock := by
    unfold resumeRound at hround
    split at hround
    next => cases hround
    next u rest hr =>
      split at hround
      next => cases hround
      next hgo =>
        cases hround
        refine ⟨trivial, ?_, (resume_go hr (Bool.eq_false_iff.mpr hgo)).symm⟩
        rw [rest_advance, hr]
        exact Nat.lt_succ_self _
  obtain ⟨n, hn, d, hrests, hend, -, hkept⟩ := ends_of_less _ _ hturn (s := c) trivial
  suffices hd : d.resume inBlock = d from ⟨n, hn, by rwa [← hkept, hd]⟩
  unfold resumeRound at hend
  split at hend
  next hr => exact resume_nil hr
  next t rest hr =>
    split at hend
    next hstop => exact resume_stop hr hstop
    next => cases hend

/-- One round of skipping a block, with so many open braces. -/
def skipRound (s : Nat × Cursor) : Option (Nat × Cursor) :=
  match s.1, s.2.rest with
  | level + 1, t :: _ => some (levelBehind level t.kind, s.2.advance)
  | _, _ => none

/-- Skipping a block comes to where its loop ends. -/
theorem rests_skipBlock (level : Nat) (c : Cursor) :
    ∃ n ≤ c.rest.length, ∃ l, Rests skipRound n (level, c) (l, c.skipBlock level) := by
  have hturn (s t : Nat × Cursor) (_ : True) (hround : skipRound s = some t) :
      True ∧ t.2.rest.length < s.2.rest.length ∧ t.2.skipBlock t.1 = s.2.skipBlock s.1 := by
    unfold skipRound at hround
    split at hround
    next level u rest hlevel hr =>
      cases hround
      refine ⟨trivial, ?_, ?_⟩
      · rw [rest_advance, hr]
        exact Nat.lt_succ_self _
      · rw [hlevel, skipBlock_go hr]
    next => cases hround
  obtain ⟨n, hn, ⟨l, d⟩, hrests, hend, -, hkept⟩ := ends_of_less _ _ hturn (s := (level, c)) trivial
  suffices hd : d.skipBlock l = d from ⟨n, hn, l, by rwa [← hkept, hd]⟩
  cases l with
  | zero => exact skipBlock_zero
  | succ l =>
    cases hr : d.rest with
    | nil => exact skipBlock_nil hr _
    | cons t rest => simp [skipRound, hr] at hend

/-! ### Arms -/

/-- An arm of a chain of ifs: the last one, or one that another arm follows. -/
inductive Arm where
  | last (s : Stmt)
  | more (condition : Expr) (yes : Stmt)

section
variable {expr : Parser Expr} {body : Body}

/-- What stands behind an else, but for the arms that may follow. -/
def elseHead (body : Body) (condition : Expr) (yes : Stmt) (t : Token) : Parser Arm := do
  if (← peek).kind = .ifWord then
    skip
    return .more condition yes
  else
    return .last (.branch condition yes (some (← inward 2 (body.branch t))))

/-- An arm, behind the if and up to the one that begins the next arm. -/
def armHead (expr : Parser Expr) (body : Body) : Parser Arm := do
  let _ ← expect .leftParen (.expectedMark .leftParen .ifWord)
  let condition ← expr
  let close ← expect .rightParen (.expectedMark .rightParen .condition)
  let yes ← inward 2 (body.branch close)
  let t ← peek
  if t.kind = .elseWord then
    skip
    elseHead body condition yes t
  else return .last (.branch condition yes none)

/-- The statement of an arm, with the arms that follow. -/
def Arm.complete (more : Parser Stmt) : Arm → Parser Stmt
  | .last s => return s
  | .more condition yes => do return .branch condition yes (some (← more))

/-- A chain of ifs is its first arm and what follows it. -/
theorem ifChain_eq (t : Token) (bound : List Token) :
    ifChain expr body (t :: bound) =
      armHead expr body >>= Arm.complete (ifChain expr body bound) := by
  simp only [ifChain, arm, otherwise, elseArm, armHead, elseHead, bind_assoc]
  refine bind_congr fun _ => bind_congr fun condition => bind_congr fun close =>
    bind_congr fun yes => bind_congr fun t => ?_
  split
  · simp only [bind_assoc]
    refine bind_congr fun _ => bind_congr fun next => ?_
    split <;> simp only [bind_assoc, pure_bind, Arm.complete]
  · simp only [pure_bind, Arm.complete]

/-- One round over the arms: it is the last one if no other if follows, or if it is malformed. -/
def armRound (expr : Parser Expr) (body : Body) (c : Cursor) : Option Cursor :=
  match (armHead expr body c).outcome with
  | .ok (.more _ _) => some (armHead expr body c).cursor
  | _ => none

theorem consumes_armHead (he : Forward expr) (hb : ∀ t, Forward (body.branch t)) :
    Forward (armHead expr body) ∧ Consumes (armHead expr body) := by
  have hrest (t : Token) : Forward (do
      let condition ← expr
      let close ← expect .rightParen (.expectedMark .rightParen .condition)
      let yes ← inward 2 (body.branch close)
      let t ← peek
      if t.kind = .elseWord then
        skip
        elseHead body condition yes t
      else return Arm.last (.branch condition yes none)) := by
    refine forward_bind he fun condition => forward_bind (forward_expect _ _) fun close =>
      forward_bind (hb close) fun yes => forward_bind (fun c => ⟨[], past_nil.mpr rfl⟩) fun t => ?_
    split
    · refine forward_bind forward_skip fun _ =>
        forward_bind (fun c => ⟨[], past_nil.mpr rfl⟩) fun next => ?_
      split
      · exact forward_bind forward_skip fun _ => forward_pure _
      · exact forward_bind (hb t) fun no => forward_pure _
    · exact forward_pure _
  exact ⟨forward_bind (forward_expect _ _) hrest, (consumes_expect (by decide) _).bind hrest⟩

/-- The last arm of a chain of ifs is all of it that is left. -/
theorem ifChain_last {c : Cursor} (hc : c.Delimited) (h : armRound expr body c = none) :
    (ifChain expr body c.rest c).cursor = (armHead expr body c).cursor ∧
      (ifChain expr body c.rest c).raised = (armHead expr body c).raised := by
  cases hr : c.rest with
  | nil =>
    have hmissing : c.peek.kind ≠ .leftParen := by
      rw [hc.rest_eq_nil.mp hr]
      decide
    have hhead : armHead expr body c =
        ⟨.error ⟨.expectedMark .leftParen .ifWord, c.peek⟩, c, [], 0⟩ := by
      rw [armHead, bind_error (by rw [expect_missing hmissing]), expect_missing hmissing]
    rw [ifChain_refuse hmissing, hhead]
    exact ⟨rfl, rfl⟩
  | cons t bound =>
    rw [ifChain_eq]
    unfold armRound at h
    cases ho : (armHead expr body c).outcome with
    | error e =>
      rw [bind_error ho]
      exact ⟨rfl, by simp only [Reply.raised, ho]⟩
    | ok head =>
      rw [bind_ok ho]
      cases head with
      | last s => exact ⟨rfl, by simp only [Reply.raised, ho]; rfl⟩
      | more condition yes => simp [ho] at h

/-- A chain of ifs comes to where the loop over its arms ends, and it is stopped by what stops
the last one of them. -/
theorem rests_ifChain (he : ∀ m n, Tracks id m n id expr expr)
    (hb : ∀ m n t, Tracks id m n id (body.branch t) (body.branch t)) {c : Cursor}
    (hc : c.Delimited) :
    ∃ n ≤ c.rest.length, ∃ d, Rests (armRound expr body) n c d ∧
      (ifChain expr body c.rest c).cursor = (armHead expr body d).cursor ∧
      (ifChain expr body c.rest c).raised = (armHead expr body d).raised := by
  obtain ⟨hforward, hconsumes⟩ := consumes_armHead (he 0 0).forward fun t => (hb 0 0 t).forward
  let left := fun d : Cursor => d.rest.length
  let whole := fun d : Cursor =>
    ((ifChain expr body d.rest d).cursor, (ifChain expr body d.rest d).raised)
  have hturn (s t : Cursor) (hs : s.Delimited) (hround : armRound expr body s = some t) :
      t.Delimited ∧ left t < left s ∧ whole t = whole s := by
    unfold armRound at hround
    split at hround
    next condition yes hok =>
      cases hround
      obtain ⟨us, hus⟩ := hforward s
      have hless := hconsumes s hs _ hok
      refine ⟨hs.past hus, hless, ?_⟩
      obtain ⟨t, bound, hr⟩ : ∃ t bound, s.rest = t :: bound :=
        List.exists_cons_of_length_pos (Nat.lt_of_le_of_lt (Nat.zero_le _) hless)
      rw [hr, List.length_cons] at hless
      have hsame := (tracks_ifChain relocates_id he hb bound
        (armHead expr body s).cursor.rest).same (hs.past hus) (Nat.le_of_lt_succ hless)
        (Nat.le_refl _)
      obtain ⟨hcursor, hraised⟩ := ends_map (ifChain expr body bound)
        (fun no => Stmt.branch condition yes (some no)) (armHead expr body s).cursor
      refine Prod.ext ?_ ?_
      · simp only [whole, hsame, hr, ifChain_eq, bind_ok hok]
        exact hcursor.symm
      · simp only [whole, hsame, hr, ifChain_eq, bind_ok hok]
        exact hraised.symm
    next => cases hround
  obtain ⟨n, hn, d, hrests, hend, hd, hkept⟩ := ends_of_less left whole hturn hc
  obtain ⟨hcursor, hraised⟩ := Prod.mk.inj hkept
  obtain ⟨hlast, hlast'⟩ := ifChain_last hd hend
  exact ⟨n, hn, d, hrests, hcursor.symm.trans hlast, hraised.symm.trans hlast'⟩

end

/-! ### Declarations -/

/-- What a loop over declarations has come to. -/
structure Gathered where
  cursor : Cursor
  statements : List Stmt
  noted : List Diagnostic
  frames : Nat

section
variable {inBlock : Bool} {p : Parser Stmt}

/-- One round over declarations, up to the end or, inside a block, to a closing brace. -/
def declarationsRound (inBlock : Bool) (p : Parser Stmt) (s : Gathered) : Option Gathered :=
  if sequenceStops inBlock s.cursor then none
  else
    let one := recovering inBlock p s.cursor
    some ⟨one.cursor, s.statements ++ (one.outcome.toOption.getD none).toList,
      s.noted ++ one.noted, max s.frames one.frames⟩

/-- A sequence is what the loop over its declarations gathers. -/
theorem rests_sequence (hp : ∀ m n, Tracks id m n id p p) (hconsumes : Consumes p) {c : Cursor}
    (hc : c.Delimited) :
    ∃ n ≤ c.rest.length, ∃ t, Rests (declarationsRound inBlock p) n ⟨c, [], [], 0⟩ t ∧
      sequence inBlock (recovering inBlock p) c.rest c =
        ⟨.ok t.statements, t.cursor, t.noted, t.frames⟩ := by
  have hone := fun m n => tracks_recovering relocates_id inBlock (hp m n)
  have hprogresses := progresses_recovering inBlock (hp 0 0).forward hconsumes
  let left := fun s : Gathered => s.cursor.rest.length
  let whole := fun s : Gathered => (sequence inBlock (recovering inBlock p) s.cursor.rest
    s.cursor).inFront s.statements s.noted s.frames
  have hturn (s t : Gathered) (hs : s.cursor.Delimited)
      (hround : declarationsRound inBlock p s = some t) :
      t.cursor.Delimited ∧ left t < left s ∧ whole t = whole s := by
    unfold declarationsRound at hround
    split at hround
    next => cases hround
    next hgo =>
      cases hround
      have hstop := Bool.eq_false_iff.mpr hgo
      obtain ⟨us, hus⟩ := (hone 0 0).forward s.cursor
      obtain ⟨hrest, -⟩ : s.cursor.rest ≠ [] ∧
          (inBlock = true → s.cursor.peek.kind ≠ .rightBrace) := by
        simpa [sequenceStops] using hstop
      have hless := hprogresses s.cursor hs hrest
      refine ⟨hs.past hus, hless, ?_⟩
      obtain ⟨t, bound, hr⟩ := List.exists_cons_of_ne_nil hrest
      rw [hr, List.length_cons] at hless
      have hsame : sequence inBlock (recovering inBlock p)
          (recovering inBlock p s.cursor).cursor.rest (recovering inBlock p s.cursor).cursor =
            sequence inBlock (recovering inBlock p) bound (recovering inBlock p s.cursor).cursor :=
        (tracks_sequence relocates_id hone hprogresses bound _).same (hs.past hus)
          (Nat.le_of_lt_succ hless) (Nat.le_refl _)
      obtain ⟨o, ho⟩ := recovering_ok inBlock p s.cursor
      have hreply : recovering inBlock p s.cursor = ⟨.ok o, (recovering inBlock p s.cursor).cursor,
          (recovering inBlock p s.cursor).noted, (recovering inBlock p s.cursor).frames⟩ := by
        rw [← ho]
      simp only [whole, hsame, hr, ho, sequence_step hstop hreply t bound, inFront_inFront]
      rfl
  obtain ⟨n, hn, t, hrests, hend, -, hkept⟩ :=
    ends_of_less left whole hturn (s := ⟨c, [], [], 0⟩) hc
  refine ⟨n, hn, t, hrests, ?_⟩
  have hstop : sequenceStops inBlock t.cursor = true := by
    unfold declarationsRound at hend
    split at hend
    next hstop => exact hstop
    next => cases hend
  simp only [whole, inFront_nil, sequence_stop hstop] at hkept
  rw [← hkept]
  simp only [Reply.inFront, Except.map, List.append_nil, Nat.max_zero]

end

/-! ### All loops -/

/-- From `c` on every loop of the parser ends, after no more rounds than there are tokens. -/
structure LoopsEnd (room : Nat) (c : Cursor) : Prop where
  declarations : ∀ inBlock, ∃ n ≤ c.rest.length, ∃ t,
    Rests (declarationsRound inBlock (declarationWith (expression room) (body room))) n
        ⟨c, [], [], 0⟩ t ∧
      sequence inBlock (recovering inBlock (declarationWith (expression room) (body room))) c.rest c =
        ⟨.ok t.statements, t.cursor, t.noted, t.frames⟩
  arms : ∃ n ≤ c.rest.length, ∃ d, Rests (armRound (expression room) (body room)) n c d ∧
    (ifChain (expression room) (body room) c.rest c).cursor =
        (armHead (expression room) (body room) d).cursor ∧
      (ifChain (expression room) (body room) c.rest c).raised =
        (armHead (expression room) (body room) d).raised
  resuming : ∀ inBlock, ∃ n ≤ c.rest.length, Rests (resumeRound inBlock) n c (c.resume inBlock)
  skipping : ∀ level, ∃ n ≤ c.rest.length, ∃ l,
    Rests skipRound n (level, c) (l, c.skipBlock level)

theorem loops_end (room : Nat) {c : Cursor} (hc : c.Delimited) : LoopsEnd room c where
  declarations _ :=
    rests_sequence (tracks_declaration_room relocates_id room) (declaration_facts room).2 hc
  arms := rests_ifChain (tracks_expression relocates_id room)
    (fun m n t => (tracks_body relocates_id room m n t).1) hc
  resuming inBlock := rests_resume inBlock c
  skipping level := rests_skipBlock level c

end Scriptlet
