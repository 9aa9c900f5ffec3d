import Scriptlet.Proofs.Locality.Recovery

/-! Parsing the same tokens without a block.

An omission is a block that stands in one list of tokens and is left out of another,
with all that is lost behind it. Before the block the same tokens are ahead in both
lists (`Omission.Apart`), and behind it too; in between, the one parser is refused
the block and the other meets nothing. `Omission.Cuts` compares the replies of two
parsers of which the first has met the block: they differ by the one diagnostic.
`Omission.CutsAt` says that two parsers compare in this way if the first meets the
block at all, and there is one law for each way of building parsers. -/
namespace Scriptlet

open Scriptlet.Parser Scriptlet.Cursor

/-! ### Omissions -/

/-- A block that is left out: the brace that opens it, what is missing with it, and what is
left behind that. -/
structure Omission where
  opening : Token
  missing : List Token
  left : List Token
  brace : opening.kind = .leftBrace
  once : opening ∉ missing ++ left
  follows : ∀ t ∈ left.head?, t.kind ≠ .elseWord

namespace Omission

variable {x : Omission}

/-- What the parser notes that has no room for the block. -/
def refusal (x : Omission) : Diagnostic :=
  ⟨.tooMuchNesting, x.opening⟩

/-- Behind the tokens `ts` the block is ahead. They do not end with what may stand in front of a
branch. -/
structure Apart (x : Omission) (ts : List Token) (c c' : Cursor) : Prop where
  rest : c.rest = ts ++ x.opening :: (x.missing ++ x.left)
  rest' : c'.rest = ts ++ x.left
  final : c'.final = c.final
  delimited : c.Delimited
  once : x.opening ∉ ts
  begins : ∀ t ∈ ts.getLast?, t.kind ≠ .rightParen ∧ t.kind ≠ .elseWord

section
variable {ts us : List Token} {c c' d : Cursor}

theorem Apart.delimited' (h : x.Apart ts c c') : c'.Delimited := by
  refine ⟨by rw [h.final]; exact h.delimited.final, fun t ht => h.delimited.rest t ?_⟩
  rw [h.rest'] at ht
  rw [h.rest]
  rcases List.mem_append.mp ht with ht | ht
  · exact List.mem_append_left _ ht
  · exact List.mem_append_right _ (List.mem_cons_of_mem _ (List.mem_append_right _ ht))

theorem Apart.rest_ne_nil (h : x.Apart ts c c') : c.rest ≠ [] := by
  rw [h.rest]
  exact List.append_ne_nil_of_right_ne_nil ts (List.cons_ne_nil _ _)

theorem Apart.peek (h : x.Apart ts c c') (hne : ts ≠ []) : c'.peek = c.peek := by
  obtain ⟨t, ts, rfl⟩ := List.exists_cons_of_ne_nil hne
  rw [peek_eq h.rest, peek_eq h.rest']

theorem Apart.peek_nil (h : x.Apart [] c c') : c.peek = x.opening :=
  peek_eq h.rest

/-- What is passed of the tokens before the block is passed in both lists. -/
theorem Apart.past (h : x.Apart (us ++ ts) c c') (hd : c.Past us d) :
    ∃ d', c'.Past us d' ∧ x.Apart ts d d' := by
  have hrest : d.rest = ts ++ x.opening :: (x.missing ++ x.left) := by
    have hall := hd.rest.symm.trans h.rest
    rw [List.append_assoc] at hall
    exact List.append_cancel_left hall
  have hrest' : (c'.forward us.length).rest = ts ++ x.left := by
    rw [rest_forward, h.rest', List.append_assoc, List.drop_left]
  have hd' : c'.Past us (c'.forward us.length) :=
    ⟨by rw [hrest', h.rest', List.append_assoc], rfl⟩
  refine ⟨_, hd', hrest, hrest', by rw [hd'.final, hd.final, h.final], h.delimited.past hd,
    fun hmem => h.once (List.mem_append_right us hmem), fun t ht => h.begins t ?_⟩
  rw [List.getLast?_append, Option.mem_def.mp ht]
  rfl

/-- Where the brace is still ahead the block is. -/
theorem Apart.split (h : x.Apart ts c c') (hd : c.Past us d) (hmem : x.opening ∈ d.rest) :
    ∃ vs d', ts = us ++ vs ∧ c'.Past us d' ∧ x.Apart vs d d' := by
  obtain ⟨vs, rfl⟩ : us <+: ts := by
    rcases List.append_eq_append_iff.mp (h.rest.symm.trans hd.rest) with
      ⟨more, rfl, hmore⟩ | ⟨more, rfl, -⟩
    · cases more with
      | nil => exact ⟨[], by rw [List.append_nil, List.append_nil]⟩
      | cons t more =>
        obtain ⟨-, htail⟩ := List.cons.inj hmore
        exact absurd (by rw [htail]; exact List.mem_append_right _ hmem) x.once
    · exact ⟨more, rfl⟩
  obtain ⟨d', hd', hvs⟩ := h.past hd
  exact ⟨vs, d', rfl, hd', hvs⟩

theorem Apart.advance (h : x.Apart ts c c') (hne : ts ≠ []) :
    ∃ us, ts = c.peek :: us ∧ x.Apart us c.advance c'.advance := by
  obtain ⟨t, ts, rfl⟩ := List.exists_cons_of_ne_nil hne
  have hfirst : c.Past [t] c.advance :=
    past_cons.mpr ⟨by rw [rest_advance, h.rest]; rfl, past_nil.mpr rfl⟩
  have hall : x.Apart ([t] ++ ts) c c' := h
  obtain ⟨d', hd', hts⟩ := hall.past hfirst
  obtain rfl : d' = c'.advance := hd'.eq
  exact ⟨ts, by rw [peek_eq h.rest], hts⟩

theorem Apart.length (h : x.Apart ts c c') :
    x.left.length < c.rest.length ∧ c'.rest.length = ts.length + x.left.length := by
  rw [h.rest, h.rest', List.length_append, List.length_append, List.length_cons, List.length_append]
  exact ⟨by omega, rfl⟩

end

/-! ### Replies -/

/-- The first reply is that of a parser which has met the block, the second that of one without
it. -/
structure Cuts (x : Omission) {α : Type} (r r' : Reply α) : Prop where
  outcome : r'.outcome = r.outcome
  ahead : r'.cursor.ahead = r.cursor.ahead
  passed : r.cursor.rest.length ≤ x.left.length
  noted : ∃ before behind, r.noted = before ++ x.refusal :: behind ∧ r'.noted = before ++ behind
  frames : r'.frames ≤ r.frames

/-- If the first of two parsers meets the block, they differ in that. -/
def CutsAt (x : Omission) {α : Type} (p q : Parser α) (c c' : Cursor) : Prop :=
  x.refusal ∈ (p c).noted → x.Cuts (p c) (q c')

section
variable {α β : Type} {p q : Parser α} {f k : α → Parser β} {m n : Nat} {ts : List Token}
  {c c' d' : Cursor}

/-- Behind the block the same follows. -/
theorem Cuts.bind (h : x.Cuts (p c) (q c')) (hc : (p c).cursor.Delimited)
    (hf : ∀ a, Tracks id m n id (f a) (k a)) (hm : x.left.length ≤ m) (hn : x.left.length ≤ n) :
    x.Cuts ((p >>= f) c) ((q >>= k) c') := by
  have hpassed := h.passed
  obtain ⟨before, behind, hnoted, hnoted'⟩ := h.noted
  cases ho : (p c).outcome with
  | error e =>
    rw [bind_error ho, bind_error (h.outcome.trans ho)]
    exact ⟨rfl, h.ahead, hpassed, h.noted, h.frames⟩
  | ok a =>
    obtain ⟨d', hsame, hahead⟩ := (hf a).ahead hc (by omega) (by omega) h.ahead
    rw [bind_ok ho, bind_ok (h.outcome.trans ho), hsame]
    refine ⟨rfl, hahead, Nat.le_trans ((hf a).forward.length_le _) hpassed,
      ⟨before, behind ++ (f a (p c).cursor).noted, ?_, ?_⟩, ?_⟩
    · show (p c).noted ++ _ = _
      rw [hnoted, List.append_assoc]
      rfl
    · show (q c').noted ++ _ = _
      rw [hnoted', List.append_assoc]
    · exact Nat.max_le.mpr ⟨Nat.le_trans h.frames (Nat.le_max_left _ _), Nat.le_max_right _ _⟩

/-- Before the block the same stands in front. -/
theorem Cuts.behind {a : α} (h : x.Cuts (f a (p c).cursor) (k a d')) (ho : (p c).outcome = .ok a)
    (hq : q c' = { p c with cursor := d' }) : x.Cuts ((p >>= f) c) ((q >>= k) c') := by
  obtain ⟨before, behind, hnoted, hnoted'⟩ := h.noted
  have ho' : (q c').outcome = .ok a := by rw [hq]; exact ho
  rw [bind_ok ho, bind_ok ho', hq]
  refine ⟨h.outcome, h.ahead, h.passed, ⟨(p c).noted ++ before, behind, ?_, ?_⟩, ?_⟩
  · show (p c).noted ++ _ = _
    rw [hnoted, List.append_assoc]
  · show (p c).noted ++ _ = _
    rw [hnoted', List.append_assoc]
  · exact Nat.max_le.mpr ⟨Nat.le_max_left _ _, Nat.le_trans h.frames (Nat.le_max_right _ _)⟩

theorem cutsAt_of_noted (h : (p c).noted = []) : x.CutsAt p q c c' := by
  intro hmet
  rw [h] at hmet
  cases hmet

theorem cutsAt_inward (cost : Nat) (h : x.CutsAt p q c c') :
    x.CutsAt (inward cost p) (inward cost q) c c' := by
  intro hmet
  have hcuts := h hmet
  exact ⟨hcuts.outcome, hcuts.ahead, hcuts.passed, hcuts.noted,
    Nat.add_le_add_right hcuts.frames cost⟩

theorem cutsAt_peek_bind {f k : Token → Parser α} (hpeek : c'.peek = c.peek)
    (h : x.CutsAt (f c.peek) (k c.peek) c c') : x.CutsAt (peek >>= f) (peek >>= k) c c' := by
  rwa [CutsAt, peek_bind, peek_bind, hpeek]

theorem cutsAt_unread_bind {f k : List Token → Parser α}
    (h : x.CutsAt (f c.rest) (k c'.rest) c c') : x.CutsAt (unread >>= f) (unread >>= k) c c' := by
  rwa [CutsAt, unread_bind, unread_bind]

theorem cutsAt_skip_bind (h : x.CutsAt p q c.advance c'.advance) :
    x.CutsAt (skip >>= fun _ => p) (skip >>= fun _ => q) c c' := by
  rwa [CutsAt, skip_bind, skip_bind]

theorem cutsAt_expect_bind {kind : Kind} {fault : Fault} {f k : Token → Parser α}
    (hpeek : c'.peek = c.peek)
    (h : c.peek.kind = kind → x.CutsAt (f c.peek) (k c.peek) c.advance c'.advance) :
    x.CutsAt (expect kind fault >>= f) (expect kind fault >>= k) c c' := by
  rw [expect_bind_eq, expect_bind_eq]
  refine cutsAt_peek_bind hpeek ?_
  split
  next hk => exact cutsAt_skip_bind (h hk)
  next => exact cutsAt_of_noted rfl

/-- The block is met by a parser or by what stands behind it. In the second case it is ahead of
that, and some token is before it. -/
theorem cutsAt_bind (h : x.Apart ts c c') (hp : Tracks id m n id p q)
    (hf : ∀ a, Tracks id m n id (f a) (k a)) (hm : c.rest.length ≤ m) (hn : c'.rest.length ≤ n)
    (hfirst : x.CutsAt p q c c')
    (hahead : ∀ a, (p c).outcome = .ok a → x.refusal ∈ (f a (p c).cursor).noted →
      x.opening ∈ (p c).cursor.rest ∧ (p c).cursor.peek ≠ x.opening)
    (hsecond : ∀ a us d', us ≠ [] → x.Apart us (p c).cursor d' → (p c).cursor.rest.length ≤ m →
      d'.rest.length ≤ n → x.CutsAt (f a) (k a) (p c).cursor d') :
    x.CutsAt (p >>= f) (q >>= k) c c' := by
  intro hmet
  obtain ⟨us, hus⟩ := hp.forward c
  have hlen := h.length
  have hleft (hmet : x.refusal ∈ (p c).noted) : x.Cuts ((p >>= f) c) ((q >>= k) c') :=
    (hfirst hmet).bind (h.delimited.past hus) hf (by omega) (by omega)
  cases ho : (p c).outcome with
  | error e =>
    rw [bind_error ho] at hmet
    exact hleft hmet
  | ok a =>
    rw [bind_ok ho] at hmet
    rcases List.mem_append.mp hmet with hmet | hmet
    · exact hleft hmet
    · obtain ⟨hmem, hpeek⟩ := hahead a ho hmet
      obtain ⟨vs, d', rfl, hus', hvs⟩ := h.split hus hmem
      have hne : vs ≠ [] := by
        intro hnil
        subst hnil
        exact hpeek hvs.peek_nil
      have hshown : Shown id c (p c).cursor c' d' := ⟨us, hus, by rwa [List.map_id], hvs.peek hne⟩
      have hq := hp.agrees c c' d' h.delimited h.delimited' hm hn hshown
      rw [relocate_id] at hq
      have hpassed := hus.length
      have hpassed' := hus'.length
      exact (hsecond a vs d' hne hvs (by omega) (by omega) hmet).behind ho hq

/-- A result may be worked on. -/
theorem cutsAt_map (g : α → β) (h : x.CutsAt p q c c') (hp : Forward p) (hc : c.Delimited) :
    x.CutsAt (p >>= fun a => pure (g a)) (q >>= fun a => pure (g a)) c c' := by
  intro hmet
  have hmet : x.refusal ∈ (p c).noted := by
    cases ho : (p c).outcome with
    | error e => rwa [bind_error ho] at hmet
    | ok a =>
      rw [bind_ok ho] at hmet
      exact (List.mem_append.mp hmet).resolve_right List.not_mem_nil
  obtain ⟨us, hus⟩ := hp c
  exact (h hmet).bind (hc.past hus) (fun a => tracks_pure (g a)) (Nat.le_refl _) (Nat.le_refl _)

end

end Omission

end Scriptlet
