import Scriptlet.Decimal.Numeral
import Scriptlet.Parse.Parser

/-! Reading without a fault.

`Reads p c a d` says that the parser `p`, started at `c`, replies with `a` at `d`
and has nothing to report. The laws below turn a parser into the relation that it
computes, one for each way of building parsers, so that what a parser accepts can
be read off its definition. `Past` says which tokens stand between two cursors. -/
namespace Scriptlet

/-! ### Cursors -/

namespace Cursor

/-- The cursor behind the next `n` tokens. -/
def forward : Nat → Cursor → Cursor
  | 0, c => c
  | n + 1, c => forward n c.advance

@[simp] theorem final_advance (c : Cursor) : c.advance.final = c.final := by
  unfold advance
  split <;> rfl

@[simp] theorem rest_advance (c : Cursor) : c.advance.rest = c.rest.tail := by
  unfold advance
  split <;> simp_all

@[simp] theorem final_forward (n : Nat) (c : Cursor) : (c.forward n).final = c.final := by
  induction n generalizing c with
  | zero => rfl
  | succ n ih => rw [forward, ih, final_advance]

@[simp] theorem rest_forward (n : Nat) (c : Cursor) : (c.forward n).rest = c.rest.drop n := by
  induction n generalizing c with
  | zero => rfl
  | succ n ih => rw [forward, ih, rest_advance, List.drop_tail]

theorem forward_forward (m n : Nat) (c : Cursor) :
    (c.forward m).forward n = c.forward (m + n) := by
  induction m generalizing c with
  | zero => rw [Nat.zero_add]; rfl
  | succ m ih => rw [Nat.succ_add, forward, forward, ih]

/-- The tokens that stand between two cursors. -/
structure Past (ts : List Token) (c d : Cursor) : Prop where
  rest : c.rest = ts ++ d.rest
  eq : d = c.forward ts.length

theorem Past.final {ts : List Token} {c d : Cursor} (h : Past ts c d) : d.final = c.final := by
  rw [h.eq, final_forward]

theorem past_nil {c d : Cursor} : Past [] c d ↔ d = c :=
  ⟨fun h => h.eq, fun h => h ▸ ⟨rfl, rfl⟩⟩

theorem past_cons {t : Token} {ts : List Token} {c d : Cursor} :
    Past (t :: ts) c d ↔ c.rest = t :: c.advance.rest ∧ Past ts c.advance d := by
  constructor
  · intro ⟨hr, he⟩
    have hadvance : c.advance.rest = ts ++ d.rest := by rw [rest_advance, hr]; rfl
    exact ⟨by rw [hadvance, hr]; rfl, hadvance, he⟩
  · intro ⟨hr, hrest, he⟩
    exact ⟨by rw [hr, hrest]; rfl, he⟩

theorem past_append {ts us : List Token} {c d : Cursor} :
    Past (ts ++ us) c d ↔ ∃ m, Past ts c m ∧ Past us m d := by
  constructor
  · intro ⟨hr, he⟩
    refine ⟨c.forward ts.length, ⟨?_, rfl⟩, ⟨?_, ?_⟩⟩
    · rw [rest_forward, hr, List.append_assoc, List.drop_left]
    · rw [rest_forward, hr, List.append_assoc, List.drop_left]
    · rw [he, forward_forward, List.length_append]
  · intro ⟨m, hts, hus⟩
    exact ⟨by rw [hts.rest, hus.rest, List.append_assoc],
      by rw [hus.eq, hts.eq, forward_forward, List.length_append]⟩

/-- What all lists of tokens have in common: the end marker marks the end and nothing before
it does. -/
structure Delimited (c : Cursor) : Prop where
  final : c.final.kind = .eof
  rest : ∀ t ∈ c.rest, t.kind ≠ .eof

theorem Delimited.past {ts : List Token} {c d : Cursor} (h : c.Delimited) (hp : Past ts c d) :
    d.Delimited := by
  refine ⟨by rw [hp.final]; exact h.final, fun t ht => h.rest t ?_⟩
  rw [hp.rest]
  exact List.mem_append_right _ ht

theorem Delimited.advance {c : Cursor} (h : c.Delimited) : c.advance.Delimited := by
  refine ⟨by rw [final_advance]; exact h.final, fun t ht => h.rest t ?_⟩
  rw [rest_advance] at ht
  exact List.mem_of_mem_tail ht

theorem peek_eq {c : Cursor} {t : Token} {rest : List Token} (h : c.rest = t :: rest) :
    c.peek = t := by
  rw [peek, h]
  rfl

/-- A cursor that does not see the end has a token before it. -/
theorem Delimited.rest_eq {c : Cursor} (h : c.Delimited) (hk : c.peek.kind ≠ .eof) :
    c.rest = c.peek :: c.advance.rest := by
  cases hr : c.rest with
  | nil =>
    rw [peek, hr] at hk
    exact absurd h.final hk
  | cons t rest => rw [peek_eq hr, rest_advance, hr]; rfl

theorem Delimited.past_peek {c : Cursor} (h : c.Delimited) (hk : c.peek.kind ≠ .eof) :
    Past [c.peek] c c.advance :=
  past_cons.mpr ⟨h.rest_eq hk, past_nil.mpr rfl⟩

/-- The end marker is seen at the end only. -/
theorem Delimited.rest_eq_nil {c : Cursor} (h : c.Delimited) :
    c.rest = [] ↔ c.peek.kind = .eof := by
  constructor
  · intro hr
    rw [peek, hr]
    exact h.final
  · intro hk
    cases hr : c.rest with
    | nil => rfl
    | cons t rest =>
      rw [peek_eq hr] at hk
      exact absurd hk (h.rest t (by rw [hr]; exact List.mem_cons_self))

/-- What the tokens of every source have in common: beyond that, the numbers can be read. -/
structure Proper (c : Cursor) : Prop extends Delimited c where
  number : ∀ t ∈ c.rest, t.kind = .number → (Decimal.read? t.text).isSome

theorem Proper.past {ts : List Token} {c d : Cursor} (h : c.Proper) (hp : Past ts c d) :
    d.Proper := by
  refine ⟨h.toDelimited.past hp, fun t ht => h.number t ?_⟩
  rw [hp.rest]
  exact List.mem_append_right _ ht

theorem Proper.advance {c : Cursor} (h : c.Proper) : c.advance.Proper := by
  refine ⟨h.toDelimited.advance, fun t ht => h.number t ?_⟩
  rw [rest_advance] at ht
  exact List.mem_of_mem_tail ht

end Cursor

/-! ### Reading -/

/-- A parser reads from one cursor to another, with a result and nothing to report. -/
structure Reads {α : Type} (p : Parser α) (c : Cursor) (a : α) (d : Cursor) : Prop where
  outcome : (p c).outcome = .ok a
  cursor : (p c).cursor = d
  noted : (p c).noted = []

theorem Reads.eq {α : Type} {p : Parser α} {c d : Cursor} {a : α} (h : Reads p c a d) :
    p c = ⟨.ok a, d, [], (p c).frames⟩ := by
  rw [← h.outcome, ← h.cursor, ← h.noted]

namespace Parser

variable {α β : Type} {c d : Cursor}

theorem reads_pure {a b : α} : Reads (pure a : Parser α) c b d ↔ b = a ∧ d = c := by
  constructor
  · intro ⟨ho, hc, _⟩
    exact ⟨(Except.ok.inj ho).symm, hc.symm⟩
  · intro h
    obtain ⟨rfl, rfl⟩ := h
    exact ⟨rfl, rfl, rfl⟩

theorem reads_bind {p : Parser α} {f : α → Parser β} {b : β} :
    Reads (p >>= f) c b d ↔ ∃ a m, Reads p c a m ∧ Reads (f a) m b d := by
  constructor
  · intro ⟨ho, hc, hn⟩
    cases h : (p c).outcome with
    | error e =>
      rw [bind_error h] at ho
      cases ho
    | ok a =>
      rw [bind_ok h] at ho hc hn
      obtain ⟨hn1, hn2⟩ := List.append_eq_nil_iff.mp hn
      exact ⟨a, _, ⟨h, rfl, hn1⟩, ⟨ho, hc, hn2⟩⟩
  · intro h
    obtain ⟨a, m, ⟨ho, rfl, hn⟩, ⟨ho', rfl, hn'⟩⟩ := h
    refine ⟨?_, ?_, ?_⟩ <;> rw [bind_ok ho]
    · exact ho'
    · simp only [hn, hn', List.append_nil]

theorem not_reads_refuse {t : Token} {f : Fault} {a : α} : ¬ Reads (refuse t f) c a d :=
  fun h => by cases h.outcome

theorem not_reads_note {t : Token} {f : Fault} {u : Unit} : ¬ Reads (note t f) c u d :=
  fun h => by cases h.noted

theorem reads_inward {cost : Nat} {p : Parser α} {a : α} :
    Reads (inward cost p) c a d ↔ Reads p c a d :=
  ⟨fun h => ⟨h.outcome, h.cursor, h.noted⟩, fun h => ⟨h.outcome, h.cursor, h.noted⟩⟩

theorem reads_congr {p q : Parser α} {c' : Cursor} {a : α} (h : p c = q c') :
    Reads p c a d ↔ Reads q c' a d := by
  constructor
  · intro ⟨ho, hc, hn⟩
    rw [h] at ho hc hn
    exact ⟨ho, hc, hn⟩
  · intro ⟨ho, hc, hn⟩
    rw [← h] at ho hc hn
    exact ⟨ho, hc, hn⟩

theorem reads_skip_bind {p : Parser α} {a : α} :
    Reads (skip >>= fun _ => p) c a d ↔ Reads p c.advance a d :=
  reads_congr (skip_bind p c)

theorem reads_peek_bind {f : Token → Parser α} {a : α} :
    Reads (peek >>= f) c a d ↔ Reads (f c.peek) c a d :=
  reads_congr (peek_bind f c)

theorem reads_unread_bind {f : List Token → Parser α} {a : α} :
    Reads (unread >>= f) c a d ↔ Reads (f c.rest) c a d :=
  reads_congr (unread_bind f c)

theorem reads_atEnd_bind {f : Bool → Parser α} {a : α} :
    Reads (atEnd >>= f) c a d ↔ Reads (f c.atEnd) c a d :=
  reads_congr (atEnd_bind f c)

theorem reads_expect {kind : Kind} {f : Fault} {t : Token} :
    Reads (expect kind f) c t d ↔ t = c.peek ∧ t.kind = kind ∧ d = c.advance := by
  unfold expect
  rw [reads_peek_bind]
  split
  next hk =>
    rw [reads_skip_bind, reads_pure]
    constructor
    · intro h
      obtain ⟨rfl, rfl⟩ := h
      exact ⟨rfl, hk, rfl⟩
    · intro h
      obtain ⟨rfl, _, rfl⟩ := h
      exact ⟨rfl, rfl⟩
  next hk =>
    refine ⟨fun h => absurd h not_reads_refuse, ?_⟩
    intro h
    obtain ⟨rfl, h, _⟩ := h
    exact absurd h hk

theorem reads_expect_bind {kind : Kind} {fault : Fault} {f : Token → Parser α} {a : α} :
    Reads (expect kind fault >>= f) c a d ↔
      c.peek.kind = kind ∧ Reads (f c.peek) c.advance a d := by
  rw [reads_bind]
  constructor
  · intro ⟨t, m, hexpect, h⟩
    obtain ⟨rfl, hk, rfl⟩ := reads_expect.mp hexpect
    exact ⟨hk, h⟩
  · exact fun ⟨hk, h⟩ => ⟨_, _, reads_expect.mpr ⟨rfl, hk, rfl⟩, h⟩

/-- The parser reads what the relation says, given what kind of token follows. -/
def Recognizes (p : Parser α) (accepts : List Token → α → Kind → Prop) : Prop :=
  ∀ c a d, c.Proper → (Reads p c a d ↔ ∃ ts, c.Past ts d ∧ accepts ts a d.peek.kind)

end Parser

end Scriptlet
