import Scriptlet.Proofs.Locality.Lookahead

/-! What follows a declaration does not matter.

A declaration ends with a semicolon or a brace, and nothing looks further than
that, but for an if, which asks whether an else follows. So a declaration that is
well formed is parsed in the same way whatever stands behind it, as long as that
is no else. `Passed` is `Shown` without the token ahead, and `CompletesAt` says at
which cursors a parser needs no more than that to come to its result. -/
namespace Scriptlet

open Scriptlet.Parser Scriptlet.Cursor

namespace Cursor

variable {move : Token → Token} {c d c' d' m : Cursor}

/-- What stands between two cursors stands, moved, between two others. -/
def Passed (move : Token → Token) (c d c' d' : Cursor) : Prop :=
  ∃ ts, Past ts c d ∧ Past (ts.map move) c' d'

theorem Passed.shown (h : Passed move c d c' d') (hpeek : d'.peek = move d.peek) :
    Shown move c d c' d' := by
  obtain ⟨ts, hts, hts'⟩ := h
  exact ⟨ts, hts, hts', hpeek⟩

/-- What was ahead has been passed. -/
theorem Passed.peek (h : Passed move c d c' d') (hlt : d.rest.length < c.rest.length) :
    c'.peek = move c.peek := by
  obtain ⟨ts, hts, hts'⟩ := h
  cases ts with
  | nil =>
    obtain rfl := past_nil.mp hts
    exact absurd hlt (Nat.lt_irrefl _)
  | cons t ts => rw [peek_eq (past_cons.mp hts).1, peek_eq (past_cons.mp hts').1]

theorem Passed.split {us vs : List Token} (h : Passed move c d c' d') (hus : Past us c m)
    (hvs : Past vs m d) : ∃ m', Passed move c m c' m' ∧ Passed move m d m' d' := by
  obtain ⟨ts, hts, hts'⟩ := h
  obtain rfl := past_unique hts (past_append.mpr ⟨m, hus, hvs⟩)
  rw [List.map_append] at hts'
  obtain ⟨m', hus', hvs'⟩ := past_append.mp hts'
  exact ⟨m', ⟨us, hus, hus'⟩, ⟨vs, hvs, hvs'⟩⟩

theorem Passed.advance {us : List Token} (h : Passed move c d c' d') (hc : c.Delimited)
    (hk : c.peek.kind ≠ .eof) (hd : Past us c.advance d) :
    Passed move c.advance d c'.advance d' := by
  obtain ⟨m', ⟨ts, hts, hts'⟩, hsecond⟩ := h.split (hc.past_peek hk) hd
  obtain rfl := past_unique hts (hc.past_peek hk)
  obtain rfl := past_nil.mp (past_cons.mp hts').2
  exact hsecond

end Cursor

/-! ### Coming to a result -/

/-- With the result of the first parser, the second one comes to the same, if what was passed
is the same and no else follows. -/
def CompletesAt {α : Type} (move : Token → Token) (h : α → α) (p q : Parser α) (c c' : Cursor) :
    Prop :=
  ∀ a d', (p c).outcome = .ok a → Passed move c (p c).cursor c' d' →
    (p c).cursor.peek.kind ≠ .elseWord → d'.peek.kind ≠ .elseWord →
    q c' = (p c).relocate move h d'

section
variable {α β : Type} {move : Token → Token} {h : α → α} {k : β → β} {p q : Parser α}
  {c c' : Cursor}

theorem completesAt_refuse (t t' : Token) (fault fault' : Fault) :
    CompletesAt move h (refuse t fault) (refuse t' fault') c c' :=
  fun _ _ ho => by cases ho

theorem completesAt_inward (cost : Nat) (hp : CompletesAt move h p q c c') :
    CompletesAt move h (inward cost p) (inward cost q) c c' := by
  intro a d' ho hpassed hd hd'
  show { q c' with frames := (q c').frames + cost } = _
  rw [hp a d' ho hpassed hd hd']
  rfl

/-- Where a token is passed it has been the same for both. -/
theorem completesAt_peek_bind {f g : Token → Parser α} (hless : ConsumesAt (peek >>= f) c)
    (hf : CompletesAt move h (f c.peek) (g (move c.peek)) c c') :
    CompletesAt move h (peek >>= f) (peek >>= g) c c' := by
  intro a d' ho hpassed hd hd'
  have hpeek := hpassed.peek (hless a ho)
  rw [peek_bind] at ho hpassed hd ⊢
  rw [peek_bind, hpeek]
  exact hf a d' ho hpassed hd hd'

theorem completesAt_skip_bind (hp : Forward p) (hc : c.Delimited) (hk : c.peek.kind ≠ .eof)
    (h' : CompletesAt move h p q c.advance c'.advance) :
    CompletesAt move h (skip >>= fun _ => p) (skip >>= fun _ => q) c c' := by
  intro a d' ho hpassed hd hd'
  rw [skip_bind] at ho hpassed hd ⊢
  rw [skip_bind]
  obtain ⟨us, hus⟩ := hp c.advance
  exact h' a d' ho (hpassed.advance hc hk hus) hd hd'

theorem outcome_of_bind {f : α → Parser β} {b : β} (ho : ((p >>= f) c).outcome = .ok b) :
    ∃ a, (p c).outcome = .ok a := by
  cases hp : (p c).outcome with
  | error e =>
    rw [bind_error hp] at ho
    cases ho
  | ok a => exact ⟨a, rfl⟩

theorem completesAt_unread_bind {f g : List Token → Parser α}
    (hf : CompletesAt move h (f c.rest) (g c'.rest) c c') :
    CompletesAt move h (unread >>= f) (unread >>= g) c c' := by
  intro a d' ho hpassed hd hd'
  rw [unread_bind] at ho hpassed hd ⊢
  rw [unread_bind]
  exact hf a d' ho hpassed hd hd'

theorem completesAt_expect_bind {kind : Kind} {fault : Fault} {f g : Token → Parser α}
    (hm : Relocates move) (hc : c.Delimited) (hfound : c.peek.kind = kind) (hk : kind ≠ .eof)
    (hf : Forward (f c.peek))
    (h' : CompletesAt move h (f c.peek) (g (move c.peek)) c.advance c'.advance) :
    CompletesAt move h (expect kind fault >>= f) (expect kind fault >>= g) c c' := by
  have hskip : c.peek.kind ≠ .eof := by rwa [hfound]
  rw [expect_bind_eq, expect_bind_eq]
  refine completesAt_peek_bind (consumesAt_peek_bind ?_) ?_
  · rw [if_pos hfound]
    exact consumesAt_skip_bind hf hc hskip
  · rw [hm.kind, if_pos hfound, if_pos hfound]
    exact completesAt_skip_bind hf hc hskip h'

/-- Behind a parser that looks ahead something has to be passed. -/
theorem completesAt_bind {f g : α → Parser β} (hp : ∀ m n, Tracks move m n h p q)
    (hf : ∀ a, Forward (f a)) (hless : ∀ a, Consumes (f a)) (hc : c.Delimited) (hc' : c'.Delimited)
    (hg : ∀ a m', Shown move c (p c).cursor c' m' →
      CompletesAt move k (f a) (g (h a)) (p c).cursor m') :
    CompletesAt move k (p >>= f) (q >>= g) c c' := by
  intro b d' ho hpassed hd hd'
  obtain ⟨a, ha⟩ := outcome_of_bind ho
  obtain ⟨us, hus⟩ := (hp 0 0).forward c
  obtain ⟨vs, hvs⟩ := hf a (p c).cursor
  have heq := bind_ok ha f
  rw [heq] at ho hpassed hd
  obtain ⟨m', hfirst, hsecond⟩ := hpassed.split hus hvs
  have hshown := hfirst.shown (hsecond.peek (hless a _ (hc.past hus) b ho))
  have hq := (hp _ _).agrees c c' m' hc hc' (Nat.le_refl _) (Nat.le_refl _) hshown
  exact relocate_bind_ok ha hq (hg a m' hshown b d' ho hsecond hd hd')

theorem completesAt_seq {p q : Parser α} {f g : α → Parser β}
    (hp : ∀ m n, Tracks move m n id p q) (hf : ∀ a, Forward (f a)) (hless : ∀ a, Consumes (f a))
    (hc : c.Delimited) (hc' : c'.Delimited)
    (hg : ∀ a m', Shown move c (p c).cursor c' m' →
      CompletesAt move k (f a) (g a) (p c).cursor m') :
    CompletesAt move k (p >>= f) (q >>= g) c c' :=
  completesAt_bind hp hf hless hc hc' hg

/-- A result may be worked on. -/
theorem completesAt_map {f g : α → β} (hp : CompletesAt move h p q c c')
    (hfg : ∀ a, g (h a) = k (f a)) :
    CompletesAt move k (p >>= fun a => pure (f a)) (q >>= fun a => pure (g a)) c c' := by
  intro b d' ho hpassed hd hd'
  obtain ⟨a, ha⟩ := outcome_of_bind ho
  rw [bind_ok ha] at hpassed hd
  refine relocate_bind_ok ha (hp a d' ha hpassed hd hd') ?_
  rw [hfg]
  rfl

theorem completesAt_expect {kind : Kind} (hm : Relocates move) (hk : kind ≠ .eof) (fault : Fault)
    (hc : c.Delimited) : CompletesAt move move (expect kind fault) (expect kind fault) c c' := by
  intro t d' ho hpassed hd hd'
  by_cases hfound : c.peek.kind = kind
  · rw [expect_found hfound] at hpassed hd ⊢
    have hlen := (hc.past_peek (by rwa [hfound])).length
    rw [List.length_singleton] at hlen
    have hlt : c.advance.rest.length < c.rest.length := by omega
    have hpeek := hpassed.peek hlt
    obtain ⟨ts, hts, hts'⟩ := hpassed.advance hc (by rwa [hfound]) (past_nil.mpr rfl)
    obtain rfl := past_unique hts (past_nil.mpr rfl)
    obtain rfl := past_nil.mp hts'
    rw [expect_found (by rw [hpeek, hm.kind, hfound]), hpeek]
    rfl
  · rw [expect_missing hfound] at ho
    cases ho

end

end Scriptlet
