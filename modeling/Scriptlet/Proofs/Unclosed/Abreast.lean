import Scriptlet.Proofs.Locality.Statements

/-! Two parsers abreast, of which one has a string at the end of its tokens.

The one is given tokens that end with a string, the other the same tokens without it. They
go abreast up to the string: they pass the same tokens, enter the same levels and come to
the same results (`Abreast`). There the one may read the string as an operand, where the
other is stopped for want of one. But no statement ends with an operand; whatever the one
is to read behind it is missing, so that it is stopped as well, before it enters another
level (`Idles`). There is one law for each way of building parsers, and below them stand the
parsers of expressions. -/
namespace Scriptlet

open Scriptlet.Parser Scriptlet.Cursor

/-! ### Cursors -/

namespace Cursor

/-- Nothing is left but the end marker. -/
structure Spent (c : Cursor) : Prop where
  rest : c.rest = []
  final : c.final.kind = .eof

/-- The first cursor has one token more ahead of it than the second, at the end. -/
structure Cut (s : Token) (c d : Cursor) : Prop where
  last : c.last = d.last
  rest : c.rest = d.rest ++ [s]
  whole : c.Delimited
  short : d.Delimited

/-- Both cursors stand in front of the same tokens, but for one at the end, or both at the end. -/
def InStep (s : Token) (c d : Cursor) : Prop :=
  Cut s c d ∨ c.Spent ∧ d.Spent

variable {s : Token} {c d : Cursor}

theorem Spent.delimited (h : c.Spent) : c.Delimited :=
  ⟨h.final, by rw [h.rest]; exact fun t ht => absurd ht List.not_mem_nil⟩

theorem Spent.peek (h : c.Spent) : c.peek.kind = .eof :=
  h.delimited.rest_eq_nil.mp h.rest

theorem Spent.advance (h : c.Spent) : c.advance = c :=
  advance_of_nil h.rest

theorem InStep.whole (h : InStep s c d) : c.Delimited :=
  h.elim Cut.whole fun h => h.1.delimited

theorem InStep.short (h : InStep s c d) : d.Delimited :=
  h.elim Cut.short fun h => h.2.delimited

theorem Cut.of_rest (h : Cut s c d) (hrest : d.rest = []) :
    c.peek = s ∧ c.advance.Spent ∧ d.Spent := by
  have hone : c.rest = [s] := by rw [h.rest, hrest]; rfl
  refine ⟨peek_eq hone, ⟨by rw [rest_advance, hone]; rfl, ?_⟩, hrest, h.short.final⟩
  rw [final_advance]
  exact h.whole.final

theorem Cut.of_cons {t : Token} {rest : List Token} (h : Cut s c d) (hrest : d.rest = t :: rest) :
    c.peek = t ∧ Cut s c.advance d.advance := by
  have hcons : c.rest = t :: (rest ++ [s]) := by rw [h.rest, hrest]; rfl
  refine ⟨peek_eq hcons, ?_, ?_, h.whole.advance, h.short.advance⟩
  · rw [advance, advance, hcons, hrest]
  · rw [rest_advance, rest_advance, hcons, hrest]
    rfl

/-- The token ahead is the same, or both see the end, or the string is all that is left. -/
theorem InStep.peek (h : InStep s c d) :
    (d.peek.kind = c.peek.kind ∧ (c.peek.kind ≠ .eof → d.peek = c.peek) ∧
      InStep s c.advance d.advance) ∨
    c.peek = s ∧ c.advance.Spent ∧ d.Spent := by
  rcases h with h | ⟨hc, hd⟩
  · cases hrest : d.rest with
    | nil => exact .inr (h.of_rest hrest)
    | cons t rest =>
      obtain ⟨hpeek, hadvance⟩ := h.of_cons hrest
      have hsame : d.peek = c.peek := (peek_eq hrest).trans hpeek.symm
      exact .inl ⟨congrArg Token.kind hsame, fun _ => hsame, .inl hadvance⟩
  · left
    refine ⟨hd.peek.trans hc.peek.symm, fun hne => absurd hc.peek hne, .inr ?_⟩
    rw [hc.advance, hd.advance]
    exact ⟨hc, hd⟩

end Cursor

/-! ### Replies -/

/-- What the two parsers reply. With `reads` the first may have read the string. -/
inductive Abreast {α : Type} (s : Token) (reads : Bool) : Reply α → Reply α → Prop
  | same {a c d noted noted' n} : InStep s c d →
      Abreast s reads ⟨.ok a, c, noted, n⟩ ⟨.ok a, d, noted', n⟩
  | stopped {e e' c d noted noted' n} : InStep s c d →
      Abreast s reads ⟨.error e, c, noted, n⟩ ⟨.error e', d, noted', n⟩
  | ahead {a e c d noted noted' n} : reads = true → c.Spent → d.Spent →
      Abreast s reads ⟨.ok a, c, noted, n⟩ ⟨.error e, d, noted', n⟩

/-- The two parsers go abreast from these cursors. -/
def AbreastAt {α : Type} (s : Token) (reads : Bool) (c d : Cursor) (p q : Parser α) : Prop :=
  Abreast s reads (p c) (q d)

/-- The two parsers go abreast from wherever they are in step. -/
def GoAbreast {α : Type} (s : Token) (reads : Bool) (p q : Parser α) : Prop :=
  ∀ c d, InStep s c d → AbreastAt s reads c d p q

/-- At the end the parser stays where it is and enters no level. Without `reads` it is stopped. -/
def Idles {α : Type} (reads : Bool) (p : Parser α) : Prop :=
  ∀ c : Cursor, c.Spent → ∃ o noted, p c = ⟨o, c, noted, 0⟩ ∧ (reads = false → ∃ e, o = .error e)

section
variable {α β : Type} {s : Token} {reads ends : Bool} {p q : Parser α}

/-! ### Laws for the end -/

theorem idles_pure (a : α) : Idles true (pure a : Parser α) :=
  fun _ _ => ⟨_, _, rfl, nofun⟩

theorem idles_refuse (t : Token) (fault : Fault) : Idles reads (refuse t fault : Parser α) :=
  fun _ _ => ⟨_, _, rfl, fun _ => ⟨_, rfl⟩⟩

/-- What is stopped does not come to what is behind it. -/
theorem Idles.stops {f : α → Parser β} (hp : Idles false p) : Idles reads (p >>= f) := by
  intro c hc
  obtain ⟨o, noted, heq, hstop⟩ := hp c hc
  obtain ⟨e, rfl⟩ := hstop rfl
  have ho : (p c).outcome = .error e := by rw [heq]
  exact ⟨_, _, by rw [bind_error ho, heq], fun _ => ⟨e, rfl⟩⟩

theorem idles_peek_bind {f : Token → Parser α} (h : ∀ t, t.kind = .eof → Idles reads (f t)) :
    Idles reads (peek >>= f) := by
  intro c hc
  rw [peek_bind]
  exact h c.peek hc.peek c hc

theorem idles_unread_bind {f : List Token → Parser α} (h : ∀ bound, Idles reads (f bound)) :
    Idles reads (unread >>= f) := by
  intro c hc
  rw [unread_bind]
  exact h c.rest c hc

theorem idles_expect {kind : Kind} (hk : kind ≠ .eof) (fault : Fault) :
    Idles false (expect kind fault) := by
  intro c hc
  have hmissing : c.peek.kind ≠ kind := by
    rw [hc.peek]
    exact hk.symm
  exact ⟨_, _, expect_missing hmissing fault, fun _ => ⟨_, rfl⟩⟩

/-! ### Laws for two parsers -/

theorem abreast_pure (a : α) : GoAbreast s reads (pure a) (pure a) :=
  fun _ _ h => .same h

theorem abreast_refuse (t u : Token) (fault fault' : Fault) :
    GoAbreast s reads (refuse t fault : Parser α) (refuse u fault') :=
  fun _ _ h => .stopped h

theorem abreast_note (t u : Token) (fault fault' : Fault) :
    GoAbreast s reads (note t fault) (note u fault') :=
  fun _ _ h => .same h

theorem Abreast.of_ok {r r' : Reply α} {a : α} (h : Abreast s false r r') (hr : r.outcome = .ok a) :
    r'.outcome = .ok a ∧ r'.frames = r.frames := by
  cases h with
  | same => exact ⟨hr, rfl⟩
  | stopped => cases hr
  | ahead hreads => cases hreads

theorem Abreast.entered {r r' : Reply α} (h : Abreast s reads r r') (cost : Nat) :
    Abreast s reads { r with frames := r.frames + cost } { r' with frames := r'.frames + cost } := by
  cases h with
  | same hstep => exact .same hstep
  | stopped hstep => exact .stopped hstep
  | ahead hreads hc hd => exact .ahead hreads hc hd

theorem GoAbreast.inward (cost : Nat) (h : GoAbreast s reads p q) :
    GoAbreast s reads (inward cost p) (inward cost q) :=
  fun c d hstep => Abreast.entered (h c d hstep) cost

theorem Abreast.behind {r r' : Reply α} (h : Abreast s reads r r') (noted noted' : List Diagnostic)
    (n : Nat) :
    Abreast s reads { r with noted := noted ++ r.noted, frames := max n r.frames }
      { r' with noted := noted' ++ r'.noted, frames := max n r'.frames } := by
  cases h with
  | same hstep => exact .same hstep
  | stopped hstep => exact .stopped hstep
  | ahead hreads hc hd => exact .ahead hreads hc hd

/-- Behind an operand that may be the string stands a parser that idles at the end. -/
theorem GoAbreast.bind {f g : α → Parser β} (hp : GoAbreast s ends p q)
    (hf : ∀ a, GoAbreast s reads (f a) (g a)) (hend : ends = true → ∀ a, Idles reads (f a)) :
    GoAbreast s reads (p >>= f) (q >>= g) := by
  intro c d hstep
  suffices hreply : ∀ r r', Abreast s ends r r' → p c = r → q d = r' →
      Abreast s reads ((p >>= f) c) ((q >>= g) d) from hreply _ _ (hp c d hstep) rfl rfl
  intro r r' hfirst hr hr'
  cases hfirst with
  | @same a c' d' noted noted' n hbehind =>
    rw [bind_ok (by rw [hr]), bind_ok (by rw [hr']), hr, hr']
    exact (hf a c' d' hbehind).behind noted noted' n
  | stopped hbehind =>
    rw [bind_error (by rw [hr]), bind_error (by rw [hr']), hr, hr']
    exact .stopped hbehind
  | @ahead a e c' d' noted noted' n hends hc hd =>
    obtain ⟨o, more, heq, hstop⟩ := hend hends a c' hc
    rw [bind_ok (by rw [hr]), bind_error (by rw [hr']), hr, hr', heq, Nat.max_zero]
    cases o with
    | error e' => exact .stopped (.inr ⟨hc, hd⟩)
    | ok b =>
      cases reads with
      | false =>
        obtain ⟨_, hb⟩ := hstop rfl
        cases hb
      | true => exact .ahead rfl hc hd

/-- What does not read the string may stand in front of anything. -/
theorem GoAbreast.seq {f g : α → Parser β} (hp : GoAbreast s false p q)
    (hf : ∀ a, GoAbreast s reads (f a) (g a)) : GoAbreast s reads (p >>= f) (q >>= g) :=
  hp.bind hf nofun

theorem abreast_skip_bind {c d : Cursor} (h : GoAbreast s reads p q)
    (hadvance : InStep s c.advance d.advance) :
    AbreastAt s reads c d (skip >>= fun _ => p) (skip >>= fun _ => q) := by
  unfold AbreastAt
  rw [skip_bind, skip_bind]
  exact h _ _ hadvance

/-- Both see the same token or both see the end, unless the string is all that is left. -/
theorem abreast_peek_bind {f g : Token → Parser α}
    (hsame : ∀ c d t u, InStep s c d → u.kind = t.kind → (t.kind ≠ .eof → u = t) →
      InStep s c.advance d.advance → AbreastAt s reads c d (f t) (g u))
    (hend : ∀ c d u, InStep s c d → c.advance.Spent → d.Spent → u.kind = .eof →
      AbreastAt s reads c d (f s) (g u)) :
    GoAbreast s reads (peek >>= f) (peek >>= g) := by
  intro c d hstep
  unfold AbreastAt
  rw [peek_bind, peek_bind]
  rcases hstep.peek with ⟨hkind, htoken, hadvance⟩ | ⟨hpeek, hc, hd⟩
  · exact hsame c d _ _ hstep hkind htoken hadvance
  · rw [hpeek]
    exact hend c d _ hstep hc hd hd.peek

/-- Loops that are bounded by more than the tokens that are left do the same. -/
theorem abreast_unread_bind {f : List Token → Parser α}
    (hbound : ∀ bound bound' : List Token,
      Tracks id bound.length bound'.length id (f bound) (f bound'))
    (h : ∀ bound, GoAbreast s reads (f bound) (f bound)) :
    GoAbreast s reads (unread >>= f) (unread >>= f) := by
  intro c d hstep
  have hlen : d.rest.length ≤ c.rest.length := by
    rcases hstep with hcut | ⟨-, hd⟩
    · rw [hcut.rest, List.length_append]
      omega
    · rw [hd.rest]
      exact Nat.zero_le _
  unfold AbreastAt
  rw [unread_bind, unread_bind, (hbound c.rest d.rest).same hstep.short hlen (Nat.le_refl _)]
  exact h c.rest c d hstep

/-- A mark is found by both or by none. -/
theorem abreast_expect (hs : s.kind = .string) {kind : Kind} (hstring : kind ≠ .string)
    (heof : kind ≠ .eof) (fault : Fault) :
    GoAbreast s reads (expect kind fault) (expect kind fault) := by
  refine abreast_peek_bind (fun c d t u hstep hkind htoken hadvance => ?_)
    fun c d u hstep _ _ hu => ?_
  · rw [hkind]
    split
    next hfound =>
      obtain rfl := htoken (by rwa [hfound])
      exact abreast_skip_bind (abreast_pure _) hadvance
    next => exact abreast_refuse _ _ _ _ c d hstep
  · rw [if_neg (by rw [hs]; exact hstring.symm), if_neg (by rw [hu]; exact heof.symm)]
    exact abreast_refuse _ _ _ _ c d hstep

end

/-! ### Expressions -/

section
variable {s : Token} {inner : Inner}

theorem layers_quiet : ∀ layer ∈ layers, layer .eof = none ∧ layer .string = none := by
  simp only [layers, List.forall_mem_cons, List.not_mem_nil, false_implies, implies_true, and_self]

theorem idles_chain {layer : Layer} (hl : layer .eof = none) (operand : Parser Expr)
    (bound : List Token) (left : Expr) : Idles true (chain layer operand bound left) :=
  fun c hc => ⟨_, _, chain_stop (by rw [hc.peek, hl]) bound left, nofun⟩

theorem abreast_chain {layer : Layer} {operand : Parser Expr} (hs : s.kind = .string)
    (hl : layer .eof = none ∧ layer .string = none) (h : GoAbreast s true operand operand)
    (bound : List Token) (left : Expr) :
    GoAbreast s true (chain layer operand bound left) (chain layer operand bound left) := by
  induction bound generalizing left with
  | nil => exact abreast_pure left
  | cons t bound ih =>
    refine abreast_peek_bind (fun c d t u hstep hkind _ hadvance => ?_)
      fun c d u hstep _ _ hu => ?_
    · rw [hkind]
      split
      · exact abreast_pure left c d hstep
      · exact abreast_skip_bind (h.bind (fun right => ih _) fun _ right => idles_chain hl.1 _ _ _)
          hadvance
    · rw [hs, hu, hl.1, hl.2]
      exact abreast_pure left c d hstep

theorem abreast_operation {operand : Parser Expr} (hs : s.kind = .string)
    (ht : ∀ m n, Tracks id m n id operand operand) (h : GoAbreast s true operand operand) :
    GoAbreast s true (operation operand) (operation operand) := by
  have hlayers := layers_quiet
  unfold operation
  generalize layers = ls at hlayers
  suffices hboth : (∀ m n, Tracks id m n id (ls.foldr leftFold operand)
      (ls.foldr leftFold operand)) ∧
      GoAbreast s true (ls.foldr leftFold operand) (ls.foldr leftFold operand) from hboth.2
  induction ls with
  | nil => exact ⟨ht, h⟩
  | cons layer ls ih =>
    obtain ⟨hl, hls⟩ := List.forall_mem_cons.mp hlayers
    obtain ⟨htracks, habreast⟩ := ih hls
    have hbound (left : Expr) := fun bound bound' =>
      tracks_chain relocates_id hl.1 htracks bound bound' left
    refine ⟨fun m n => (htracks m n).seq fun left => tracks_unread_bind (hbound left), ?_⟩
    refine habreast.bind (fun left => ?_) fun _ left => idles_unread_bind fun bound =>
      idles_chain hl.1 _ _ _
    exact abreast_unread_bind (hbound left) fun bound => abreast_chain hs hl habreast bound left

/-- The one reads the string, and the other is stopped in front of the end. -/
theorem abreast_primary (hs : s.kind = .string)
    (h : ∀ t, GoAbreast s true (inner.expression t) (inner.expression t)) :
    GoAbreast s true (primary inner) (primary inner) := by
  refine abreast_peek_bind (fun c d t u hstep hkind htoken hadvance => ?_)
    fun c d u _ hc hd hu => ?_
  · rw [hkind]
    split
    case h_1 | h_2 | h_3 => exact abreast_skip_bind (abreast_pure _) hadvance
    case h_4 hk =>
      obtain rfl := htoken (by rw [hk]; decide)
      refine abreast_skip_bind ?_ hadvance
      split
      · exact abreast_pure _
      · exact abreast_refuse _ _ _ _
    case h_5 hk | h_6 hk =>
      obtain rfl := htoken (by rw [hk]; decide)
      exact abreast_skip_bind (abreast_pure _) hadvance
    case h_7 hk =>
      obtain rfl := htoken (by rw [hk]; decide)
      refine abreast_skip_bind (((h _).inward 16).bind (fun e => ?_) fun _ e => ?_) hadvance
      · exact (abreast_expect hs (by decide) (by decide) _).seq fun _ => abreast_pure e
      · exact (idles_expect (by decide) _).stops
    case h_8 | h_9 => exact abreast_refuse _ _ _ _ c d hstep
  · rw [hs, hu]
    unfold AbreastAt
    simp only [skip_bind]
    exact .ahead rfl hc hd

theorem abreast_operand (hs : s.kind = .string)
    (h : ∀ t, GoAbreast s true (inner.expression t) (inner.expression t))
    (ho : ∀ t, GoAbreast s true (inner.operand t) (inner.operand t)) :
    GoAbreast s true (operandWith inner) (operandWith inner) := by
  refine abreast_peek_bind (fun c d t u hstep hkind htoken hadvance => ?_)
    fun c d u hstep _ _ hu => ?_
  · rw [hkind]
    split
    next op hop =>
      obtain rfl := htoken fun heof => by rw [heof] at hop; cases hop
      exact abreast_skip_bind
        (((ho _).inward 1).bind (fun e => abreast_pure _) fun _ e => idles_pure _) hadvance
    next => exact abreast_primary hs h c d hstep
  · rw [hs, hu]
    exact abreast_primary hs h c d hstep

theorem abreast_expressionWith (hs : s.kind = .string)
    (ht : ∀ m n, Tracks id m n id (operandWith inner) (operandWith inner))
    (h : ∀ t, GoAbreast s true (inner.expression t) (inner.expression t))
    (ho : ∀ t, GoAbreast s true (inner.operand t) (inner.operand t)) :
    GoAbreast s true (expressionWith inner) (expressionWith inner) := by
  refine (abreast_operation hs ht (abreast_operand hs h ho)).bind (fun target => ?_)
    fun _ target => idles_peek_bind fun t heof => ?_
  · refine abreast_peek_bind (fun c d t u hstep hkind htoken hadvance => ?_)
      fun c d u hstep _ _ hu => ?_
    · rw [hkind]
      split
      next hk =>
        obtain rfl := htoken (by rw [hk]; decide)
        refine abreast_skip_bind (((h _).inward 1).bind (fun value => ?_) fun _ value => ?_)
          hadvance
        · split
          · exact abreast_pure _
          · exact (abreast_note _ _ _ _).seq fun _ => abreast_pure _
        · split
          · exact idles_pure _
          · exact fun c hc => ⟨_, _, rfl, nofun⟩
      next => exact abreast_pure target c d hstep
    · rw [hs, hu]
      exact abreast_pure target c d hstep
  · rw [if_neg (by rw [heof]; decide)]
    exact idles_pure _

end

theorem abreast_inner {s : Token} (hs : s.kind = .string) (room : Nat) (t : Token) :
    GoAbreast s true ((inner room).expression t) ((inner room).expression t) ∧
      GoAbreast s true ((inner room).operand t) ((inner room).operand t) := by
  induction room generalizing t with
  | zero => exact ⟨abreast_refuse _ _ _ _, abreast_refuse _ _ _ _⟩
  | succ room ih =>
    have ht := fun m n => tracks_operand relocates_id (m := m) (n := n)
      (fun t => (tracks_inner relocates_id room m n t).1)
      fun t => (tracks_inner relocates_id room m n t).2
    exact ⟨abreast_expressionWith hs ht (fun t => (ih t).1) fun t => (ih t).2,
      abreast_operand hs (fun t => (ih t).1) fun t => (ih t).2⟩

theorem abreast_expression {s : Token} (hs : s.kind = .string) (room : Nat) :
    GoAbreast s true (expression room) (expression room) :=
  (abreast_inner hs (room + 1) s).1

/-- There is no expression at the end. -/
theorem idles_expression (room : Nat) : Idles false (expression room) := by
  have hoperand : Idles false (operandWith (inner room)) := by
    refine idles_peek_bind fun t ht => ?_
    rw [ht]
    refine idles_peek_bind fun u hu => ?_
    rw [hu]
    exact idles_refuse u _
  have hoperation : Idles false (operation (operandWith (inner room))) := by
    unfold operation
    induction layers with
    | nil => exact hoperand
    | cons layer ls ih => exact ih.stops
  exact hoperation.stops

end Scriptlet
