import Scriptlet.Parse.Statement
import Scriptlet.Proofs.Parsing.Reading

/-! Parsers look one token ahead.

What a parser does is decided by the tokens that it passes and by the one it comes
to, and only their kinds and texts count. `Tracks` says so of two parsers that do
the same work on two lists of tokens: where the second list shows what the first
one does, moved by `move`, the replies are the same up to the move. Beyond the
token that they come to the lists may differ.

The laws below give this for each way of building parsers. Loops are bounded by
the tokens that are left, of which the two lists may have different numbers; so
`Tracks` takes the numbers that the bounds allow for. -/
namespace Scriptlet

/-- Tokens are moved to other places and keep their kinds and texts. -/
structure Relocates (move : Token → Token) : Prop where
  kind : ∀ t, (move t).kind = t.kind
  text : ∀ t, (move t).text = t.text

theorem relocates_id : Relocates id :=
  ⟨fun _ => rfl, fun _ => rfl⟩

theorem Relocates.stringValue {move : Token → Token} (h : Relocates move) (t : Token) :
    (move t).stringValue = t.stringValue := by
  unfold Token.stringValue Token.isClosed
  rw [h.text]

/-- A diagnostic about the moved token. -/
def Diagnostic.relocate (move : Token → Token) (d : Diagnostic) : Diagnostic :=
  ⟨d.fault, move d.token⟩

/-- A reply that is given elsewhere. -/
def Reply.relocate {α : Type} (move : Token → Token) (f : α → α) (d : Cursor) (r : Reply α) :
    Reply α :=
  ⟨(r.outcome.map f).mapError (Diagnostic.relocate move), d,
    r.noted.map (Diagnostic.relocate move), r.frames⟩

namespace Cursor

theorem past_unique {ts us : List Token} {c d : Cursor} (h : Past ts c d) (h' : Past us c d) :
    ts = us :=
  List.append_cancel_right (h.rest.symm.trans h'.rest)

theorem Past.length {ts : List Token} {c d : Cursor} (h : Past ts c d) :
    c.rest.length = ts.length + d.rest.length := by
  rw [h.rest, List.length_append]

/-- What stands between two cursors and ahead of the second stands, moved, between two
others and ahead. -/
def Shown (move : Token → Token) (c d c' d' : Cursor) : Prop :=
  ∃ ts, Past ts c d ∧ Past (ts.map move) c' d' ∧ d'.peek = move d.peek

variable {move : Token → Token} {c d m c' d' : Cursor}

theorem shown_refl : Shown move c c c' d' ↔ d' = c' ∧ c'.peek = move c.peek := by
  constructor
  · intro ⟨ts, hts, hts', hpeek⟩
    obtain rfl := past_unique hts (past_nil.mpr rfl)
    obtain rfl := past_nil.mp hts'
    exact ⟨rfl, hpeek⟩
  · intro h
    obtain ⟨rfl, hpeek⟩ := h
    exact ⟨[], past_nil.mpr rfl, past_nil.mpr rfl, hpeek⟩

theorem Shown.peek (h : Shown move c d c' d') : c'.peek = move c.peek := by
  obtain ⟨ts, hts, hts', hpeek⟩ := h
  cases ts with
  | nil =>
    obtain rfl := past_nil.mp hts
    obtain rfl := past_nil.mp hts'
    exact hpeek
  | cons t ts =>
    rw [peek_eq (past_cons.mp hts).1, peek_eq (past_cons.mp hts').1]

/-- What is shown on a way is shown on its parts. -/
theorem Shown.split {us vs : List Token} (h : Shown move c d c' d') (hus : Past us c m)
    (hvs : Past vs m d) : ∃ m', Shown move c m c' m' ∧ Shown move m d m' d' := by
  obtain ⟨ts, hts, hts', hpeek⟩ := h
  obtain rfl := past_unique hts (past_append.mpr ⟨m, hus, hvs⟩)
  rw [List.map_append] at hts'
  obtain ⟨m', hus', hvs'⟩ := past_append.mp hts'
  have hrest : Shown move m d m' d' := ⟨vs, hvs, hvs', hpeek⟩
  exact ⟨m', ⟨us, hus, hus', hrest.peek⟩, hrest⟩

theorem Shown.delimited (h : Shown move c d c' d') (hc : c.Delimited) (hc' : c'.Delimited) :
    d.Delimited ∧ d'.Delimited := by
  obtain ⟨ts, hts, hts', _⟩ := h
  exact ⟨hc.past hts, hc'.past hts'⟩

theorem Shown.length_le (h : Shown move c d c' d') :
    d.rest.length ≤ c.rest.length ∧ d'.rest.length ≤ c'.rest.length := by
  obtain ⟨ts, hts, hts', _⟩ := h
  have := hts.length
  have := hts'.length
  omega

theorem Shown.length_lt (h : Shown move c d c' d') (hlt : d.rest.length < c.rest.length) :
    d'.rest.length < c'.rest.length := by
  obtain ⟨ts, hts, hts', _⟩ := h
  have hlen := hts.length
  have hlen' := hts'.length
  rw [List.length_map] at hlen'
  omega

theorem advance_of_nil (h : c.rest = []) : c.advance = c := by
  rw [advance, h]

theorem past_advance (c : Cursor) : ∃ ts, Past ts c c.advance := by
  cases hr : c.rest with
  | nil => exact ⟨[], past_nil.mpr (advance_of_nil hr)⟩
  | cons t rest => exact ⟨[t], past_cons.mpr ⟨by rw [rest_advance, hr]; rfl, past_nil.mpr rfl⟩⟩

theorem Shown.kind (h : Shown move c d c' d') (hm : Relocates move) :
    c'.peek.kind = c.peek.kind := by
  rw [h.peek, hm.kind]

theorem Shown.rest_eq_nil (h : Shown move c d c' d') (hm : Relocates move) (hc : c.Delimited)
    (hc' : c'.Delimited) : c'.rest = [] ↔ c.rest = [] := by
  rw [hc'.rest_eq_nil, hc.rest_eq_nil, h.kind hm]

theorem Shown.advance {us : List Token} (h : Shown move c d c' d') (hm : Relocates move)
    (hc : c.Delimited) (hc' : c'.Delimited) (hd : Past us c.advance d) :
    Shown move c.advance d c'.advance d' := by
  cases hr : c.rest with
  | nil =>
    rwa [advance_of_nil hr, advance_of_nil ((h.rest_eq_nil hm hc hc').mpr hr)]
  | cons t rest =>
    have hfirst : Past [t] c c.advance :=
      past_cons.mpr ⟨by rw [rest_advance, hr]; rfl, past_nil.mpr rfl⟩
    obtain ⟨m', ⟨ts, hts, hts', _⟩, hsecond⟩ := h.split hfirst hd
    obtain rfl := past_unique hts hfirst
    obtain rfl := past_nil.mp (past_cons.mp hts').2
    exact hsecond

end Cursor

open Scriptlet.Parser Scriptlet.Cursor

/-! ### Going forward -/

/-- A parser passes tokens and never goes back. -/
def Forward {α : Type} (p : Parser α) : Prop :=
  ∀ c : Cursor, ∃ ts, c.Past ts (p c).cursor

theorem forward_bind {α β : Type} {p : Parser α} {f : α → Parser β} (hp : Forward p)
    (hf : ∀ a, Forward (f a)) : Forward (p >>= f) := by
  intro c
  obtain ⟨us, hus⟩ := hp c
  cases ho : (p c).outcome with
  | error e => exact ⟨us, by rw [bind_error ho]; exact hus⟩
  | ok a =>
    obtain ⟨vs, hvs⟩ := hf a (p c).cursor
    rw [bind_ok ho]
    exact ⟨us ++ vs, past_append.mpr ⟨_, hus, hvs⟩⟩

theorem forward_pure {α : Type} (a : α) : Forward (pure a : Parser α) :=
  fun _ => ⟨[], past_nil.mpr rfl⟩

theorem forward_skip : Forward skip :=
  past_advance

theorem forward_expect (kind : Kind) (fault : Fault) : Forward (expect kind fault) := by
  refine forward_bind (fun c => ⟨[], past_nil.mpr rfl⟩) fun t => ?_
  split
  · exact forward_bind forward_skip fun _ => forward_pure t
  · exact fun c => ⟨[], past_nil.mpr rfl⟩

theorem Forward.length_le {α : Type} {p : Parser α} (h : Forward p) (c : Cursor) :
    (p c).cursor.rest.length ≤ c.rest.length := by
  obtain ⟨ts, hts⟩ := h c
  have := hts.length
  omega

/-! ### Consuming -/

/-- Where a parser ends with a result it has passed a token. -/
def ConsumesAt {α : Type} (p : Parser α) (c : Cursor) : Prop :=
  ∀ a, (p c).outcome = .ok a → (p c).cursor.rest.length < c.rest.length

def Consumes {α : Type} (p : Parser α) : Prop :=
  ∀ c : Cursor, c.Delimited → ConsumesAt p c

section
variable {α β : Type} {p : Parser α} {c : Cursor}

theorem consumesAt_refuse (t : Token) (fault : Fault) :
    ConsumesAt (refuse t fault : Parser α) c :=
  fun _ h => by cases h

theorem consumesAt_peek_bind {f : Token → Parser α} (h : ConsumesAt (f c.peek) c) :
    ConsumesAt (peek >>= f) c := by
  intro a
  rw [peek_bind]
  exact h a

theorem consumesAt_skip_bind (hp : Forward p) (hc : c.Delimited) (hk : c.peek.kind ≠ .eof) :
    ConsumesAt (skip >>= fun _ => p) c := by
  intro a _
  rw [skip_bind]
  have := hp.length_le c.advance
  have := (hc.past_peek hk).length
  rw [List.length_singleton] at this
  omega

theorem Consumes.bind {f : α → Parser β} (hp : Consumes p) (hf : ∀ a, Forward (f a)) :
    Consumes (p >>= f) := by
  intro c hc b hb
  cases ho : (p c).outcome with
  | error e =>
    rw [bind_error ho] at hb
    cases hb
  | ok a =>
    rw [bind_ok ho]
    exact Nat.lt_of_le_of_lt ((hf a).length_le _) (hp c hc a ho)

theorem Forward.consumes_bind {f : α → Parser β} (hp : Forward p) (hf : ∀ a, Consumes (f a)) :
    Consumes (p >>= f) := by
  intro c hc b hb
  obtain ⟨ts, hts⟩ := hp c
  cases ho : (p c).outcome with
  | error e =>
    rw [bind_error ho] at hb
    cases hb
  | ok a =>
    rw [bind_ok ho] at hb ⊢
    exact Nat.lt_of_lt_of_le (hf a _ (hc.past hts) b hb) (hp.length_le c)

theorem consumes_expect {kind : Kind} (hk : kind ≠ .eof) (fault : Fault) :
    Consumes (expect kind fault) := by
  intro c hc
  refine consumesAt_peek_bind ?_
  split
  next h => exact consumesAt_skip_bind (forward_pure _) hc (by rwa [h])
  next => exact consumesAt_refuse _ fault

end

/-! ### Tracking -/

/-- The second parser does elsewhere what the first one does, where the same is shown to
both and no more tokens are left than the bounds allow for. -/
structure Tracks {α : Type} (move : Token → Token) (m n : Nat) (h : α → α) (p q : Parser α) :
    Prop where
  forward : Forward p
  agrees : ∀ c c' d' : Cursor, c.Delimited → c'.Delimited → c.rest.length ≤ m → c'.rest.length ≤ n →
    Shown move c (p c).cursor c' d' → q c' = (p c).relocate move h d'

section
variable {α β : Type} {move : Token → Token} {m n : Nat} {h : α → α} {k : β → β}
  {p q : Parser α}

theorem tracks_pure (a : α) : Tracks move m n h (pure a) (pure (h a)) := by
  refine ⟨fun c => ⟨[], past_nil.mpr rfl⟩, fun c c' d' _ _ _ _ hs => ?_⟩
  obtain ⟨rfl, _⟩ := shown_refl.mp hs
  rfl

theorem tracks_refuse (t : Token) (fault : Fault) :
    Tracks move m n h (refuse t fault) (refuse (move t) fault) := by
  refine ⟨fun c => ⟨[], past_nil.mpr rfl⟩, fun c c' d' _ _ _ _ hs => ?_⟩
  obtain ⟨rfl, _⟩ := shown_refl.mp hs
  rfl

theorem tracks_note (t : Token) (fault : Fault) :
    Tracks move m n id (note t fault) (note (move t) fault) := by
  refine ⟨fun c => ⟨[], past_nil.mpr rfl⟩, fun c c' d' _ _ _ _ hs => ?_⟩
  obtain ⟨rfl, _⟩ := shown_refl.mp hs
  rfl

theorem tracks_peek : Tracks move m n move peek peek := by
  refine ⟨fun c => ⟨[], past_nil.mpr rfl⟩, fun c c' d' _ _ _ _ hs => ?_⟩
  obtain ⟨rfl, hpeek⟩ := shown_refl.mp hs
  show (⟨.ok d'.peek, d', [], 0⟩ : Reply Token) = _
  rw [hpeek]
  rfl

theorem tracks_inward (cost : Nat) (hp : Tracks move m n h p q) :
    Tracks move m n h (inward cost p) (inward cost q) := by
  refine ⟨hp.forward, fun c c' d' hc hc' hm hn hs => ?_⟩
  show { q c' with frames := (q c').frames + cost } = _
  rw [hp.agrees c c' d' hc hc' hm hn hs]
  rfl

theorem relocate_bind_ok {f g : α → Parser β} {c c' m' d' : Cursor} {a : α}
    (ho : (p c).outcome = .ok a) (hq : q c' = (p c).relocate move h m')
    (hg : g (h a) m' = (f a (p c).cursor).relocate move k d') :
    (q >>= g) c' = ((p >>= f) c).relocate move k d' := by
  have hqo : (q c').outcome = .ok (h a) := by rw [hq, Reply.relocate, ho]; rfl
  have hqc : (q c').cursor = m' := by rw [hq]; rfl
  rw [bind_ok ho, bind_ok hqo, hqc, hg, hq]
  simp only [Reply.relocate, List.map_append]

/-- One parser behind another: what is shown to both is shown to each. -/
theorem relocate_bind {f g : α → Parser β} {c c' d' : Cursor} (hforward : Forward p)
    (hf : ∀ a, Forward (f a))
    (hp : ∀ m', Shown move c (p c).cursor c' m' → q c' = (p c).relocate move h m')
    (hg : ∀ a m', Shown move c (p c).cursor c' m' →
      Shown move (p c).cursor (f a (p c).cursor).cursor m' d' →
      g (h a) m' = (f a (p c).cursor).relocate move k d')
    (hs : Shown move c ((p >>= f) c).cursor c' d') :
    (q >>= g) c' = ((p >>= f) c).relocate move k d' := by
  cases ho : (p c).outcome with
  | error e =>
    rw [bind_error ho] at hs ⊢
    have hq := hp d' hs
    have hqo : (q c').outcome = .error (e.relocate move) := by rw [hq, Reply.relocate, ho]; rfl
    rw [bind_error hqo, hq]
    rfl
  | ok a =>
    obtain ⟨us, hus⟩ := hforward c
    obtain ⟨vs, hvs⟩ := hf a (p c).cursor
    rw [bind_ok ho] at hs
    obtain ⟨m', hfirst, hsecond⟩ := hs.split hus hvs
    exact relocate_bind_ok ho (hp m' hfirst) (hg a m' hfirst hsecond)

theorem Tracks.bind {f g : α → Parser β} (hp : Tracks move m n h p q)
    (hf : ∀ a, Tracks move m n k (f a) (g (h a))) :
    Tracks move m n k (p >>= f) (q >>= g) := by
  refine ⟨forward_bind hp.forward fun a => (hf a).forward, fun c c' d' hc hc' hm hn hs => ?_⟩
  refine relocate_bind hp.forward (fun a => (hf a).forward)
    (fun m' => hp.agrees c c' m' hc hc' hm hn) (fun a m' hfirst hsecond => ?_) hs
  obtain ⟨hproper, hproper'⟩ := hfirst.delimited hc hc'
  obtain ⟨hlen, hlen'⟩ := hfirst.length_le
  exact (hf a).agrees _ m' d' hproper hproper' (by omega) (by omega) hsecond

theorem Tracks.seq {p q : Parser α} {f g : α → Parser β} (hp : Tracks move m n id p q)
    (hf : ∀ a, Tracks move m n k (f a) (g a)) : Tracks move m n k (p >>= f) (q >>= g) :=
  hp.bind hf

/-- Where a token has been read, there is one token less to allow for. -/
theorem tracks_skip_bind (hm : Relocates move) (hp : Tracks move m n h p q) :
    Tracks move (m + 1) (n + 1) h (skip >>= fun _ => p) (skip >>= fun _ => q) := by
  refine ⟨forward_bind forward_skip fun _ => hp.forward, fun c c' d' hc hc' hlen hlen' hs => ?_⟩
  rw [skip_bind] at hs ⊢
  rw [skip_bind]
  obtain ⟨us, hus⟩ := past_advance c
  obtain ⟨us', hus'⟩ := past_advance c'
  obtain ⟨vs, hvs⟩ := hp.forward c.advance
  refine hp.agrees _ _ d' (hc.past hus) (hc'.past hus') ?_ ?_ (hs.advance hm hc hc' hvs)
  · rw [rest_advance, List.length_tail]
    omega
  · rw [rest_advance, List.length_tail]
    omega

theorem Tracks.mono (hp : Tracks move (m + 1) (n + 1) h p q) : Tracks move m n h p q :=
  ⟨hp.forward, fun c c' d' hc hc' hm hn hs => hp.agrees c c' d' hc hc' (by omega) (by omega) hs⟩

theorem tracks_skip (hm : Relocates move) : Tracks move m n id skip skip := by
  have := tracks_skip_bind (m := m) (n := n) hm (tracks_pure (h := id) ())
  rw [id, bind_pure_unit] at this
  exact this.mono

theorem tracks_expect (hm : Relocates move) (kind : Kind) (fault : Fault) :
    Tracks move m n move (expect kind fault) (expect kind fault) := by
  refine tracks_peek.bind fun t => ?_
  rw [hm.kind]
  split
  · exact (tracks_skip hm).bind fun _ => tracks_pure t
  · exact tracks_refuse t fault

theorem expect_bind_eq (kind : Kind) (fault : Fault) (f : Token → Parser α) :
    expect kind fault >>= f =
      (do let t ← peek; if t.kind = kind then (do skip; f t) else refuse t fault) := by
  unfold expect
  rw [bind_assoc]
  congr 1
  funext t
  split
  · rw [bind_assoc]
    simp only [pure_bind]
  · exact funext fun c => bind_error rfl f

theorem tracks_expect_bind {f g : Token → Parser α} (hm : Relocates move) (kind : Kind)
    (fault : Fault) (hf : ∀ t, Tracks move m n h (f t) (g (move t))) :
    Tracks move (m + 1) (n + 1) h (expect kind fault >>= f) (expect kind fault >>= g) := by
  rw [expect_bind_eq, expect_bind_eq]
  refine tracks_peek.bind fun t => ?_
  rw [hm.kind]
  split
  · exact tracks_skip_bind hm (hf t)
  · exact tracks_refuse t fault

/-- A loop is bounded by the tokens that are left. -/
theorem tracks_unread_bind {f g : List Token → Parser α}
    (hf : ∀ bound bound' : List Token,
      Tracks move bound.length bound'.length h (f bound) (g bound')) :
    Tracks move m n h (unread >>= f) (unread >>= g) := by
  refine ⟨fun c => ?_, fun c c' d' hc hc' _ _ hs => ?_⟩
  · rw [unread_bind]
    exact (hf c.rest []).forward c
  · rw [unread_bind] at hs ⊢
    rw [unread_bind]
    exact (hf c.rest c'.rest).agrees c c' d' hc hc' (Nat.le_refl _) (Nat.le_refl _) hs

end

/-! ### The same tokens ahead -/

theorem relocate_id {α : Type} (d : Cursor) (r : Reply α) :
    r.relocate id id d = ⟨r.outcome, d, r.noted, r.frames⟩ := by
  obtain ⟨outcome, cursor, noted, frames⟩ := r
  have hid : Diagnostic.relocate id = id := rfl
  have hnoted : noted.map (Diagnostic.relocate id) = noted := by rw [hid, List.map_id]
  have houtcome : (outcome.map id).mapError (Diagnostic.relocate id) = outcome := by
    cases outcome <;> rfl
  simp only [Reply.relocate, hnoted, houtcome]

/-- What is passed can be passed where the same tokens stand elsewhere. -/
theorem exists_shown {move : Token → Token} {ts : List Token} {c d c' : Cursor}
    (h : c.Past ts d) (hrest : c'.rest = c.rest.map move) (hfinal : c'.final = move c.final) :
    ∃ d', Shown move c d c' d' := by
  have hforward : (c'.forward (ts.map move).length).rest = d.rest.map move := by
    rw [rest_forward, hrest, h.rest, List.map_append, List.drop_left]
  refine ⟨c'.forward (ts.map move).length, ts, h, ⟨?_, rfl⟩, ?_⟩
  · rw [hforward, hrest, h.rest, List.map_append]
  · rw [Cursor.peek, hforward, final_forward, hfinal, ← h.final, Cursor.peek]
    cases d.rest <;> rfl

/-- The tokens that are ahead of a cursor. -/
def Cursor.ahead (c : Cursor) : Tokens :=
  ⟨c.rest, c.final⟩

theorem Cursor.Delimited.ahead {c c' : Cursor} (hc : c.Delimited) (h : c'.ahead = c.ahead) :
    c'.Delimited := by
  have hrest : c'.rest = c.rest := congrArg Tokens.body h
  have hfinal : c'.final = c.final := congrArg Tokens.final h
  exact ⟨by rw [hfinal]; exact hc.final, by rw [hrest]; exact hc.rest⟩

theorem shown_ahead {ts : List Token} {c d c' : Cursor} (h : c.Past ts d)
    (he : c'.ahead = c.ahead) : ∃ d', Shown id c d c' d' ∧ d'.ahead = d.ahead := by
  have hrest : c'.rest = c.rest := congrArg Tokens.body he
  have hfinal : c'.final = c.final := congrArg Tokens.final he
  obtain ⟨d', hs⟩ : ∃ d', Shown id c d c' d' := exists_shown h (by rw [List.map_id, hrest]) hfinal
  refine ⟨d', hs, ?_⟩
  obtain ⟨us, hus, hus', -⟩ := hs
  rw [List.map_id] at hus'
  have hleft : d'.rest = d.rest :=
    List.append_cancel_left (hus'.rest.symm.trans (hrest.trans hus.rest))
  rw [Cursor.ahead, Cursor.ahead, hleft, hus'.final, hfinal, hus.final]

/-- A parser does the same wherever the same tokens are ahead. -/
theorem Tracks.ahead {α : Type} {p q : Parser α} {m n : Nat} {c c' : Cursor}
    (h : Tracks id m n id p q) (hc : c.Delimited) (hlen : c.rest.length ≤ m)
    (hlen' : c.rest.length ≤ n) (he : c'.ahead = c.ahead) :
    ∃ d', q c' = { p c with cursor := d' } ∧ d'.ahead = (p c).cursor.ahead := by
  obtain ⟨us, hus⟩ := h.forward c
  obtain ⟨d', hs, hahead⟩ := shown_ahead hus he
  have hrest : c'.rest = c.rest := congrArg Tokens.body he
  have hq := h.agrees c c' d' hc (hc.ahead he) hlen (by rwa [hrest]) hs
  rw [relocate_id] at hq
  exact ⟨d', hq, hahead⟩

/-- Where the bounds allow for the tokens that are left they do not matter. -/
theorem Tracks.same {α : Type} {p q : Parser α} {m n : Nat} {c : Cursor}
    (h : Tracks id m n id p q) (hc : c.Delimited) (hlen : c.rest.length ≤ m)
    (hlen' : c.rest.length ≤ n) : q c = p c := by
  obtain ⟨ts, hts⟩ := h.forward c
  have hs : Shown id c (p c).cursor c (p c).cursor := ⟨ts, hts, by rwa [List.map_id], rfl⟩
  rw [h.agrees c c _ hc hc hlen hlen' hs, relocate_id]

/-! ### Blamed tokens -/

theorem Cursor.peek_mem (c : Cursor) : c.peek ∈ c.rest ++ [c.final] := by
  unfold Cursor.peek
  cases c.rest with
  | nil => exact List.mem_cons_self
  | cons t rest => exact List.mem_cons_self

/-- What a parser notes is blamed on tokens that are ahead of it: tokens from elsewhere may be
moved at will, and no reply changes. -/
theorem noted_ahead {α : Type} {m n : Nat} {p : Parser α} {c : Cursor}
    (hp : ∀ move, Relocates move → Tracks move m n id p p) (hc : c.Delimited)
    (hlen : c.rest.length ≤ m) (hlen' : c.rest.length ≤ n) :
    ∀ d ∈ (p c).noted, d.token ∈ c.rest ++ [c.final] := by
  -- every other token is moved
  let move : Token → Token := fun t =>
    if t ∈ c.rest ++ [c.final] then t else { t with start := t.start + 1 }
  have hm : Relocates move := by
    constructor <;>
    · intro t
      simp only [move]
      split <;> rfl
  have hkept : ∀ t ∈ c.rest ++ [c.final], move t = t := fun t ht => if_pos ht
  obtain ⟨ts, hts⟩ := (hp move hm).forward c
  have hmoved : ts.map move = ts := by
    refine (List.map_congr_left fun t ht => hkept t ?_).trans (List.map_id _)
    rw [hts.rest, List.append_assoc]
    exact List.mem_append_left _ ht
  have hpeek : (p c).cursor.peek ∈ c.rest ++ [c.final] := by
    have hmem := (p c).cursor.peek_mem
    rw [hts.final] at hmem
    rw [hts.rest, List.append_assoc]
    exact List.mem_append_right _ hmem
  have hshown : Shown move c (p c).cursor c (p c).cursor :=
    ⟨ts, hts, by rwa [hmoved], (hkept _ hpeek).symm⟩
  have hsame := (hp move hm).agrees c c _ hc hc hlen hlen' hshown
  have hnoted := (congrArg Reply.noted hsame).symm.trans (List.map_id _).symm
  intro d hd
  have hfixed : d.relocate move = d := List.map_inj_left.mp hnoted d hd
  refine Decidable.byContradiction fun hmem => ?_
  have hstart := congrArg (fun d => d.token.start) hfixed
  simp only [Diagnostic.relocate, move, if_neg hmem] at hstart
  omega

end Scriptlet
