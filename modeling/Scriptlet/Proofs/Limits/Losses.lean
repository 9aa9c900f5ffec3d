import Scriptlet.Proofs.Faults.Skipping
import Scriptlet.Proofs.Limits.Carving

/-! What is lost for want of room.

`Loses p c d` says that a parser is stopped and that nothing is found between there
and `d`, where parsing resumes (`Loses.recovering`). This is so if what is nested
too deep is an expression with its semicolon (`loses_ended`) or a whole block
(`loses_refused`), in which every brace that is opened is closed
(`Sentence.balanced`). -/
namespace Scriptlet

open Scriptlet.Parser Scriptlet.Cursor

/-- A parser is stopped, and what it has not passed up to a cursor is passed over. -/
def Loses {α : Type} (p : Parser α) (c d : Cursor) : Prop :=
  ∃ e us vs, (p c).outcome = .error e ∧ c.Past us (p c).cursor ∧ (p c).cursor.Past vs d ∧
    (∀ inBlock, Skimmed inBlock vs) ∧ (vs = [] ∨ ∀ t ∈ us.getLast?, t.kind ≠ .semicolon)

section
variable {α β : Type} {p : Parser α} {c m d : Cursor}

theorem Loses.bind (h : Loses p c d) (f : α → Parser β) : Loses (p >>= f) c d := by
  obtain ⟨e, us, vs, ho, hus, hvs, hskimmed, hlast⟩ := h
  rw [Loses, bind_error ho]
  exact ⟨e, us, vs, rfl, hus, hvs, hskimmed, hlast⟩

/-- Behind tokens that do not end a statement. -/
theorem Loses.behind {f : α → Parser β} {a : α} {ts : List Token} (h : Loses (f a) m d)
    (hp : Gives p c a m) (hts : c.Past ts m) (hlast : ∀ t ∈ ts.getLast?, t.kind ≠ .semicolon) :
    Loses (p >>= f) c d := by
  obtain ⟨e, us, vs, ho, hus, hvs, hskimmed, hend⟩ := h
  rw [Loses, bind_ok hp.outcome, hp.cursor]
  refine ⟨e, ts ++ us, vs, ho, past_append.mpr ⟨m, hts, hus⟩, hvs, hskimmed, ?_⟩
  refine hend.imp_right fun hend t ht => ?_
  rw [List.getLast?_append] at ht
  cases hus : us.getLast? with
  | none =>
    rw [hus] at ht
    exact hlast t ht
  | some u =>
    rw [hus] at ht
    exact hend t (by rw [hus]; exact ht)

theorem loses_inward {cost : Nat} : Loses (inward cost p) c d ↔ Loses p c d :=
  Iff.rfl

theorem loses_congr {q : Parser α} (h : p c = q c) : Loses p c d ↔ Loses q c d := by
  rw [Loses, Loses, h]

/-- A declaration is left out, and parsing goes on behind what is lost. -/
theorem Loses.recovering {inBlock : Bool} {p : Parser Stmt} {ts : List Token} (h : Loses p c d)
    (hpast : c.Past ts d) (hne : ts ≠ []) (hd : d.Resumed inBlock) :
    Gives (recovering inBlock p) c none d := by
  obtain ⟨e, us, vs, ho, hus, hvs, hskimmed, hlast⟩ := h
  obtain rfl := past_unique hpast (past_append.mpr ⟨_, hus, hvs⟩)
  refine ⟨by rw [recovering_of_stop ho], ?_⟩
  rw [recovering_of_stop ho]
  show (movedOn p c).resume inBlock = d
  have hlen := hus.length
  cases us with
  | nil =>
    obtain ⟨t, vs, rfl⟩ := List.exists_cons_of_ne_nil hne
    have hstay := past_nil.mp hus
    rw [hstay] at hvs
    obtain ⟨hrest, hvs⟩ := past_cons.mp hvs
    obtain ⟨hskimmed, hnil⟩ :=
      (show Skimmed inBlock ([t] ++ vs) from hskimmed inBlock).rest
    rw [movedOn, if_pos (by rw [hstay]), hstay]
    refine resume_skimmed hskimmed hvs (hnil.imp_right fun ht => ?_) hd
    have := ht t rfl
    simp [Cursor.afterSemicolon, last_advance hrest, this]
  | cons u us =>
    rw [List.length_cons] at hlen
    rw [movedOn, if_neg (by omega)]
    refine resume_skimmed (hskimmed inBlock) hvs (hlast.imp_right fun hlast => ?_) hd
    rw [Cursor.afterSemicolon, hus.last, List.getLast?_cons]
    have := hlast _ List.getLast?_cons
    simpa using this

end

/-! ### Expressions with a semicolon -/

theorem Halts.plain {next : Token} {ts : List Token} {noted : List Diagnostic} {e : Diagnostic}
    (h : Halts none next ts noted e) : ∀ t ∈ ts, t.kind.isPlain = true := by
  cases h with
  | ahead h => exact h.plain
  | behind h _ ht => exact List.forall_mem_append.mpr ⟨h.plain, List.forall_mem_singleton.mpr ht⟩
  | opener ho => cases ho

/-- An expression passes tokens that neither begin a statement nor end one. -/
theorem expression_plain (room : Nat) {c : Cursor} (hc : c.Delimited) :
    ∃ us, c.Past us (expression room c).cursor ∧ ∀ t ∈ us, t.kind.isPlain = true := by
  obtain ⟨us, hus, hok, herror⟩ := roamsAt_expression room hc
  refine ⟨us, hus, ?_⟩
  cases ho : (expression room c).outcome with
  | ok e => exact (hok e ho).plain
  | error e =>
    exact (herror e ho).plain

/-- **An expression for which there is no room** is lost with its semicolon. -/
theorem loses_ended {room : Nat} {after : Construct} {f : Expr → Stmt} {c d : Cursor}
    (hc : c.Proper) {ts : List Token} {e : Expr} {n : Nat} {last : Token}
    (h : Phrase .expression ts e n) (hdeep : ∀ m, Phrase .expression ts e m → room < m)
    (hlast : last.kind = .semicolon) (hpast : c.Past (ts ++ [last]) d) :
    Loses (do
      let e ← expression room
      semicolon after
      return f e) c d := by
  obtain ⟨m, hts, hend⟩ := past_append.mp hpast
  obtain ⟨hrest, hnil⟩ := past_cons.mp hend
  have hsemicolon : m.peek.kind = .semicolon := by rw [peek_eq hrest, hlast]
  -- the expression is not read as a whole
  have hunread : ¬ Reads (expression room) c e m := by
    intro hr
    obtain ⟨ts', hts', ⟨n', h', hn'⟩, -⟩ := (recognizes_room room _ _ _ hc).mp hr
    obtain rfl := past_unique hts hts'
    exact absurd hn' (Nat.not_le.mpr (hdeep n' h'))
  have hstops := stops_expression (.inr hsemicolon)
  obtain ⟨t, ho⟩ := (expression_phrase room hc h hts hstops).resolve_left hunread
  obtain ⟨us, hus, hplain⟩ := expression_plain room hc.toDelimited
  obtain ⟨vs, rfl⟩ : us <+: ts := by
    have hbefore : us <+: ts ++ [last] ∨ ts ++ [last] <+: us :=
      List.prefix_or_prefix_of_prefix ⟨_, hus.rest.symm⟩ ⟨_, hpast.rest.symm⟩
    have hne : ¬ ts ++ [last] <+: us := fun hinitial =>
      not_plain_semicolon (hplain last (hinitial.subset (by simp))) hlast
    rcases List.prefix_concat_iff.mp (hbefore.resolve_right hne) with rfl | h
    · exact absurd (List.prefix_refl _) hne
    · exact h
  obtain ⟨k, hk, hvs⟩ := past_append.mp hts
  obtain rfl : k = (expression room c).cursor := hk.eq.trans hus.eq.symm
  refine Loses.bind ⟨_, us, vs ++ [last], ho, hus, past_append.mpr ⟨m, hvs, hend⟩,
    fun inBlock => ?_, .inr fun t ht => not_plain_semicolon (hplain t (List.mem_of_getLast? ht))⟩ _
  exact skimmed_plain (fun t ht => h.plain t (List.mem_append_right _ ht)) (.semicolon hlast)

/-! ### Blocks -/

theorem Balanced.append {ts us : List Token} (h : Balanced ts) (h' : Balanced us) :
    Balanced (ts ++ us) := by
  induction h with
  | nil => exact h'
  | token hopen hclose _ ih => exact .token hopen hclose ih
  | @block opening ts closing vs hopen hts hclose _ _ ih =>
    rw [List.cons_append, List.append_assoc, List.cons_append]
    exact .block hopen hts hclose ih

theorem balanced_plain {ts : List Token} (h : ∀ t ∈ ts, t.kind.isPlain = true) : Balanced ts := by
  induction ts with
  | nil => exact .nil
  | cons t ts ih =>
    obtain ⟨ht, hts⟩ := List.forall_mem_cons.mp h
    exact .token (fun hk => by rw [hk] at ht; cases ht) (fun hk => by rw [hk] at ht; cases ht)
      (ih hts)

theorem balanced_token {t : Token} {kind : Kind} (h : t.kind = kind) (hopen : kind ≠ .leftBrace)
    (hclose : kind ≠ .rightBrace) {ts : List Token} (hts : Balanced ts) : Balanced (t :: ts) :=
  .token (by rwa [h]) (by rwa [h]) hts

theorem balanced_parts {parts : List Part} (h : ∀ p ∈ parts, Balanced p.tokens) :
    Balanced (Part.allTokens parts) := by
  induction parts with
  | nil => exact .nil
  | cons p parts ih =>
    obtain ⟨hp, hparts⟩ := List.forall_mem_cons.mp h
    exact hp.append (ih hparts)

/-- In a sentence every brace that is opened is closed. -/
theorem Sentence.balanced {clause : Clause} {ts : List Token} {s : Stmt} {n : Nat}
    (h : Sentence clause ts s n) : Balanced ts := by
  induction h with
  | expression he hlast =>
    exact (balanced_plain he.plain).append (balanced_token hlast (by decide) (by decide) .nil)
  | print hword he hlast =>
    exact balanced_token hword (by decide) (by decide)
      ((balanced_plain he.plain).append (balanced_token hlast (by decide) (by decide) .nil))
  | block hopen _ hclose ih => exact .block hopen (balanced_parts ih) hclose .nil
  | ifThen hword hopen he hclose _ ih =>
    exact balanced_token hword (by decide) (by decide) (balanced_token hopen (by decide) (by decide)
      ((balanced_plain he.plain).append (balanced_token hclose (by decide) (by decide) ih)))
  | ifElse hword hopen he hclose _ _ hother _ ih ih' =>
    exact balanced_token hword (by decide) (by decide) (balanced_token hopen (by decide) (by decide)
      ((balanced_plain he.plain).append (balanced_token hclose (by decide) (by decide)
        (ih.append (balanced_token hother (by decide) (by decide) ih')))))
  | declare hword hname hlast =>
    exact balanced_token hword (by decide) (by decide) (balanced_token hname (by decide) (by decide)
      (balanced_token hlast (by decide) (by decide) .nil))
  | define hword hname hequal he hlast =>
    exact balanced_token hword (by decide) (by decide) (balanced_token hname (by decide) (by decide)
      (balanced_token hequal (by decide) (by decide)
        ((balanced_plain he.plain).append (balanced_token hlast (by decide) (by decide) .nil))))
  | statement _ ih => exact ih

/-- **A block for which there is no room** is lost with its closing brace. -/
theorem loses_refused {c d : Cursor} {inner : List Token} {opening closing : Token}
    (hopen : opening.kind = .leftBrace) (hinner : Balanced inner)
    (hclose : closing.kind = .rightBrace) (hpast : c.Past (opening :: (inner ++ [closing])) d) :
    Loses (statementWith (expression 0) (body 0)) c d := by
  obtain ⟨hrest, hpast⟩ := past_cons.mp hpast
  obtain ⟨m, hm, hend⟩ := past_append.mp hpast
  obtain ⟨hrest', hnil⟩ := past_cons.mp hend
  have hskip : c.advance.skipBlock 1 = d := by
    rw [hinner.skipBlock 0 hm, skipBlock_go hrest', hclose, past_nil.mp hnil]
    exact skipBlock_zero
  have hrefused : (body 0).block c.peek c.advance =
      ⟨.error ⟨.tooMuchNesting, c.peek⟩, d, [], 0⟩ := by
    show refuse c.peek .tooMuchNesting (c.advance.skipBlock 1) = _
    rw [hskip]
    rfl
  rw [Loses, statement_block_refused (by rw [peek_eq hrest, hopen]) (by rw [hrefused]), hrefused]
  exact ⟨_, _, [], rfl, past_cons.mpr ⟨hrest, hpast⟩, past_nil.mpr rfl, fun _ => .nil, .inl rfl⟩

end Scriptlet
