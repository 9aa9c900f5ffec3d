import Scriptlet.Parse.Statement
import Scriptlet.Proofs.Locality.Lookahead

/-! Moving on behind what is malformed.

`resume` and `skipBlock` walk over tokens. Both go forward only and decide each
step by the token ahead, `resume` also by the one before it; so where the same
tokens are shown they come to the same place. -/
namespace Scriptlet

/-- Tokens that resuming passes over: none of them is a place to resume at but for the one
behind the last. -/
inductive Skimmed (inBlock : Bool) : List Token → Prop
  | nil : Skimmed inBlock []
  | semicolon {t} : t.kind = .semicolon → Skimmed inBlock [t]
  | cons {t ts} : t.kind ≠ .semicolon → beginsStatement t.kind = false →
      ¬ (inBlock = true ∧ t.kind = .rightBrace) → Skimmed inBlock ts → Skimmed inBlock (t :: ts)

namespace Cursor

variable {move : Token → Token} {c d c' d' : Cursor} {inBlock : Bool}

/-! ### The token read last -/

theorem last_advance {t : Token} {rest : List Token} (h : c.rest = t :: rest) :
    c.advance.last = some t := by
  rw [advance, h]

/-- The token read last is the last of those that were passed. -/
theorem Past.last {ts : List Token} (h : Past ts c d) : d.last = ts.getLast?.or c.last := by
  induction ts generalizing c with
  | nil =>
    obtain rfl := past_nil.mp h
    rfl
  | cons t ts ih =>
    obtain ⟨hrest, hts⟩ := past_cons.mp h
    rw [ih hts, last_advance hrest, List.getLast?_cons]
    cases ts.getLast? <;> rfl

/-- Whether the token read last ends a statement. -/
def afterSemicolon (c : Cursor) : Bool :=
  c.last.any (·.kind == .semicolon)

theorem Shown.afterSemicolon (h : Shown move c d c' d') (hm : Relocates move)
    (hne : d.rest.length ≠ c.rest.length) : d'.afterSemicolon = d.afterSemicolon := by
  obtain ⟨ts, hts, hts', _⟩ := h
  have hlen := hts.length
  have hts_ne : ts ≠ [] := by
    intro he
    subst he
    exact hne (by simpa using hlen.symm)
  rw [Cursor.afterSemicolon, Cursor.afterSemicolon, hts.last, hts'.last, List.getLast?_map,
    List.getLast?_eq_some_getLast hts_ne]
  simp [hm.kind]

theorem Shown.length_eq (h : Shown move c d c' d') :
    d'.rest.length = c'.rest.length ↔ d.rest.length = c.rest.length := by
  obtain ⟨ts, hts, hts', _⟩ := h
  have hlen := hts.length
  have hlen' := hts'.length
  rw [List.length_map] at hlen'
  omega

/-- Behind the next token it is known whether a statement has ended. -/
theorem Shown.afterSemicolon_advance (h : Shown move c d c' d') (hm : Relocates move)
    (hc : c.Delimited) (hc' : c'.Delimited) :
    c.advance.rest = [] ∨ c'.advance.afterSemicolon = c.advance.afterSemicolon := by
  cases hr : c.rest with
  | nil => exact .inl (by rw [advance_of_nil hr, hr])
  | cons t rest =>
    obtain ⟨t', rest', hr'⟩ := List.exists_cons_of_ne_nil
      (mt (h.rest_eq_nil hm hc hc').mp (by rw [hr]; exact List.cons_ne_nil t rest))
    have hkind : t'.kind = t.kind := by rw [← peek_eq hr', ← peek_eq hr, h.kind hm]
    right
    simp only [Cursor.afterSemicolon, last_advance hr, last_advance hr', Option.any_some, hkind]

/-! ### Resuming -/

/-- Whether parsing resumes here, before the token `t`. -/
def resumesBefore (inBlock : Bool) (c : Cursor) (t : Token) : Bool :=
  c.afterSemicolon || beginsStatement t.kind || (inBlock && t.kind == .rightBrace)

theorem resume_nil (h : c.rest = []) : c.resume inBlock = c := by
  obtain ⟨last, rest, final⟩ := c
  cases h
  rfl

theorem resume_stop {t : Token} {rest : List Token} (h : c.rest = t :: rest)
    (hstop : resumesBefore inBlock c t = true) : c.resume inBlock = c := by
  obtain ⟨last, rest, final⟩ := c
  cases h
  exact if_pos hstop

/-- Of the cursor at which the walk began only the end marker counts. -/
theorem resumeGo_congr (h : c.final = d.final) (last : Option Token) (rest : List Token) :
    resume.go inBlock c last rest = resume.go inBlock d last rest := by
  induction rest generalizing last with
  | nil => simp only [resume.go, h]
  | cons t rest ih => simp only [resume.go, ih, h]

theorem resume_go {t : Token} {rest : List Token} (h : c.rest = t :: rest)
    (hgo : resumesBefore inBlock c t = false) : c.resume inBlock = c.advance.resume inBlock := by
  have hwalk : c.resume inBlock = resume.go inBlock c (some t) rest := by
    rw [resume, h]
    exact if_neg (Bool.eq_false_iff.mp hgo)
  rw [hwalk, resumeGo_congr (final_advance c).symm, resume, last_advance h, rest_advance, h]
  rfl

/-- What resuming passes over. -/
theorem skimmed_resume (inBlock : Bool) (c : Cursor) :
    ∃ ts, Past ts c (c.resume inBlock) ∧ Skimmed inBlock ts ∧
      (ts = [] ∨ c.afterSemicolon = false) := by
  generalize hr : c.rest = rest
  induction rest generalizing c with
  | nil => exact ⟨[], past_nil.mpr (resume_nil hr), .nil, .inl rfl⟩
  | cons t rest ih =>
    cases hstop : resumesBefore inBlock c t with
    | true => exact ⟨[], past_nil.mpr (resume_stop hr hstop), .nil, .inl rfl⟩
    | false =>
      have hadvance : c.advance.rest = rest := by rw [rest_advance, hr]; rfl
      obtain ⟨⟨hsemicolon, hword⟩, hclose⟩ : (c.afterSemicolon = false ∧
          beginsStatement t.kind = false) ∧ (inBlock && t.kind == .rightBrace) = false := by
        rwa [resumesBefore, Bool.or_eq_false_iff, Bool.or_eq_false_iff] at hstop
      obtain ⟨ts, hts, hskimmed, hlast⟩ := ih c.advance hadvance
      rw [resume_go hr hstop]
      refine ⟨t :: ts, past_cons.mpr ⟨by rw [hadvance, hr], hts⟩, ?_, .inr hsemicolon⟩
      by_cases hk : t.kind = .semicolon
      · have hafter : c.advance.afterSemicolon = true := by
          simp [Cursor.afterSemicolon, last_advance hr, hk]
        obtain rfl := hlast.resolve_right (by rw [hafter]; decide)
        exact .semicolon hk
      · exact .cons hk hword (by simpa using hclose) hskimmed

theorem past_resume (inBlock : Bool) (c : Cursor) : ∃ ts, Past ts c (c.resume inBlock) := by
  obtain ⟨ts, hts, -, -⟩ := skimmed_resume inBlock c
  exact ⟨ts, hts⟩

/-- Where resuming ends: at the end, behind a semicolon, before a word that begins a statement
or, inside a block, before the brace that may close it. -/
def Resumed (inBlock : Bool) (c : Cursor) : Prop :=
  c.rest = [] ∨ c.afterSemicolon = true ∨ beginsStatement c.peek.kind = true ∨
    inBlock = true ∧ c.peek.kind = .rightBrace

theorem resumesBefore_iff {t : Token} {rest : List Token} (h : c.rest = t :: rest) :
    resumesBefore inBlock c t = true ↔ c.Resumed inBlock := by
  have hrest : c.rest ≠ [] := by rw [h]; exact List.cons_ne_nil t rest
  simp [resumesBefore, Resumed, peek_eq h, hrest, or_assoc]

theorem resumed_resume (inBlock : Bool) (c : Cursor) : (c.resume inBlock).Resumed inBlock := by
  generalize hr : c.rest = rest
  induction rest generalizing c with
  | nil =>
    left
    rw [resume_nil hr, hr]
  | cons t rest ih =>
    cases hstop : resumesBefore inBlock c t with
    | false =>
      rw [resume_go hr hstop]
      exact ih _ (by rw [rest_advance, hr]; rfl)
    | true =>
      rw [resume_stop hr hstop]
      exact (resumesBefore_iff hr).mp hstop

theorem Resumed.resume (h : c.Resumed inBlock) : c.resume inBlock = c := by
  cases hr : c.rest with
  | nil => exact resume_nil hr
  | cons t rest => exact resume_stop hr ((resumesBefore_iff hr).mpr h)

end Cursor

/-- The rest of such tokens; behind a semicolon nothing is left of them. -/
theorem Skimmed.rest {inBlock : Bool} {us ts : List Token} (h : Skimmed inBlock (us ++ ts)) :
    Skimmed inBlock ts ∧ (ts = [] ∨ ∀ t ∈ us.getLast?, t.kind ≠ .semicolon) := by
  induction us with
  | nil => exact ⟨h, .inr fun t ht => by cases ht⟩
  | cons u us ih =>
    generalize hall : u :: us ++ ts = all at h
    cases h with
    | nil => cases hall
    | semicolon =>
      obtain ⟨-, hnil⟩ := List.cons.inj hall
      obtain ⟨rfl, rfl⟩ := List.append_eq_nil_iff.mp hnil
      exact ⟨.nil, .inl rfl⟩
    | cons hsemicolon _ _ hrest =>
      obtain ⟨rfl, rfl⟩ := List.cons.inj hall
      obtain ⟨hskimmed, hlast⟩ := ih hrest
      refine ⟨hskimmed, hlast.imp_right fun hlast t ht => ?_⟩
      rw [List.getLast?_cons] at ht
      cases hus : us.getLast? with
      | none =>
        rw [hus] at ht
        cases ht
        exact hsemicolon
      | some w =>
        rw [hus] at ht
        cases ht
        exact hlast _ hus

namespace Cursor

variable {move : Token → Token} {c d c' d' : Cursor} {inBlock : Bool}

/-- Resuming passes over such tokens, wherever it ends. -/
theorem resume_past {ts : List Token} (h : Skimmed inBlock ts) (hpast : c.Past ts d)
    (hc : ts = [] ∨ c.afterSemicolon = false) : c.resume inBlock = d.resume inBlock := by
  induction h generalizing c with
  | nil => rw [past_nil.mp hpast]
  | @semicolon t ht =>
    obtain ⟨hrest, hnil⟩ := past_cons.mp hpast
    obtain rfl := past_nil.mp hnil
    have hgo : resumesBefore inBlock c t = false := by
      simp [resumesBefore, hc.resolve_left (List.cons_ne_nil t []), ht, beginsStatement]
    rw [resume_go hrest hgo]
  | @cons t ts hsemicolon hword hclose _ ih =>
    obtain ⟨hrest, hts⟩ := past_cons.mp hpast
    have hgo : resumesBefore inBlock c t = false := by
      simpa [resumesBefore, hc.resolve_left (List.cons_ne_nil t ts), hword] using hclose
    rw [resume_go hrest hgo]
    refine ih hts (.inr ?_)
    simp [Cursor.afterSemicolon, last_advance hrest, hsemicolon]

/-- Resuming passes over such tokens and no further. -/
theorem resume_skimmed {ts : List Token} (h : Skimmed inBlock ts) (hpast : c.Past ts d)
    (hc : ts = [] ∨ c.afterSemicolon = false) (hd : d.Resumed inBlock) :
    c.resume inBlock = d :=
  (resume_past h hpast hc).trans hd.resume

/-- Resuming comes to the same place where the same is shown. -/
theorem Shown.resume (h : Shown move c (c.resume inBlock) c' d') (hm : Relocates move)
    (hc : c.Delimited) (hc' : c'.Delimited)
    (hlast : c.rest = [] ∨ c'.afterSemicolon = c.afterSemicolon) : c'.resume inBlock = d' := by
  generalize hr : c.rest = rest at hlast
  induction rest generalizing c c' with
  | nil =>
    have hr' := (h.rest_eq_nil hm hc hc').mpr hr
    rw [resume_nil hr] at h
    rw [resume_nil hr', (shown_refl.mp h).1]
  | cons t rest ih =>
    have hlast := hlast.resolve_left (List.cons_ne_nil t rest)
    obtain ⟨t', rest', hr'⟩ := List.exists_cons_of_ne_nil
      (mt (h.rest_eq_nil hm hc hc').mp (by rw [hr]; exact List.cons_ne_nil t rest))
    have hkind : t'.kind = t.kind := by rw [← peek_eq hr', ← peek_eq hr, h.kind hm]
    have hsame : resumesBefore inBlock c' t' = resumesBefore inBlock c t := by
      simp only [resumesBefore, hlast, hkind]
    cases hstop : resumesBefore inBlock c t with
    | true =>
      rw [resume_stop hr hstop] at h
      rw [resume_stop hr' (hsame.trans hstop), (shown_refl.mp h).1]
    | false =>
      rw [resume_go hr hstop] at h
      rw [resume_go hr' (hsame.trans hstop)]
      obtain ⟨us, hus⟩ := past_advance c
      obtain ⟨us', hus'⟩ := past_advance c'
      obtain ⟨vs, hvs⟩ := past_resume inBlock c.advance
      have hadvance : c.advance.rest = rest := by rw [rest_advance, hr]; rfl
      have hlast := h.afterSemicolon_advance hm hc hc'
      rw [hadvance] at hlast
      exact ih (h.advance hm hc hc' hvs) (hc.past hus) (hc'.past hus') hadvance hlast

/-- Resuming comes to the same place where the same tokens are ahead. -/
theorem ahead_resume (hc : c.Delimited) (h : c'.ahead = c.ahead)
    (hlast : c.rest = [] ∨ c'.afterSemicolon = c.afterSemicolon) :
    (c'.resume inBlock).ahead = (c.resume inBlock).ahead := by
  obtain ⟨ts, hts⟩ := past_resume inBlock c
  obtain ⟨d', hs, hahead⟩ := shown_ahead hts h
  rwa [hs.resume relocates_id hc (hc.ahead h) hlast]

/-! ### Skipping a block -/

/-- How many braces are open behind a token, where `level + 1` are before it. -/
def levelBehind (level : Nat) : Kind → Nat
  | .leftBrace => level + 2
  | .rightBrace => level
  | _ => level + 1

theorem skipBlock_zero : c.skipBlock 0 = c := by
  unfold skipBlock skipBlock.go
  rfl

theorem skipBlock_nil (h : c.rest = []) (level : Nat) : c.skipBlock level = c := by
  obtain ⟨last, rest, final⟩ := c
  cases h
  cases level <;> rfl

theorem skipBlockGo_congr (h : c.final = d.final) (level : Nat) (last : Option Token)
    (rest : List Token) : skipBlock.go c level last rest = skipBlock.go d level last rest := by
  induction rest generalizing level last with
  | nil => cases level <;> simp only [skipBlock.go, h]
  | cons t rest ih => cases level <;> simp only [skipBlock.go, ih, h]

theorem skipBlock_go {t : Token} {rest : List Token} (h : c.rest = t :: rest) (level : Nat) :
    c.skipBlock (level + 1) = c.advance.skipBlock (levelBehind level t.kind) := by
  have hwalk : c.skipBlock (level + 1) =
      skipBlock.go c (levelBehind level t.kind) (some t) rest := by
    rw [skipBlock, h, skipBlock.go]
    generalize t.kind = kind
    cases kind <;> rfl
  rw [hwalk, skipBlockGo_congr (final_advance c).symm, skipBlock, last_advance h, rest_advance, h]
  rfl

theorem past_skipBlock (level : Nat) (c : Cursor) : ∃ ts, Past ts c (c.skipBlock level) := by
  generalize hr : c.rest = rest
  induction rest generalizing c level with
  | nil => exact ⟨[], past_nil.mpr (skipBlock_nil hr level)⟩
  | cons t rest ih =>
    cases level with
    | zero => exact ⟨[], past_nil.mpr skipBlock_zero⟩
    | succ level =>
      have hadvance : c.advance.rest = rest := by rw [rest_advance, hr]; rfl
      obtain ⟨ts, hts⟩ := ih (levelBehind level t.kind) c.advance hadvance
      rw [skipBlock_go hr]
      exact ⟨t :: ts, past_cons.mpr ⟨by rw [hadvance, hr], hts⟩⟩

/-- Skipping a block comes to the same place where the same is shown. -/
theorem Shown.skipBlock {level : Nat} (h : Shown move c (c.skipBlock level) c' d')
    (hm : Relocates move) (hc : c.Delimited) (hc' : c'.Delimited) : c'.skipBlock level = d' := by
  generalize hr : c.rest = rest
  induction rest generalizing c c' level with
  | nil =>
    rw [skipBlock_nil hr] at h
    rw [skipBlock_nil ((h.rest_eq_nil hm hc hc').mpr hr), (shown_refl.mp h).1]
  | cons t rest ih =>
    cases level with
    | zero =>
      rw [skipBlock_zero] at h
      rw [skipBlock_zero, (shown_refl.mp h).1]
    | succ level =>
      obtain ⟨t', rest', hr'⟩ := List.exists_cons_of_ne_nil
        (mt (h.rest_eq_nil hm hc hc').mp (by rw [hr]; exact List.cons_ne_nil t rest))
      have hkind : t'.kind = t.kind := by rw [← peek_eq hr', ← peek_eq hr, h.kind hm]
      rw [skipBlock_go hr] at h
      rw [skipBlock_go hr', hkind]
      obtain ⟨us, hus⟩ := past_advance c
      obtain ⟨us', hus'⟩ := past_advance c'
      obtain ⟨vs, hvs⟩ := past_skipBlock (levelBehind level t.kind) c.advance
      exact ih (h.advance hm hc hc' hvs) (hc.past hus) (hc'.past hus')
        (by rw [rest_advance, hr]; rfl)

end Cursor

/-! ### Recovering -/

open Scriptlet.Parser Scriptlet.Cursor

section
variable {move : Token → Token} {p q : Parser Stmt}

/-- Where parsing moves on from, after a parser has been stopped. -/
def movedOn (p : Parser Stmt) (c : Cursor) : Cursor :=
  if (p c).cursor.rest.length = c.rest.length then (p c).cursor.advance else (p c).cursor

theorem past_movedOn (c : Cursor) : ∃ ts, Past ts (p c).cursor (movedOn p c) := by
  unfold movedOn
  split
  · exact past_advance _
  · exact ⟨[], past_nil.mpr rfl⟩

/-- Where the same is shown, parsing moves on behind the same tokens. -/
theorem exists_movedOn {c c' : Cursor} (h : Shown id c (p c).cursor c' (q c').cursor)
    (hc : c.Delimited) (hc' : c'.Delimited) (hrest : c.rest ≠ []) :
    ∃ ts, ts ≠ [] ∧ Past ts c (movedOn p c) ∧ Past ts c' (movedOn q c') := by
  unfold movedOn
  by_cases hstay : (p c).cursor.rest.length = c.rest.length
  · rw [if_pos hstay, if_pos (h.length_eq.mpr hstay)]
    have hpeek : c'.peek = c.peek := h.peek
    obtain ⟨ts, hts, hts', -⟩ := h
    obtain rfl : ts = [] := by
      have hlen := hts.length
      exact List.length_eq_zero_iff.mp (by omega)
    have hk := mt hc.rest_eq_nil.mpr hrest
    have hstart : (p c).cursor = c := past_nil.mp hts
    have hstart' : (q c').cursor = c' := past_nil.mp hts'
    have hfirst' := hc'.past_peek (by rwa [hpeek])
    rw [hstart, hstart']
    exact ⟨[c.peek], List.cons_ne_nil _ _, hc.past_peek hk, by rwa [← hpeek]⟩
  · rw [if_neg hstay, if_neg (mt h.length_eq.mp hstay)]
    obtain ⟨ts, hts, hts', -⟩ := h
    rw [List.map_id] at hts'
    refine ⟨ts, fun hnil => hstay ?_, hts, hts'⟩
    rw [hts.length, hnil, List.length_nil, Nat.zero_add]

theorem recovering_of_stop {c : Cursor} {e : Diagnostic} (h : (p c).outcome = .error e)
    (inBlock : Bool) :
    recovering inBlock p c =
      ⟨.ok none, (movedOn p c).resume inBlock, (p c).noted ++ [e], (p c).frames⟩ :=
  recovering_of_error h inBlock

theorem forward_recovering (inBlock : Bool) (h : Forward p) : Forward (recovering inBlock p) := by
  intro c
  obtain ⟨us, hus⟩ := h c
  cases ho : (p c).outcome with
  | ok s =>
    rw [recovering_of_ok ho]
    exact ⟨us, hus⟩
  | error e =>
    rw [recovering_of_stop ho]
    obtain ⟨vs, hvs⟩ := past_movedOn (p := p) c
    obtain ⟨ws, hws⟩ := past_resume inBlock (movedOn p c)
    exact ⟨us ++ (vs ++ ws), past_append.mpr ⟨_, hus, past_append.mpr ⟨_, hvs, hws⟩⟩⟩

/-- A parser that passes at least one token wherever there is one. -/
def Progresses {α : Type} (p : Parser α) : Prop :=
  ∀ c : Cursor, c.Delimited → c.rest ≠ [] → (p c).cursor.rest.length < c.rest.length

theorem progresses_recovering (inBlock : Bool) (hp : Forward p) (h : Consumes p) :
    Progresses (recovering inBlock p) := by
  intro c hc hrest
  cases ho : (p c).outcome with
  | ok s =>
    rw [recovering_of_ok ho]
    exact h c hc s ho
  | error e =>
    rw [recovering_of_stop ho]
    have hmoved : (movedOn p c).rest.length < c.rest.length := by
      have hpos := List.length_pos_iff.mpr hrest
      have hle := hp.length_le c
      unfold movedOn
      split
      · rw [rest_advance, List.length_tail]
        omega
      · omega
    obtain ⟨ws, hws⟩ := past_resume inBlock (movedOn p c)
    have hlen := hws.length
    show ((movedOn p c).resume inBlock).rest.length < c.rest.length
    omega

theorem tracks_recovering {m n : Nat} (hm : Relocates move) (inBlock : Bool)
    (h : Tracks move m n id p q) :
    Tracks move m n id (recovering inBlock p) (recovering inBlock q) := by
  refine ⟨forward_recovering inBlock h.forward, fun c c' d' hc hc' hlen hlen' hs => ?_⟩
  cases ho : (p c).outcome with
  | ok s =>
    rw [recovering_of_ok ho] at hs ⊢
    have hq := h.agrees c c' d' hc hc' hlen hlen' hs
    have hqo : (q c').outcome = .ok s := by rw [hq, Reply.relocate, ho]; rfl
    rw [recovering_of_ok hqo, hq]
    rfl
  | error e =>
    rw [recovering_of_stop ho] at hs ⊢
    obtain ⟨us, hus⟩ := h.forward c
    obtain ⟨vs, hvs⟩ := past_movedOn (p := p) c
    obtain ⟨ws, hws⟩ := past_resume inBlock (movedOn p c)
    obtain ⟨m', hfirst, hrest⟩ := hs.split hus (past_append.mpr ⟨_, hvs, hws⟩)
    have hq := h.agrees c c' m' hc hc' hlen hlen' hfirst
    have hqo : (q c').outcome = .error (e.relocate move) := by rw [hq, Reply.relocate, ho]; rfl
    have hqc : (q c').cursor = m' := by rw [hq]; rfl
    obtain ⟨hproper, hproper'⟩ := hfirst.delimited hc hc'
    have hmoved : (movedOn q c').resume inBlock = d' := by
      unfold movedOn at hvs hws hrest ⊢
      rw [hqc]
      by_cases hstay : (p c).cursor.rest.length = c.rest.length
      · rw [if_pos hstay] at hvs hws hrest
        rw [if_pos (hfirst.length_eq.mpr hstay)]
        obtain ⟨xs, hxs⟩ := past_advance (p c).cursor
        obtain ⟨xs', hxs'⟩ := past_advance m'
        exact (hrest.advance hm hproper hproper' hws).resume hm (hproper.past hxs)
          (hproper'.past hxs') (hrest.afterSemicolon_advance hm hproper hproper')
      · rw [if_neg hstay] at hvs hws hrest
        rw [if_neg (mt hfirst.length_eq.mp hstay)]
        exact hrest.resume hm hproper hproper' (.inr (hfirst.afterSemicolon hm hstay))
    rw [recovering_of_stop hqo, hmoved, hq]
    simp only [Reply.relocate, List.map_append]
    rfl

theorem tracks_refuseBlock {α : Type} {h : α → α} {m n : Nat} (hm : Relocates move) (t : Token) :
    Tracks move m n h (refuseBlock t) (refuseBlock (move t)) := by
  refine ⟨past_skipBlock 1, fun c c' d' hc hc' _ _ hs => ?_⟩
  have hskip := Shown.skipBlock hs hm hc hc'
  show refuse (move t) .tooMuchNesting (c'.skipBlock 1) = _
  rw [hskip]
  rfl

end

end Scriptlet
