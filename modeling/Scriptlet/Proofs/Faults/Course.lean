import Scriptlet.Parse.Statement

/-! The course of parsing: what can be passed and noted, up to where.

`Course stage ts noted` follows a parser from the first token of a declaration, or
of several declarations, over the tokens `ts`. It leaves out how deep the parser is
and what it makes of the tokens, and keeps what the diagnostics depend on: what a
declaration ends with, where it may stop, which token is blamed and where parsing
goes on. Everything else about diagnostics is by induction on the course. Three
such facts stand here: a declaration never stops behind a semicolon
(`Course.stops`), no brace is closed before one is opened (`Course.braced`), and
where none is opened there is one fault at most but for those of targets
(`Course.invalid`, `Course.stopped_fault`). -/
namespace Scriptlet

/-! ### Expressions -/

/-- Whether a token of this kind neither begins a declaration nor ends one. -/
def Kind.isPlain (k : Kind) : Bool :=
  !beginsStatement k && k != .semicolon && k != .leftBrace && k != .rightBrace && k != .eof

/-- Whether the fault stops a declaration that is otherwise supported. -/
def Fault.stops : Fault → Bool
  | .unterminatedString | .unsupported _ | .invalidTarget => false
  | _ => true

/-- What an expression passes and notes. A target is noted behind the value that is assigned
to it. -/
inductive Passage : List Token → List Diagnostic → Prop
  | nil : Passage [] []
  | token {t} : t.kind.isPlain = true → Passage [t] []
  | target {t ts noted} : t.kind.isPlain = true → Passage ts noted →
      Passage (t :: ts) (noted ++ [⟨.invalidTarget, t⟩])
  | append {ts us noted more} : Passage ts noted → Passage us more →
      Passage (ts ++ us) (noted ++ more)

theorem Passage.plain {ts : List Token} {noted : List Diagnostic} (h : Passage ts noted) :
    ∀ t ∈ ts, t.kind.isPlain = true := by
  induction h with
  | nil => exact fun t ht => absurd ht List.not_mem_nil
  | token ht => exact List.forall_mem_singleton.mpr ht
  | target ht _ ih => exact List.forall_mem_cons.mpr ⟨ht, ih⟩
  | append _ _ ih ih' => exact List.forall_mem_append.mpr ⟨ih, ih'⟩

theorem Passage.invalid {ts : List Token} {noted : List Diagnostic} (h : Passage ts noted) :
    ∀ d ∈ noted, d.fault = .invalidTarget := by
  induction h with
  | nil | token => exact fun d hd => absurd hd List.not_mem_nil
  | target _ _ ih => exact List.forall_mem_append.mpr ⟨ih, List.forall_mem_singleton.mpr rfl⟩
  | append _ _ ih ih' => exact List.forall_mem_append.mpr ⟨ih, ih'⟩

/-! ### Declarations -/

/-- How far a declaration has come, or a list of them. -/
inductive Stage where
  /-- A declaration is not at its end. -/
  | begun
  /-- A declaration is at its end. -/
  | done
  /-- A declaration is malformed. The token is the one that is ahead. -/
  | stopped (e : Diagnostic) (ahead : Token)
  /-- Declarations have been passed, and what stood between them. -/
  | several (inBlock : Bool) (ahead : Token)

/-- Whether a statement may begin behind these tokens of a declaration. -/
def AtStatement (ts : List Token) : Prop :=
  ∀ t ∈ ts.getLast?, t.kind = .rightParen ∨ t.kind = .elseWord

/-- How parsing goes on behind a malformed declaration of the tokens `ts`: over the tokens
`us`, from the one that it stopped at to the one behind them. -/
def Resumes (inBlock : Bool) (ts us : List Token) (stop next : Token) : Prop :=
  us.head? = some stop ∨
    us = [] ∧ ts ≠ [] ∧ next = stop ∧
      (next.kind = .eof ∨ (∃ t ∈ ts.getLast?, t.kind = .semicolon) ∨
        beginsStatement next.kind = true ∨ inBlock = true ∧ next.kind = .rightBrace)

inductive Course : Stage → List Token → List Diagnostic → Prop
  | nothing : Course .begun [] []
  | word {ts noted t} : Course .begun ts noted → beginsStatement t.kind = true →
      Course .begun (ts ++ [t]) noted
  | passage {ts noted us more} : Course .begun ts noted → Passage us more →
      Course .begun (ts ++ us) (noted ++ more)
  | otherwise {ts noted t} : Course .done ts noted → t.kind = .elseWord →
      Course .begun (ts ++ [t]) noted
  | semicolon {ts noted t} : Course .begun ts noted → t.kind = .semicolon →
      Course .done (ts ++ [t]) noted
  | block {ts noted us more opening closing} : Course .begun ts noted →
      opening.kind = .leftBrace → Course (.several true closing) us more →
      closing.kind = .rightBrace →
      Course .done (ts ++ opening :: (us ++ [closing])) (noted ++ more)
  /-- The token ahead is at fault. -/
  | ahead {ts noted fault t} : Course .begun ts noted → fault.stops = true →
      fault ≠ .tooMuchNesting → (ts = [] → beginsStatement t.kind = false) →
      Course (.stopped ⟨fault, t⟩ t) ts noted
  /-- The token just passed is at fault. -/
  | behind {ts noted fault t next} : Course .begun ts noted → fault.stops = true →
      t.kind.isPlain = true → Course (.stopped ⟨fault, t⟩ next) (ts ++ [t]) noted
  | noRoom {ts noted t next} : Course .done ts noted → t.kind = .elseWord →
      Course (.stopped ⟨.tooMuchNesting, t⟩ next) (ts ++ [t]) noted
  | unsupported {ts noted t} : Course .begun ts noted → AtStatement ts →
      beginsStatement t.kind = true → Course (.stopped ⟨.unsupported t.kind, t⟩ t) ts noted
  /-- There is no room for a block, and it has been skipped. -/
  | refused {ts noted us opening next} : Course .begun ts noted → AtStatement ts →
      opening.kind = .leftBrace →
      (next.kind = .eof ∨ ∃ t ∈ us.getLast?, t.kind = .rightBrace) →
      Course (.stopped ⟨.tooMuchNesting, opening⟩ next) (ts ++ opening :: us) noted
  /-- A block is not closed. -/
  | unclosed {ts noted us more opening next} : Course .begun ts noted →
      opening.kind = .leftBrace → Course (.several true next) us more → next.kind = .eof →
      Course (.stopped ⟨.expectedMark .rightBrace .block, next⟩ next) (ts ++ opening :: us)
        (noted ++ more)
  | none {inBlock next} : Course (.several inBlock next) [] []
  | one {inBlock t ts noted us more next} : Course (.several inBlock t) ts noted →
      us.head? = some t → (inBlock = true → t.kind ≠ .rightBrace) → Course .done us more →
      Course (.several inBlock next) (ts ++ us) (noted ++ more)
  | malformed {inBlock t ts noted us more e stop vs next} : Course (.several inBlock t) ts noted →
      (us ++ vs).head? = some t → (inBlock = true → t.kind ≠ .rightBrace) →
      Course (.stopped e stop) us more → Resumes inBlock us vs stop next →
      Course (.several inBlock next) (ts ++ (us ++ vs)) (noted ++ (more ++ [e]))

/-! ### Where declarations end -/

theorem not_plain_semicolon {t : Token} (h : t.kind.isPlain = true) : t.kind ≠ .semicolon := by
  intro hk
  rw [hk] at h
  cases h

theorem Course.ends {ts : List Token} {noted : List Diagnostic} (h : Course .done ts noted) :
    ∃ t ∈ ts.getLast?, t.kind = .semicolon ∨ t.kind = .rightBrace := by
  cases h with
  | semicolon _ ht => exact ⟨_, List.getLast?_concat, .inl ht⟩
  | @block ts _ us _ opening closing _ _ _ hclosing =>
    refine ⟨closing, ?_, .inr hclosing⟩
    rw [← List.cons_append, ← List.append_assoc]
    exact List.getLast?_concat

/-- A declaration that is not at its end has not passed a semicolon just now. -/
theorem Course.begun_last {ts : List Token} {noted : List Diagnostic} (h : Course .begun ts noted) :
    ∀ t ∈ ts.getLast?, t.kind ≠ .semicolon := by
  generalize hs : Stage.begun = stage at h
  induction h with
  | nothing => exact fun t ht => by cases ht
  | @word ts _ u _ hu =>
    intro t ht
    rw [List.getLast?_concat] at ht
    cases ht
    intro hk
    rw [hk] at hu
    cases hu
  | @passage ts _ us _ _ hus ih =>
    intro t ht
    rw [List.getLast?_append] at ht
    cases hlast : us.getLast? with
    | none =>
      rw [hlast] at ht
      exact ih rfl t ht
    | some u =>
      rw [hlast] at ht
      cases ht
      exact not_plain_semicolon (hus.plain _ (List.mem_of_getLast? hlast))
  | @otherwise ts _ u _ hu =>
    intro t ht
    rw [List.getLast?_concat] at ht
    cases ht
    rw [hu]
    decide
  | _ => cases hs

/-- **A declaration does not stop behind a semicolon**, unless it is a block that is not
closed. -/
theorem Course.stops {e : Diagnostic} {next : Token} {ts : List Token} {noted : List Diagnostic}
    (h : Course (.stopped e next) ts noted) :
    (∀ t ∈ ts.getLast?, t.kind ≠ .semicolon) ∨
      next.kind = .eof ∧ ∃ t ∈ ts, t.kind = .leftBrace := by
  have hopened {ts us : List Token} {opening : Token} (hk : opening.kind = .leftBrace) :
      ∃ t ∈ ts ++ opening :: us, t.kind = .leftBrace :=
    ⟨opening, List.mem_append_right _ List.mem_cons_self, hk⟩
  cases h with
  | ahead h _ _ _ => exact .inl h.begun_last
  | unsupported h _ _ => exact .inl h.begun_last
  | behind _ _ ht =>
    left
    intro u hu
    rw [List.getLast?_concat] at hu
    cases hu
    exact not_plain_semicolon ht
  | noRoom _ ht =>
    left
    intro u hu
    rw [List.getLast?_concat] at hu
    cases hu
    rw [ht]
    decide
  | unclosed _ hk _ hnext => exact .inr ⟨hnext, hopened hk⟩
  | @refused ts _ us opening _ _ _ hk hend =>
    rcases hend with hnext | ⟨t, ht, hkind⟩
    · exact .inr ⟨hnext, hopened hk⟩
    · left
      intro u hu
      rw [List.getLast?_append, List.getLast?_cons, ht] at hu
      cases hu
      show t.kind ≠ .semicolon
      rw [hkind]
      decide

/-! ### Braces -/

/-- No brace is closed before one is opened. -/
def Braced (ts : List Token) : Prop :=
  ∀ us t vs, ts = us ++ t :: vs → t.kind = .rightBrace → ∃ u ∈ us, u.kind = .leftBrace

theorem braced_of_none {ts : List Token} (h : ∀ t ∈ ts, t.kind ≠ .rightBrace) : Braced ts := by
  intro us t vs he hk
  refine absurd hk (h t ?_)
  rw [he]
  exact List.mem_append_right _ List.mem_cons_self

theorem Braced.append {ts us : List Token} (h : Braced ts) (h' : Braced us) :
    Braced (ts ++ us) := by
  intro vs t ws he hk
  rcases List.append_eq_append_iff.mp he with ⟨more, rfl, hmore⟩ | ⟨more, hmore, hws⟩
  · obtain ⟨u, hu, hopen⟩ := h' more t ws hmore hk
    exact ⟨u, List.mem_append_right _ hu, hopen⟩
  · cases more with
    | nil =>
      rw [List.append_nil] at hmore
      obtain ⟨u, hu, _⟩ := h' [] t ws hws.symm hk
      cases hu
    | cons u more =>
      obtain ⟨rfl, -⟩ := List.cons.inj hws
      exact h vs t more hmore hk

theorem braced_opened {opening : Token} (h : opening.kind = .leftBrace) (ts : List Token) :
    Braced (opening :: ts) := by
  intro us t vs he hk
  cases us with
  | nil =>
    obtain ⟨rfl, -⟩ := List.cons.inj he
    rw [h] at hk
    cases hk
  | cons u us =>
    obtain ⟨rfl, -⟩ := List.cons.inj he
    exact ⟨_, List.mem_cons_self, h⟩

theorem braced_token {t : Token} (h : t.kind ≠ .rightBrace) : Braced [t] :=
  braced_of_none (List.forall_mem_singleton.mpr h)

theorem Passage.braced {ts : List Token} {noted : List Diagnostic} (h : Passage ts noted) :
    Braced ts := by
  refine braced_of_none fun t ht hk => ?_
  have hplain := h.plain t ht
  rw [hk] at hplain
  cases hplain

/-- Of what stands between declarations nothing is said. -/
def Stage.isSingle : Stage → Bool
  | .several _ _ => false
  | _ => true

theorem Course.braced {stage : Stage} {ts : List Token} {noted : List Diagnostic}
    (h : Course stage ts noted) (hs : stage.isSingle = true) : Braced ts := by
  induction h with
  | nothing => exact braced_of_none fun t ht => absurd ht List.not_mem_nil
  | @word _ _ t _ ht ih =>
    exact (ih rfl).append (braced_token fun hk => by rw [hk] at ht; cases ht)
  | passage _ hus ih => exact (ih rfl).append hus.braced
  | otherwise _ ht ih => exact (ih rfl).append (braced_token (by rw [ht]; decide))
  | semicolon _ ht ih => exact (ih rfl).append (braced_token (by rw [ht]; decide))
  | block _ hk _ _ ih => exact (ih rfl).append (braced_opened hk _)
  | ahead _ _ _ _ ih => exact ih rfl
  | @behind _ _ _ t _ _ _ ht ih =>
    exact (ih rfl).append (braced_token fun hk => by rw [hk] at ht; cases ht)
  | noRoom _ ht ih => exact (ih rfl).append (braced_token (by rw [ht]; decide))
  | unsupported _ _ _ ih => exact ih rfl
  | refused _ _ hk _ ih => exact (ih rfl).append (braced_opened hk _)
  | unclosed _ hk _ _ ih => exact (ih rfl).append (braced_opened hk _)
  | none | one | malformed => cases hs

/-! ### Faults -/

/-- Where no block is opened nothing but targets is noted. -/
theorem Course.invalid {stage : Stage} {ts : List Token} {noted : List Diagnostic}
    (h : Course stage ts noted) (hs : stage.isSingle = true)
    (hts : ∀ t ∈ ts, t.kind ≠ .leftBrace) : ∀ d ∈ noted, d.fault = .invalidTarget := by
  have hopened {ts us : List Token} {opening : Token} (hk : opening.kind = .leftBrace)
      (hts : ∀ t ∈ ts ++ opening :: us, t.kind ≠ .leftBrace) : False :=
    hts opening (List.mem_append_right _ List.mem_cons_self) hk
  induction h with
  | nothing => exact fun d hd => absurd hd List.not_mem_nil
  | word _ _ ih | otherwise _ _ ih | semicolon _ _ ih | behind _ _ _ ih | noRoom _ _ ih =>
    exact ih rfl fun t ht => hts t (List.mem_append_left _ ht)
  | passage _ hus ih =>
    exact List.forall_mem_append.mpr
      ⟨ih rfl fun t ht => hts t (List.mem_append_left _ ht), hus.invalid⟩
  | ahead _ _ _ _ ih | unsupported _ _ _ ih => exact ih rfl hts
  | block _ hk | refused _ _ hk | unclosed _ hk => exact (hopened hk hts).elim
  | none | one | malformed => cases hs

/-- What stops a declaration is no target. -/
theorem Course.stopped_fault {e : Diagnostic} {next : Token} {ts : List Token}
    {noted : List Diagnostic} (h : Course (.stopped e next) ts noted) :
    e.fault ≠ .invalidTarget := by
  have hstops {fault : Fault} (h : fault.stops = true) : fault ≠ .invalidTarget := by
    intro hf
    rw [hf] at h
    cases h
  cases h with
  | ahead _ hf _ _ => exact hstops hf
  | behind _ hf _ => exact hstops hf
  | noRoom | unsupported | refused | unclosed => exact fun hf => by cases hf

end Scriptlet
