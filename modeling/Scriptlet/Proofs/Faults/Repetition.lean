import Mathlib.Algebra.Order.Group.Multiset
import Scriptlet.Proofs.Faults.Declarations
import Scriptlet.Proofs.Locality.Spacing

/-! Few diagnostics are repeated.

A token can be blamed twice: for a statement that begins with it and is not
supported, and for anything else. So each token is given two slots, and along the
course of parsing every diagnostic takes a slot of its own (`Course.bounded`). A
word that begins a declaration is not blamed for anything else by the declaration
itself, which leaves that slot to a declaration that was stopped in front of it.

Two sorts of diagnostics take no slot, and they are the ones that may be repeated:
those of the end, and those of a statement that is not supported and stands as a
branch of an if. Behind such a statement parsing resumes in front of it. -/
namespace Scriptlet

open Scriptlet.Parser Scriptlet.Cursor

/-! ### Slots -/

/-- Whether a token stands where a branch of an if begins. -/
def Token.IsBranch (ts : List Token) (u : Token) : Prop :=
  ∃ t ∈ ts, (t.kind = .rightParen ∨ t.kind = .elseWord) ∧ [t, u] <:+: ts

instance (ts : List Token) (u : Token) : Decidable (u.IsBranch ts) :=
  inferInstanceAs (Decidable (∃ t ∈ ts, _))

def Fault.isUnsupported : Fault → Bool
  | .unsupported _ => true
  | _ => false

/-- Whether a diagnostic takes a slot. -/
def Diagnostic.counts (ts : List Token) (d : Diagnostic) : Bool :=
  d.token.kind != .eof && !(d.fault.isUnsupported && decide (d.token.IsBranch ts))

/-- The slots that diagnostics take. -/
def blamed (ts : List Token) (ds : List Diagnostic) : Multiset (Token × Bool) :=
  ↑((ds.filter (·.counts ts)).map fun d => (d.token, d.fault.isUnsupported))

/-- All slots of some tokens. -/
def slots : List Token → Multiset (Token × Bool)
  | [] => 0
  | t :: ts => {(t, false)} + {(t, true)} + slots ts

/-- The slots that a declaration may take. -/
def ownSlots : List Token → Multiset (Token × Bool)
  | [] => 0
  | t :: ts =>
    (if beginsStatement t.kind then {(t, true)} else {(t, false)} + {(t, true)}) + slots ts

/-- The slot of a token in front of which parsing has been stopped. -/
def frontSlot (t : Token) : Multiset (Token × Bool) :=
  if t.kind = .eof then 0 else {(t, false)}

/-- The slots that a declaration may take which is stopped in front of a token. -/
def stoppedSlots (ts : List Token) (next : Token) : Multiset (Token × Bool) :=
  if ts = [] then ownSlots [next] else ownSlots ts + frontSlot next

/-- The slot that may have been taken in front of a token where parsing has resumed. -/
def pendingSlot (inBlock : Bool) (t : Token) : Multiset (Token × Bool) :=
  if beginsStatement t.kind = true ∨ inBlock = true ∧ t.kind = .rightBrace then {(t, false)} else 0

section
variable {ts us : List Token} {t : Token}

theorem slots_append (ts us : List Token) : slots (ts ++ us) = slots ts + slots us := by
  induction ts with
  | nil => exact (zero_add _).symm
  | cons t ts ih =>
    show _ + slots (ts ++ us) = _ + slots ts + slots us
    rw [ih, add_assoc _ (slots ts)]

theorem ownSlots_append (h : ts ≠ []) (us : List Token) :
    ownSlots (ts ++ us) = ownSlots ts + slots us := by
  obtain ⟨t, ts, rfl⟩ := List.exists_cons_of_ne_nil h
  show _ + slots (ts ++ us) = _ + slots ts + slots us
  rw [slots_append, add_assoc]

theorem ownSlots_eq (h : ∀ t ∈ us.head?, beginsStatement t.kind = false) :
    ownSlots us = slots us := by
  cases us with
  | nil => rfl
  | cons t us => rw [ownSlots, h t rfl, if_neg Bool.false_ne_true, slots]

theorem ownSlots_add (h : ∀ t ∈ us.head?, beginsStatement t.kind = false) :
    ownSlots (ts ++ us) = ownSlots ts + slots us := by
  cases ts with
  | nil => rw [List.nil_append, ownSlots_eq h, ownSlots, zero_add]
  | cons t ts => exact ownSlots_append (List.cons_ne_nil t ts) us

theorem ownSlots_le_append (ts us : List Token) : ownSlots ts ≤ ownSlots (ts ++ us) := by
  cases ts with
  | nil => exact Multiset.zero_le _
  | cons t ts =>
    rw [ownSlots_append (List.cons_ne_nil t ts)]
    exact Multiset.le_add_right _ _

theorem slots_le_cons (t : Token) (ts : List Token) : slots ts ≤ slots (t :: ts) :=
  Multiset.le_add_left _ _

theorem mem_slots {t : Token} {b : Bool} {ts : List Token} :
    (t, b) ∈ slots ts ↔ t ∈ ts := by
  induction ts with
  | nil => simp [slots]
  | cons u ts ih => cases b <;> simp [slots, ih]

theorem slots_nodup (h : ts.Nodup) : (slots ts).Nodup := by
  induction ts with
  | nil => exact Multiset.nodup_zero
  | cons t ts ih =>
    obtain ⟨ht, hts⟩ := List.nodup_cons.mp h
    rw [slots, add_assoc, Multiset.singleton_add, Multiset.singleton_add, Multiset.nodup_cons,
      Multiset.nodup_cons]
    simp [mem_slots, ht, ih hts]

end

section
variable {ts : List Token}

theorem blamed_append (ds es : List Diagnostic) :
    blamed ts (ds ++ es) = blamed ts ds + blamed ts es := by
  rw [blamed, List.filter_append, List.map_append, ← Multiset.coe_add]
  rfl

theorem blamed_eof {d : Diagnostic} (h : d.token.kind = .eof) : blamed ts [d] = 0 := by
  simp [blamed, Diagnostic.counts, h]

theorem blamed_branch {d : Diagnostic} (h : d.fault.isUnsupported = true)
    (h' : d.token.IsBranch ts) : blamed ts [d] = 0 := by
  simp [blamed, Diagnostic.counts, h, h']

theorem blamed_le (d : Diagnostic) : blamed ts [d] ≤ {(d.token, d.fault.isUnsupported)} := by
  cases hcounts : d.counts ts with
  | true => simp [blamed, hcounts]
  | false => simp [blamed, hcounts]

end

/-! ### The course of parsing -/

theorem stops_supported {f : Fault} (h : f.stops = true) : f.isUnsupported = false := by
  cases f <;> first | rfl | cases h

/-- A token is blamed for a fault of the usual sort. -/
theorem blamed_le_frontSlot {ts : List Token} {f : Fault} (h : f.isUnsupported = false)
    (t : Token) : blamed ts [⟨f, t⟩] ≤ frontSlot t := by
  by_cases ht : t.kind = .eof
  · rw [blamed_eof ht]
    exact Multiset.zero_le _
  · rw [frontSlot, if_neg ht, ← h]
    exact blamed_le _

theorem frontSlot_le (t : Token) : frontSlot t ≤ {(t, false)} := by
  unfold frontSlot
  split
  · exact Multiset.zero_le _
  · exact le_refl _

theorem frontSlot_le_slots {t : Token} {ts : List Token} (h : t ∈ ts) : frontSlot t ≤ slots ts :=
  (frontSlot_le t).trans (Multiset.singleton_le.mpr (mem_slots.mpr h))

theorem Passage.bounded {all ts : List Token} {noted : List Diagnostic} (h : Passage ts noted) :
    blamed all noted ≤ slots ts := by
  induction h with
  | nil | token => exact Multiset.zero_le _
  | @target t ts noted _ _ ih =>
    rw [blamed_append, slots, add_comm]
    refine add_le_add ?_ ih
    exact (blamed_le _).trans (Multiset.le_add_right _ _)
  | append _ _ ih ih' =>
    rw [blamed_append, slots_append]
    exact add_le_add ih ih'

section
variable {all ts us vs : List Token} {noted more : List Diagnostic} {t next : Token} {f : Fault}
  {inBlock : Bool}

theorem ownSlots_le_stopped (h : ts ≠ []) (next : Token) : ownSlots ts ≤ stoppedSlots ts next := by
  rw [stoppedSlots, if_neg h]
  exact Multiset.le_add_right _ _

/-- The token ahead is at fault. -/
theorem bounded_ahead (h : blamed all noted ≤ ownSlots ts) (hf : f.isUnsupported = false)
    (hfresh : ts = [] → beginsStatement t.kind = false) :
    blamed all (noted ++ [⟨f, t⟩]) ≤ stoppedSlots ts t := by
  rw [blamed_append, stoppedSlots]
  split
  next hnil =>
    subst hnil
    rw [ownSlots_eq fun u hu => by cases hu; exact hfresh rfl, ← zero_add (slots [t])]
    refine add_le_add h ?_
    exact (blamed_le_frontSlot hf t).trans (frontSlot_le_slots List.mem_cons_self)
  next => exact add_le_add h (blamed_le_frontSlot hf t)

/-- A token that has been passed is at fault. -/
theorem bounded_passed (h : blamed all noted ≤ ownSlots ts) (hf : f.isUnsupported = false)
    (ht : beginsStatement t.kind = false) (us : List Token) (next : Token) :
    blamed all (noted ++ [⟨f, t⟩]) ≤ stoppedSlots (ts ++ t :: us) next := by
  refine le_trans ?_ (ownSlots_le_stopped (by simp) next)
  rw [blamed_append, ownSlots_add fun u hu => by cases hu; exact ht]
  refine add_le_add h ?_
  exact (blamed_le_frontSlot hf t).trans (frontSlot_le_slots List.mem_cons_self)

theorem bounded_unsupported (h : blamed all noted ≤ ownSlots ts) (hstart : AtStatement ts)
    (ht : beginsStatement t.kind = true) (hall : ts ++ [t] <:+: all) :
    blamed all (noted ++ [⟨.unsupported t.kind, t⟩]) ≤ stoppedSlots ts t := by
  rw [blamed_append, stoppedSlots]
  split
  next hnil =>
    subst hnil
    rw [ownSlots, if_pos ht, add_comm]
    exact add_le_add (blamed_le _) h
  next hne =>
    have hbranch : t.IsBranch all := by
      have hlast := List.getLast?_eq_some_getLast hne
      have hpair : [ts.getLast hne, t] <:+: all := by
        refine List.IsInfix.trans ⟨ts.dropLast, [], ?_⟩ hall
        rw [List.append_nil, List.append_cons, List.dropLast_concat_getLast]
      exact ⟨_, hpair.subset List.mem_cons_self, hstart _ hlast, hpair⟩
    rw [blamed_branch rfl hbranch, add_zero]
    exact h.trans (Multiset.le_add_right _ _)

theorem pendingSlot_le (inBlock : Bool) (t : Token) : pendingSlot inBlock t ≤ {(t, false)} := by
  unfold pendingSlot
  split
  · exact le_refl _
  · exact Multiset.zero_le _

theorem pendingSlot_eof (ht : t.kind = .eof) : pendingSlot inBlock t = 0 := by
  rw [pendingSlot, ht]
  exact if_neg (by simp [beginsStatement])

/-- The slot that is left in front of a declaration is not taken by it. -/
theorem pendingSlot_add (hfirst : us.head? = some t)
    (hclose : inBlock = true → t.kind ≠ .rightBrace) :
    pendingSlot inBlock t + ownSlots us = slots us := by
  obtain ⟨us, rfl⟩ := List.head?_eq_some_iff.mp hfirst
  cases hword : beginsStatement t.kind with
  | true => rw [pendingSlot, if_pos (.inl hword), ownSlots, if_pos hword, slots, add_assoc]
  | false =>
    have hnone : ¬ (beginsStatement t.kind = true ∨ inBlock = true ∧ t.kind = .rightBrace) := by
      rw [hword]
      exact fun h => h.elim Bool.false_ne_true fun h => hclose h.1 h.2
    rw [pendingSlot, if_neg hnone, zero_add, ownSlots_eq fun u hu => by cases hu; exact hword]

/-- Where parsing has resumed, the slot of the token that it stopped at is taken by what has been
passed or is left in front. -/
theorem bounded_resumed (hfirst : (us ++ vs).head? = some t)
    (hclose : inBlock = true → t.kind ≠ .rightBrace) {e : Diagnostic} {stop : Token}
    (hstopped : Course (.stopped e stop) us more) (h : Resumes inBlock us vs stop next) :
    pendingSlot inBlock t + stoppedSlots us stop ≤ slots (us ++ vs) + pendingSlot inBlock next := by
  cases us with
  | nil =>
    -- nothing has been passed, so that the token is the first of what is moved over
    have hhead : vs.head? = some stop := h.resolve_right fun h => h.2.1 rfl
    obtain rfl : t = stop := Option.some.inj (hfirst.symm.trans hhead)
    obtain ⟨vs, rfl⟩ := List.head?_eq_some_iff.mp hhead
    rw [stoppedSlots, if_pos rfl, pendingSlot_add rfl hclose]
    refine le_trans ?_ (Multiset.le_add_right _ _)
    rw [List.nil_append, ← List.singleton_append, slots_append]
    exact Multiset.le_add_right _ _
  | cons u us =>
    have hhead : (u :: us).head? = some t := hfirst
    rw [stoppedSlots, if_neg (List.cons_ne_nil u us), ← add_assoc, pendingSlot_add hhead hclose,
      slots_append, add_assoc]
    refine add_le_add (le_refl _) ?_
    rcases h with hhead | ⟨rfl, -, rfl, hend | hlast | hword⟩
    · exact (frontSlot_le_slots (List.mem_of_mem_head? hhead)).trans (Multiset.le_add_right _ _)
    · rw [frontSlot, if_pos hend]
      exact Multiset.zero_le _
    · obtain ⟨w, hw, hk⟩ := hlast
      rcases hstopped.stops with hno | ⟨hend, -⟩
      · exact absurd hk (hno w hw)
      · rw [frontSlot, if_pos hend]
        exact Multiset.zero_le _
    · rw [pendingSlot, if_pos hword]
      exact (frontSlot_le _).trans (Multiset.le_add_left _ _)

end

/-- The tokens that a stage knows of: those that have been passed and the one ahead. -/
def Stage.reach (stage : Stage) (ts : List Token) : List Token :=
  match stage with
  | .begun | .done => ts
  | .stopped _ next | .several _ next => ts ++ [next]

/-- The diagnostics of a stage take slots of the tokens that have been passed, and at most one
of the token ahead. -/
def Bounded (all : List Token) : Stage → List Token → List Diagnostic → Prop
  | .begun, ts, noted | .done, ts, noted => blamed all noted ≤ ownSlots ts
  | .stopped e next, ts, noted => blamed all (noted ++ [e]) ≤ stoppedSlots ts next
  | .several inBlock next, ts, noted => blamed all noted ≤ slots ts + pendingSlot inBlock next

theorem plain_not_begins {t : Token} (h : t.kind.isPlain = true) :
    beginsStatement t.kind = false := by
  cases hk : beginsStatement t.kind with
  | false => rfl
  | true => simp [Kind.isPlain, hk] at h

theorem infix_head {ts us all : List Token} {t : Token} (h : us.head? = some t)
    (hall : ts ++ us <:+: all) : ts ++ [t] <:+: all := by
  obtain ⟨rest, rfl⟩ := List.head?_eq_some_iff.mp h
  rw [List.append_cons] at hall
  exact (List.prefix_append _ _).isInfix.trans hall

/-- The token that a declaration stopped at stands directly behind what it has passed. -/
theorem Resumes.stands {inBlock : Bool} {us vs all : List Token} {stop next : Token}
    (h : Resumes inBlock us vs stop next) (hall : us ++ vs ++ [next] <:+: all) :
    us ++ [stop] <:+: all := by
  rcases h with hhead | ⟨rfl, -, rfl, -⟩
  · exact infix_head hhead ((List.prefix_append _ _).isInfix.trans hall)
  · rwa [List.append_nil] at hall

/-- **Every diagnostic takes a slot of its own.** -/
theorem Course.bounded {all : List Token} {stage : Stage} {ts : List Token}
    {noted : List Diagnostic} (h : Course stage ts noted) (hall : stage.reach ts <:+: all) :
    Bounded all stage ts noted := by
  have hleft {us vs : List Token} (h : us ++ vs <:+: all) : us <:+: all :=
    (List.prefix_append us vs).isInfix.trans h
  have hright {us vs : List Token} (h : us ++ vs <:+: all) : vs <:+: all :=
    (List.suffix_append us vs).isInfix.trans h
  have hbrace {t : Token} (h : t.kind = .leftBrace) : beginsStatement t.kind = false := by
    rw [h]
    rfl
  induction h with
  | nothing | none => exact Multiset.zero_le _
  | @word ts _ t _ _ ih | @otherwise ts _ t _ _ ih | @semicolon ts _ t _ _ ih =>
    exact (ih (hleft hall)).trans (ownSlots_le_append ts [t])
  | @passage ts noted us more _ hus ih =>
    have hhead : ∀ t ∈ us.head?, beginsStatement t.kind = false :=
      fun t ht => plain_not_begins (hus.plain t (List.mem_of_mem_head? ht))
    rw [Bounded, blamed_append, ownSlots_add hhead]
    exact add_le_add (ih (hleft hall)) hus.bounded
  | @block ts noted us more opening closing _ hk _ hc ih ih' =>
    have hinner : us ++ [closing] <:+: all := hright (hright hall : [opening] ++ _ <:+: all)
    rw [Bounded, blamed_append, ownSlots_add fun u hu => by cases hu; exact hbrace hk]
    refine add_le_add (ih (hleft hall)) (((ih' hinner).trans ?_).trans (slots_le_cons opening _))
    rw [slots_append]
    refine add_le_add (le_refl _) ((pendingSlot_le true closing).trans ?_)
    exact Multiset.singleton_le.mpr (mem_slots.mpr List.mem_cons_self)
  | ahead _ hf _ hfresh ih => exact bounded_ahead (ih (hleft hall)) (stops_supported hf) hfresh
  | behind _ hf ht ih =>
    exact bounded_passed (ih (hleft (hleft hall))) (stops_supported hf) (plain_not_begins ht) [] _
  | noRoom _ ht ih =>
    exact bounded_passed (ih (hleft (hleft hall))) rfl (by rw [ht]; rfl) [] _
  | unsupported _ hstart ht ih => exact bounded_unsupported (ih (hleft hall)) hstart ht hall
  | refused _ _ hk _ ih => exact bounded_passed (ih (hleft (hleft hall))) rfl (hbrace hk) _ _
  | @unclosed ts noted us more opening next _ hk _ hend ih ih' =>
    have hwhole : ts ++ ([opening] ++ (us ++ [next])) <:+: all := by
      rw [← List.append_assoc [opening], ← List.append_assoc]
      exact hall
    have hinner := ih' (hright (hright hwhole))
    rw [Bounded, pendingSlot_eof hend, add_zero] at hinner
    rw [Bounded, blamed_append, blamed_eof hend, add_zero, blamed_append]
    refine le_trans ?_ (ownSlots_le_stopped (by simp) next)
    rw [ownSlots_add fun u hu => by cases hu; exact hbrace hk]
    exact add_le_add (ih (hleft hwhole)) (hinner.trans (slots_le_cons opening us))
  | @one inBlock t ts noted us more next _ hfirst hclose _ ih ih' =>
    have hpassed : ts ++ us <:+: all := hleft hall
    have hbefore := ih (infix_head hfirst hpassed)
    calc blamed all (noted ++ more)
        = blamed all noted + blamed all more := blamed_append _ _
      _ ≤ slots ts + pendingSlot inBlock t + ownSlots us :=
        add_le_add hbefore (ih' (hright hpassed))
      _ = slots (ts ++ us) := by rw [add_assoc, pendingSlot_add hfirst hclose, slots_append]
      _ ≤ slots (ts ++ us) + pendingSlot inBlock next := Multiset.le_add_right _ _
  | @malformed inBlock t ts noted us more e stop vs next _ hfirst hclose hstopped hresumes ih ih' =>
    have hpassed : ts ++ (us ++ vs) <:+: all := hleft hall
    have hbefore := ih (infix_head hfirst hpassed)
    have hstop := ih' (hresumes.stands (hright (by rwa [Stage.reach, List.append_assoc] at hall)))
    calc blamed all (noted ++ (more ++ [e]))
        = blamed all noted + blamed all (more ++ [e]) := blamed_append _ _
      _ ≤ slots ts + pendingSlot inBlock t + stoppedSlots us stop := add_le_add hbefore hstop
      _ = slots ts + (pendingSlot inBlock t + stoppedSlots us stop) := add_assoc _ _ _
      _ ≤ slots ts + (slots (us ++ vs) + pendingSlot inBlock next) :=
        add_le_add (le_refl _) (bounded_resumed hfirst hclose hstopped hresumes)
      _ = slots (ts ++ (us ++ vs)) + pendingSlot inBlock next := by
        rw [← add_assoc, slots_append ts]

/-! ### Wordings -/

/-- A wording that begins with a quote is that of a statement which is not supported. -/
theorem isUnsupported_eq (f : Fault) :
    f.isUnsupported = ((Text.Message.text f.message).toList.head? == some '\'') := by
  cases f with
  | unterminatedString | expectedExpression | expectedName | invalidTarget | tooMuchNesting => rfl
  | unexpectedCharacter | invalidNumber | expectedMark | unsupported =>
    simp [Text.Message.text, Text.Message.write, Fault.message, Text.Span.write, String.join,
      Fault.isUnsupported]

/-- The wording of a fault of the scanner is like no other. -/
theorem isLexical_eq (f : Fault) :
    f.isLexical = ((Text.Message.text f.message).toList.take 3 == ['U', 'n', 't']) := by
  cases f with
  | unterminatedString | expectedExpression | expectedName | invalidTarget | tooMuchNesting => rfl
  | unexpectedCharacter | invalidNumber | expectedMark | unsupported =>
    simp [Text.Message.text, Text.Message.write, Fault.message, Text.Span.write, String.join,
      Fault.isLexical]

/-! ### Whole sources -/

/-- What parsers note is no fault of the scanner. -/
theorem Course.parsed {stage : Stage} {ts : List Token} {noted : List Diagnostic}
    (h : Course stage ts noted) :
    (∀ d ∈ noted, d.fault.isLexical = false) ∧
      ∀ e next, stage = .stopped e next → e.fault.isLexical = false := by
  have hstops {f : Fault} (h : f.stops = true) : f.isLexical = false := by
    cases f <;> first | rfl | cases h
  have hinvalid {noted : List Diagnostic} (h : ∀ d ∈ noted, d.fault = .invalidTarget) :
      ∀ d ∈ noted, d.fault.isLexical = false := by
    intro d hd
    rw [h d hd]
    rfl
  induction h with
  | nothing | none => exact ⟨fun d hd => absurd hd List.not_mem_nil, fun e next he => by cases he⟩
  | word _ _ ih | otherwise _ _ ih | semicolon _ _ ih => exact ⟨ih.1, fun e next he => by cases he⟩
  | passage _ hus ih =>
    exact ⟨List.forall_mem_append.mpr ⟨ih.1, hinvalid hus.invalid⟩, fun e next he => by cases he⟩
  | block _ _ _ _ ih ih' | one _ _ _ _ ih ih' =>
    exact ⟨List.forall_mem_append.mpr ⟨ih.1, ih'.1⟩, fun e next he => by cases he⟩
  | ahead _ hf _ _ ih | behind _ hf _ ih =>
    refine ⟨ih.1, fun e next he => ?_⟩
    cases he
    exact hstops hf
  | noRoom _ _ ih | unsupported _ _ _ ih | refused _ _ _ _ ih =>
    refine ⟨ih.1, fun e next he => ?_⟩
    cases he
    rfl
  | unclosed _ _ _ _ ih ih' =>
    refine ⟨List.forall_mem_append.mpr ⟨ih.1, ih'.1⟩, fun e next he => ?_⟩
    cases he
    rfl
  | malformed _ _ _ _ _ ih ih' =>
    refine ⟨List.forall_mem_append.mpr ⟨ih.1, List.forall_mem_append.mpr ⟨ih'.1, ?_⟩⟩,
      fun e next he => by cases he⟩
    exact List.forall_mem_singleton.mpr (ih'.2 _ _ rfl)

theorem parseTokens_distinct (room : Nat) {ts : Tokens} (h : (start ts).Delimited)
    (hts : ts.body.Nodup) :
    (parseTokens room ts).diagnostics.Pairwise fun d e => d.token = e.token →
      d.fault.isUnsupported = e.fault.isUnsupported →
      d.token.kind = .eof ∨ d.fault.isUnsupported = true ∧ d.token.IsBranch ts.toList := by
  have hbounded : blamed ts.toList (parseTokens room ts).diagnostics ≤
      slots ts.body + pendingSlot false ts.final :=
    (course_program room h).bounded (List.infix_refl _)
  have hfinal : ts.final.kind = .eof := h.final
  rw [pendingSlot_eof hfinal, add_zero] at hbounded
  have hnodup := Multiset.coe_nodup.mp (Multiset.nodup_of_le hbounded (slots_nodup hts))
  rw [List.Nodup, List.pairwise_map, List.pairwise_filter] at hnodup
  refine hnodup.imp fun {d e} hdistinct htoken hsort => ?_
  by_contra hnot
  have hd : d.counts ts.toList = true := by
    obtain ⟨heof, hbranch⟩ := not_or.mp hnot
    simpa [Diagnostic.counts, heof] using not_and_or.mp hbranch
  have he : e.counts ts.toList = true := by
    rw [← hd, Diagnostic.counts, Diagnostic.counts, htoken, hsort]
  exact hdistinct hd he (Prod.ext htoken hsort)

/-- **No diagnostic is repeated**, for every limit: of two diagnostics of a source with the same
wording and the same token, that token is the end, or it begins a statement which is not supported
and stands as a branch of an if. -/
theorem parse_distinct (limit : Int) (source : List Char) :
    (parse limit.toNat source).diagnostics.Pairwise fun d e => d.token = e.token →
      Text.Message.text d.fault.message = Text.Message.text e.fault.message →
      d.token.kind = .eof ∨
        d.fault.isUnsupported = true ∧ d.token.IsBranch (Tokens.scan source).toList := by
  have hbody : (Tokens.scan source).body.Nodup := (List.nodup_append.mp (toList_nodup source)).1
  have hparsed := (course_program limit.toNat (start_proper source).toDelimited).parsed.1
  refine List.pairwise_append.mpr ⟨?_, ?_, fun d hd e he _ htext => ?_⟩
  · rw [Tokens.lexical, List.pairwise_map]
    have hunterminated := hbody.filter Token.isUnterminated
    exact hunterminated.imp fun hne htoken => absurd htoken hne
  · exact (parseTokens_distinct limit.toNat (start_proper source).toDelimited hbody).imp
      fun hdistinct htoken htext =>
        hdistinct htoken (by rw [isUnsupported_eq, htext, isUnsupported_eq])
  · obtain ⟨t, -, rfl⟩ := List.mem_map.mp hd
    have hlexical := isLexical_eq e.fault
    rw [← htext, ← isLexical_eq, hparsed e he] at hlexical
    cases hlexical

/-- A statement that is not supported is reported twice where it stands as a branch of an if:
behind its parenthesis, and once more in front of itself. -/
theorem branch_repeated :
    (parse (41 : Int).toNat "if (a) return;".toList).diagnostics =
      [⟨.unsupported .returnWord, ⟨.returnWord, 7, 12, "return"⟩⟩,
        ⟨.unsupported .returnWord, ⟨.returnWord, 7, 12, "return"⟩⟩] := by
  decide +kernel

end Scriptlet
