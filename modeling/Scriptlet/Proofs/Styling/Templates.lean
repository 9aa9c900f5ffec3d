import Mathlib.Data.List.TakeWhile
import Scriptlet.Proofs.Styling.Sequences
import Scriptlet.Text.Template

/-! Messages made of templates, with and without style.

Style wraps a term before the term is laid out. A slot that takes the whole of its term and
lays it out as it is (`Slot.TakesWhole`) does not look at the marks of the term, so that a
template of such slots makes the same message of terms whatever their marks (`fill_mark`). And
it puts the same text into the message with style and without, but for the sequences
(`fill_sheds`). -/
namespace Scriptlet.Text

/-- The part is the same with style and without, but for the sequences. -/
def Span.Sheds [Painter] (s : Span) : Prop :=
  Text.Sheds (s.write (emphasize true none)) (s.write (emphasize false none))

theorem Message.sheds [Painter] {m : Message} (h : ∀ s ∈ m, s.Sheds) :
    Sheds (m.render true) (m.render false) :=
  sheds_join (Span.write (emphasize true none)) (Span.write (emphasize false none)) h

/-- A layout that takes the whole of a term, and neither cuts it nor fills it up. -/
structure Layout.Loose (l : Layout) : Prop where
  pick : l.pick = none
  spelling : l.spelling = .plain
  limit : l.limit = none
  width : l.width = 0

theorem Layout.Loose.apply {l : Layout} (h : l.Loose) (term : String) : l.apply term = term := by
  have hmissing : l.width - term.length = 0 := by
    rw [h.width, Nat.zero_sub]
  simp only [Layout.apply, Layout.picked, h.pick, h.spelling, Spelling.spell, h.limit,
    Option.elim, Layout.pad, hmissing]
  cases l.alignment <;> simp

theorem Layout.Loose.sheds {painter : Painter} (hwraps : painter.Wraps) {l : Layout} (h : l.Loose)
    {term : String} (ht : Unescaped term) : (Span.term term l).Sheds := by
  rw [Span.Sheds, Span.write, Span.write, h.apply, h.apply]
  exact ht.emphasized hwraps none

/-! ### Slots -/

/-- A slot that takes the whole of a term and lays it out as it is: it picks out no part and
asks for no other spelling, and its specifier has no slots and asks for no length and no
width. -/
structure Slot.TakesWhole (s : Slot) : Prop where
  noPart : '.' ∉ s.name ∧ '[' ∉ s.name
  spelling : s.spelling = none ∨ s.spelling = some 's'
  noSlot : '{' ∉ s.specifier
  loose : ∀ l, Layout.ofSpecifier s.specifier = .ok l → l.limit = none ∧ l.width = 0

/-- Slots with nothing but the number of a term take the whole of it, and so do empty ones. -/
theorem Slot.takesWhole_of_name {name : List Char} (h : '.' ∉ name ∧ '[' ∉ name) :
    Slot.TakesWhole ⟨name, none, []⟩ :=
  ⟨h, .inl rfl, List.not_mem_nil, fun _ hl => by cases hl; exact ⟨rfl, rfl⟩⟩

namespace Template

section
variable [NamedParts] {terms : List String}

/-- What comes of a slot that takes the whole of its term. -/
theorem fillSlot_whole (expand : Expansion) (terms : List String) (mark : String → String)
    (n : Numbering) {s : Slot} (hs : s.TakesWhole) :
    fillSlot expand terms mark n s = (do
      let (i, n) ← s.index n
      match terms[i]?, Layout.ofSpecifier s.specifier with
      | none, _ => throw (.noTerm i)
      | some _, .error fault => throw (.specifier fault)
      | some term, .ok layout =>
        return (.term term { layout with pick := none, spelling := .plain }, n)) := by
  have hpart : s.name.dropWhile isNameChar = [] := by
    refine List.dropWhile_eq_nil_iff.mpr fun c hc => decide_eq_true ⟨fun he => ?_, fun he => ?_⟩
    · exact hs.noPart.1 (he ▸ hc)
    · exact hs.noPart.2 (he ▸ hc)
  have hspelling : Slot.spellingOf s.spelling = .ok .plain := by
    rcases hs.spelling with h | h <;> rw [h] <;> rfl
  have hnoSlot : s.specifier.contains '{' = false := by
    rw [List.contains_eq_mem]
    exact decide_eq_false hs.noSlot
  unfold fillSlot
  cases s.index n with
  | error fault => rfl
  | ok numbered =>
    obtain ⟨i, n⟩ := numbered
    cases hterm : terms[i]? with
    | none => simp only [hterm, bind, Except.bind]
    | some term =>
      simp only [hterm, hpart, Slot.pick, hspelling, hnoSlot, List.isEmpty_nil, if_true, bind,
        Except.bind, Bool.false_eq_true, if_false]
      cases Layout.ofSpecifier s.specifier <;> rfl

/-- The marks of terms make no difference to slots that take the whole of a term. -/
theorem fillWith_mark {template : Template}
    (hslots : ∀ s, Piece.slot s ∈ template → s.TakesWhole) (expand expand' : Expansion)
    (mark mark' : String → String) (n : Numbering) :
    fillWith expand terms mark n template = fillWith expand' terms mark' n template := by
  induction template generalizing n with
  | nil => rfl
  | cons piece rest ih =>
    have ih := ih fun s hs => hslots s (List.mem_cons_of_mem piece hs)
    cases piece with
    | char c => simp only [fillWith, ih]
    | slot s =>
      have hs := hslots s List.mem_cons_self
      simp only [fillWith, fillSlot_whole _ _ _ _ hs, ih]
    | broken fault => rfl

theorem fill_mark {template : Template} (hslots : ∀ s, Piece.slot s ∈ template → s.TakesWhole)
    (terms : List String) (mark mark' : String → String) :
    template.fill terms mark = template.fill terms mark' := by
  rw [fill, fill, fillWith_mark hslots]

end

/-- The characters of a template are those of its text. -/
theorem char_mem_pieces {c : Char} {skip : Nat} {text : List Char}
    (h : Piece.char c ∈ pieces skip text) : c ∈ text := by
  induction text generalizing skip with
  | nil => cases skip <;> cases h
  | cons d rest ih =>
    have hrest {skip : Nat} (h : Piece.char c ∈ pieces skip rest) : c ∈ d :: rest :=
      List.mem_cons_of_mem d (ih h)
    have hfirst {skip : Nat} (h : Piece.char c ∈ Piece.char d :: pieces skip rest) :
        c ∈ d :: rest := by
      rcases List.mem_cons.mp h with he | h
      · cases he
        exact List.mem_cons_self
      · exact hrest h
    cases skip with
    | succ skip => exact hrest h
    | zero =>
      unfold pieces at h
      split at h
      · split at h
        · exact hfirst h
        · split at h
          · simp at h
          · split at h
            · simp at h
            · split at h
              · exact hrest ((List.mem_cons.mp h).resolve_left (by nofun))
              · simp at h
      · exact hfirst h

/-! ### Messages -/

section
variable [NamedParts] {painter : Painter} (hwraps : painter.Wraps) {expand : Expansion}
  {terms : List String} {mark : String → String} (hterms : ∀ t ∈ terms, Unescaped t)
include hwraps hterms

theorem fillSlot_sheds {s : Slot} (hs : s.TakesWhole) {n n' : Numbering} {span : Span}
    (h : fillSlot expand terms mark n s = .ok (span, n')) : span.Sheds := by
  rw [fillSlot_whole _ _ _ _ hs] at h
  cases hindex : s.index n with
  | error fault => simp [hindex, bind, Except.bind] at h
  | ok numbered =>
    cases hterm : terms[numbered.1]? with
    | none => simp [hindex, hterm, bind, Except.bind, throw, throwThe, MonadExceptOf.throw] at h
    | some term =>
      cases hlayout : Layout.ofSpecifier s.specifier with
      | error fault =>
        simp [hindex, hterm, hlayout, bind, Except.bind, throw, throwThe, MonadExceptOf.throw] at h
      | ok l =>
        simp only [hindex, hterm, hlayout, bind, Except.bind, pure, Except.pure, Except.ok.injEq,
          Prod.mk.injEq] at h
        obtain ⟨rfl, -⟩ := h
        obtain ⟨hlimit, hwidth⟩ := hs.loose l hlayout
        have hloose : Layout.Loose { l with pick := none, spelling := .plain } :=
          ⟨rfl, rfl, hlimit, hwidth⟩
        exact hloose.sheds hwraps (hterms term (List.mem_of_getElem? hterm))

theorem fillWith_sheds {template : Template}
    (hslots : ∀ s, Piece.slot s ∈ template → s.TakesWhole)
    (hchars : ∀ c, Piece.char c ∈ template → c ≠ escapeChar) {n n' : Numbering} {m : Message}
    (h : fillWith expand terms mark n template = .ok (m, n')) : ∀ span ∈ m, span.Sheds := by
  induction template generalizing n m with
  | nil =>
    cases h
    exact List.forall_mem_nil _
  | cons piece rest ih =>
    have ih {n : Numbering} {m : Message} :=
      @ih (fun s hs => hslots s (List.mem_cons_of_mem piece hs))
        (fun c hc => hchars c (List.mem_cons_of_mem piece hc)) n m
    cases piece with
    | char c =>
      have hc : Unescaped (String.singleton c) := by
        rw [Unescaped, String.toList_singleton, List.mem_singleton]
        exact (hchars c List.mem_cons_self).symm
      cases hrest : fillWith expand terms mark n rest with
      | error fault => simp [fillWith, hrest, bind, Except.bind] at h
      | ok reply =>
        simp only [fillWith, hrest, bind, Except.bind, pure, Except.pure, Except.ok.injEq,
          Prod.mk.injEq] at h
        obtain ⟨rfl, rfl⟩ := h
        exact List.forall_mem_cons.mpr ⟨hc.sheds, ih hrest⟩
    | slot s =>
      cases hslot : fillSlot expand terms mark n s with
      | error fault => simp [fillWith, hslot, bind, Except.bind] at h
      | ok filled =>
        cases hrest : fillWith expand terms mark filled.2 rest with
        | error fault => simp [fillWith, hslot, hrest, bind, Except.bind] at h
        | ok reply =>
          simp only [fillWith, hslot, hrest, bind, Except.bind, pure, Except.pure,
            Except.ok.injEq, Prod.mk.injEq] at h
          obtain ⟨rfl, rfl⟩ := h
          have hspan := fillSlot_sheds hwraps hterms (hslots s List.mem_cons_self) hslot
          exact List.forall_mem_cons.mpr ⟨hspan, ih hrest⟩
    | broken fault => cases h

/-- **A template whose slots take whole terms makes one text of them, with style and without.** -/
theorem fill_sheds {text : String} (htext : Unescaped text)
    (hslots : ∀ s, Piece.slot s ∈ ofString text → s.TakesWhole) {m : Message}
    (h : (ofString text).fill terms mark = .ok m) : Sheds (m.render true) (m.render false) := by
  cases hfill : fillWith (expandSpecifier terms mark) terms mark .undecided (ofString text) with
  | error fault => simp [fill, hfill, bind, Except.bind] at h
  | ok reply =>
    simp only [fill, hfill, bind, Except.bind, pure, Except.pure, Except.ok.injEq] at h
    subst h
    refine Message.sheds (fillWith_sheds hwraps hterms hslots (fun c hc he => htext ?_) hfill)
    exact he ▸ char_mem_pieces hc

end

end Template

end Scriptlet.Text
