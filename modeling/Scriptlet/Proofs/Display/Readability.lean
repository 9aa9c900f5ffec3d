import Scriptlet.Proofs.Lexing.Grammar
import Scriptlet.Tree.Display

/-! Forms that can be read off their texts.

A word goes on to the next space, parenthesis or quote, what is in quotes to the next quote,
and a group to its parenthesis. So where words are the heads of all groups, and the atoms
are words or in quotes (`Readable`), a text is the text of one form only, and it shows where
that form ends (`Readable.unique`). -/
namespace Scriptlet.Form

/-! ### Words -/

/-- The characters of words. -/
def isWordChar (c : Char) : Bool :=
  c ∉ [' ', '(', ')', '"']

theorem isWordChar_of {p : Char → Bool} (h : [' ', '(', ')', '"'].any p = false) {c : Char}
    (hc : p c = true) : isWordChar c = true :=
  decide_eq_true fun hmem => List.any_eq_false.mp h c hmem hc

structure IsWord (text : String) : Prop where
  ne_nil : text.toList ≠ []
  letters : ∀ c ∈ text.toList, isWordChar c = true

theorem isWord_iff {text : String} :
    IsWord text ↔ text.toList ≠ [] ∧ text.toList.all isWordChar = true :=
  ⟨fun h => ⟨h.ne_nil, List.all_eq_true.mpr h.letters⟩,
    fun h => ⟨h.1, List.all_eq_true.mp h.2⟩⟩

instance (text : String) : Decidable (IsWord text) :=
  decidable_of_iff _ isWord_iff.symm

/-- What may stand behind a word: nothing, or what is in no word. -/
def Ends (rest : List Char) : Prop :=
  ∀ c ∈ rest.head?, isWordChar c = false

theorem ends_nil : Ends [] :=
  nofun

theorem stops_cons {p : Char → Bool} {c : Char} (h : p c = false) (rest : List Char) :
    ∀ d ∈ (c :: rest).head?, p d = false :=
  fun _ hd => Option.some.inj hd ▸ h

/-- A run of characters ends where one of another sort begins. -/
theorem run_unique {p : Char → Bool} {text text' rest rest' : List Char}
    (htext : ∀ c ∈ text, p c = true) (htext' : ∀ c ∈ text', p c = true)
    (hrest : ∀ c ∈ rest.head?, p c = false) (hrest' : ∀ c ∈ rest'.head?, p c = false)
    (h : text ++ rest = text' ++ rest') : text = text' ∧ rest = rest' := by
  have hlength : text.length = text'.length := by
    rw [← Item.run_append htext hrest, h, Item.run_append htext' hrest']
  exact List.append_inj h hlength

/-! ### Forms -/

/-- The forms whose heads are words and whose atoms are words or in quotes. -/
inductive Readable : Form → Prop
  | word {text} : IsWord text → Readable (.atom text)
  | quoted {s} : '"' ∉ s.toList → Readable (.string s)
  | group {head parts} : IsWord head → (∀ f ∈ parts, Readable f) → Readable (.group head parts)

/-- The characters behind the head of a group, and what stands behind the group. -/
def behind (parts : List Form) (rest : List Char) : List Char :=
  (texts parts).toList ++ ')' :: rest

theorem behind_cons (f : Form) (parts : List Form) (rest : List Char) :
    behind (f :: parts) rest = ' ' :: (f.text.toList ++ behind parts rest) := by
  simp [behind, texts]

theorem ends_behind (parts : List Form) (rest : List Char) : Ends (behind parts rest) := by
  cases parts with
  | nil => exact stops_cons rfl rest
  | cons f parts =>
    rw [behind_cons]
    exact stops_cons rfl _

theorem text_group (head : String) (parts : List Form) (rest : List Char) :
    (Form.group head parts).text.toList ++ rest = '(' :: (head.toList ++ behind parts rest) := by
  simp [text, behind]

theorem text_string (s : String) (rest : List Char) :
    (Form.string s).text.toList ++ rest = '"' :: (s.toList ++ '"' :: rest) := by
  simp [string, text]

/-! ### What a form begins with -/

section
variable {f : Form} {text rest : List Char}

theorem IsWord.begins {word : String} (h : IsWord word) {c : Char}
    (he : c :: text = word.toList ++ rest) : isWordChar c = true := by
  obtain ⟨d, ds, hword⟩ := List.exists_cons_of_ne_nil h.ne_nil
  rw [hword] at he
  cases he
  exact h.letters c (hword ▸ List.mem_cons_self)

/-- Only groups begin with a parenthesis. -/
theorem Readable.of_paren (hf : Readable f) (h : '(' :: text = f.text.toList ++ rest) :
    ∃ head parts, f = .group head parts ∧ IsWord head ∧ (∀ p ∈ parts, Readable p) ∧
      text = head.toList ++ behind parts rest := by
  cases hf with
  | word hword => cases hword.begins h
  | quoted =>
    rw [text_string] at h
    cases h
  | group hhead hparts =>
    rw [text_group] at h
    exact ⟨_, _, rfl, hhead, hparts, (List.cons.inj h).2⟩

/-- Only what is in quotes begins with a quote. -/
theorem Readable.of_quote (hf : Readable f) (h : '"' :: text = f.text.toList ++ rest) :
    ∃ s, f = .string s ∧ '"' ∉ s.toList ∧ text = s.toList ++ '"' :: rest := by
  cases hf with
  | word hword => cases hword.begins h
  | quoted hquote =>
    rw [text_string] at h
    exact ⟨_, rfl, hquote, (List.cons.inj h).2⟩
  | group =>
    rw [text_group] at h
    cases h

/-- Only words begin with a character of words. -/
theorem Readable.of_word {word : String} (hword : IsWord word) (hf : Readable f)
    {rest' : List Char} (h : word.toList ++ rest' = f.text.toList ++ rest) :
    ∃ word', f = .atom word' ∧ IsWord word' := by
  cases hf with
  | word hword' => exact ⟨_, rfl, hword'⟩
  | quoted =>
    rw [text_string] at h
    cases hword.begins h.symm
  | group =>
    rw [text_group] at h
    cases hword.begins h.symm

end

/-! ### Unique readability -/

theorem ne_of_notMem {text : List Char} (h : '"' ∉ text) :
    ∀ c ∈ text, decide (c ≠ '"') = true :=
  fun _ hc => decide_eq_true fun he => h (he ▸ hc)

/-- No other form has the text, whatever may stand behind the two. -/
def Unique (f : Form) : Prop :=
  ∀ ⦃g rest rest'⦄, Readable g → Ends rest → Ends rest' →
    f.text.toList ++ rest = g.text.toList ++ rest' → f = g ∧ rest = rest'

theorem behind_unique {parts : List Form} (hparts : ∀ f ∈ parts, Unique f) {parts' : List Form}
    (hreadable : ∀ g ∈ parts', Readable g) {rest rest' : List Char}
    (h : behind parts rest = behind parts' rest') : parts = parts' ∧ rest = rest' := by
  induction parts generalizing parts' with
  | nil =>
    cases parts' with
    | nil => exact ⟨rfl, (List.cons.inj h).2⟩
    | cons g parts' =>
      rw [behind_cons] at h
      cases h
  | cons f parts ih =>
    obtain ⟨hf, hparts⟩ := List.forall_mem_cons.mp hparts
    cases parts' with
    | nil =>
      rw [behind_cons] at h
      cases h
    | cons g parts' =>
      obtain ⟨hg, hmore⟩ := List.forall_mem_cons.mp hreadable
      rw [behind_cons, behind_cons] at h
      obtain ⟨rfl, hbehind⟩ :=
        hf hg (ends_behind _ _) (ends_behind _ _) (List.cons.inj h).2
      obtain ⟨hsame, hrest⟩ := ih hparts hmore hbehind
      exact ⟨congrArg (f :: ·) hsame, hrest⟩

/-- **A readable form can be read off its text.** -/
theorem Readable.unique {f : Form} (hf : Readable f) : Unique f := by
  -- The first character tells that `g` is of the same sort, and only a group has parts in it.
  induction hf with
  | @word word hword =>
    intro g rest rest' hg hrest hrest' h
    obtain ⟨word', rfl, hword'⟩ := hg.of_word hword h
    obtain ⟨hsame, hbehind⟩ := run_unique hword.letters hword'.letters hrest hrest' h
    exact ⟨congrArg Form.atom (String.toList_inj.mp hsame), hbehind⟩
  | @quoted s hquote =>
    intro g rest rest' hg _ _ h
    rw [text_string] at h
    obtain ⟨s', rfl, hquote', htext⟩ := hg.of_quote h
    obtain ⟨hsame, hbehind⟩ := run_unique (ne_of_notMem hquote) (ne_of_notMem hquote')
      (stops_cons rfl _) (stops_cons rfl _) htext
    exact ⟨congrArg Form.string (String.toList_inj.mp hsame), (List.cons.inj hbehind).2⟩
  | group hhead _ ih =>
    intro g rest rest' hg _ _ h
    rw [text_group] at h
    obtain ⟨head', parts', rfl, hhead', hparts', htext⟩ := hg.of_paren h
    obtain ⟨hsame, hbehind⟩ := run_unique hhead.letters hhead'.letters (ends_behind _ _)
      (ends_behind _ _) htext
    obtain ⟨rfl, hrest⟩ := behind_unique ih hparts' hbehind
    exact ⟨congrArg (Form.group · _) (String.toList_inj.mp hsame), hrest⟩

theorem Readable.injective {f g : Form} (hf : Readable f) (hg : Readable g)
    (h : f.text = g.text) : f = g :=
  (hf.unique hg ends_nil ends_nil (by rw [h])).1

end Scriptlet.Form
