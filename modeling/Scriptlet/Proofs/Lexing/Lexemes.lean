import Scriptlet.Proofs.Lexing.Grammar

/-! The scanner finds the longest lexeme.

The scanner decides at each position by the character there and the ones behind
it. `Lexeme.covers` says that no lexeme of the grammar goes beyond what it finds,
and `lexeme_of_lexemeAt` that what it finds is a lexeme. Both together give
`longestLexeme_iff`. -/
namespace Scriptlet

/-! ### What the scanner finds, by the first character -/

theorem ofMark?_spelling {c : Char} {kind : Kind} (h : Kind.ofMark? c = some kind) :
    kind ∈ marks ∧ kind.spelling.toList = [c] := by
  unfold Kind.ofMark? at h
  split at h <;> cases h <;> decide

theorem ofMarkBeforeEqual?_spelling {c : Char} {bare withEqual : Kind}
    (h : Kind.ofMarkBeforeEqual? c = some (bare, withEqual)) :
    (bare ∈ marks ∧ bare.spelling.toList = [c]) ∧
      withEqual ∈ marks ∧ withEqual.spelling.toList = [c, '='] := by
  unfold Kind.ofMarkBeforeEqual? at h
  split at h <;> cases h <;> decide

theorem ofMark?_eq_none {c : Char} (h : c = '"' ∨ c.isDigit = true ∨ Item.isNameChar c = true) :
    Kind.ofMark? c = none ∧ Kind.ofMarkBeforeEqual? c = none := by
  constructor
  · unfold Kind.ofMark?
    split <;> first | rfl | exact absurd h (by decide)
  · unfold Kind.ofMarkBeforeEqual?
    split <;> first | rfl | exact absurd h (by decide)

theorem lexemeAt_quote (tail : List Char) :
    Item.lexemeAt '"' tail = .lexeme .string (Item.stringRest tail) := rfl

theorem lexemeAt_digit {c : Char} (h : c.isDigit = true) (tail : List Char) :
    Item.lexemeAt c tail = .lexeme .number (Item.numberRest tail) := by
  obtain ⟨h1, h2⟩ := ofMark?_eq_none (.inr (.inl h))
  have hq : c ≠ '"' := by
    intro he
    subst he
    exact absurd h (by decide)
  simp [Item.lexemeAt, h1, h2, hq, h]

theorem isDigit_of_isNameChar {c : Char} (h : Item.isNameChar c = true) : c.isDigit = false := by
  by_cases hu : c = '_'
  · subst hu
    rfl
  · have hletter : (decide (c.val ≥ 65 ∧ c.val ≤ 90) ||
        decide (c.val ≥ 97) && decide (c.val ≤ 122)) = true :=
      (Bool.or_eq_true_iff.mp h).resolve_right fun he => hu (eq_of_beq he)
    show (decide (c.val ≥ 48) && decide (c.val ≤ 57)) = false
    grind

theorem lexemeAt_name {c : Char} (h : Item.isNameChar c = true) (tail : List Char) :
    Item.lexemeAt c tail =
      .lexeme (Kind.ofWord (String.ofList (c :: tail.take (Item.run Item.isNameChar tail))))
        (Item.run Item.isNameChar tail) := by
  obtain ⟨h1, h2⟩ := ofMark?_eq_none (.inr (.inr h))
  have hq : c ≠ '"' := by
    intro he
    subst he
    exact absurd h (by decide)
  simp [Item.lexemeAt, h1, h2, hq, h, isDigit_of_isNameChar h]

/-! ### Strings and numbers -/

namespace Item

theorem stringRest_string {text : List Char} (h : ∀ c ∈ text, c ≠ '"') (rest : List Char) :
    stringRest (text ++ '"' :: rest) = text.length + 1 := by
  have hrun : run (· ≠ '"') (text ++ '"' :: rest) = text.length :=
    run_append (by simpa using h) (by simp)
  simp only [stringRest, hrun]
  rw [if_pos (by simp)]

theorem stringRest_unclosed {text : List Char} (h : ∀ c ∈ text, c ≠ '"') :
    stringRest text = text.length := by
  have hrun : run (· ≠ '"') (text ++ []) = text.length := run_append (by simpa using h) (by simp)
  rw [List.append_nil] at hrun
  simp only [stringRest, hrun]
  rw [if_neg (Nat.lt_irrefl _)]

/-- A number goes on at least with the digits that follow. -/
theorem length_le_numberRest {digits : List Char} (h : ∀ c ∈ digits, c.isDigit = true)
    (rest : List Char) : digits.length ≤ numberRest (digits ++ rest) :=
  Nat.le_trans (length_le_run rest h) (Nat.le_add_right _ _)

/-- It goes on with a point and the digits behind it, if there are any. -/
theorem length_le_numberRest_fraction {whole digits : List Char}
    (hw : ∀ c ∈ whole, c.isDigit = true) (hne : digits ≠ []) (hd : ∀ c ∈ digits, c.isDigit = true)
    (rest : List Char) :
    (whole ++ '.' :: digits).length ≤ numberRest (whole ++ '.' :: digits ++ rest) := by
  have hrun : run Char.isDigit (whole ++ '.' :: (digits ++ rest)) = whole.length :=
    run_append hw (by simp)
  obtain ⟨d, digits, rfl⟩ := List.exists_cons_of_ne_nil hne
  have hfirst : d.isDigit = true := hd d List.mem_cons_self
  have hrest := length_le_run rest fun c hc => hd c (List.mem_cons_of_mem d hc)
  simp only [List.append_assoc, List.cons_append] at hrun ⊢
  simp only [numberRest, hrun, List.drop_left, fractionLength, hfirst, if_true, List.length_append,
    List.length_cons]
  omega

/-- What a number goes on with: digits, or digits with a point among them. -/
theorem take_numberRest (rest : List Char) :
    (∀ c ∈ rest.take (numberRest rest), c.isDigit = true) ∨
      ∃ whole digits, rest.take (numberRest rest) = whole ++ '.' :: digits ∧
        (∀ c ∈ whole, c.isDigit = true) ∧ digits ≠ [] ∧ ∀ c ∈ digits, c.isDigit = true := by
  have hwhole : ∀ c ∈ rest.take (run Char.isDigit rest), c.isDigit = true := of_mem_take_run
  rw [numberRest, List.take_add]
  generalize rest.drop (run Char.isDigit rest) = behind
  fun_cases fractionLength behind with
  | case1 d more hd =>
    refine .inr ⟨_, d :: more.take (run Char.isDigit more), ?_, hwhole, by simp, ?_⟩
    · rw [Nat.add_comm]
      rfl
    · intro c hc
      rcases List.mem_cons.mp hc with rfl | hc
      · exact hd
      · exact of_mem_take_run c hc
  | case2 => simpa using Or.inl hwhole
  | case3 => simpa using Or.inl hwhole

end Item

/-! ### The scanner's choice and the grammar -/

theorem ofWord_keyword : ∀ kind ∈ Kind.keywords, Kind.ofWord kind.spelling = kind := by
  decide

theorem ofWord_name {word : List Char} (h : ∀ kind ∈ Kind.keywords, kind.spelling.toList ≠ word) :
    Kind.ofWord (String.ofList word) = .identifier := by
  have hnone : Kind.keywords.find? (·.spelling == String.ofList word) = none := by
    rw [List.find?_eq_none]
    intro kind hk he
    exact h kind hk (by rw [eq_of_beq he, String.toList_ofList])
  rw [Kind.ofWord, hnone]
  rfl

theorem keyword_ne_nil : ∀ kind ∈ Kind.keywords, kind.spelling.toList ≠ [] := by
  decide

theorem isNameChar_keyword : ∀ kind ∈ Kind.keywords, ∀ c ∈ kind.spelling.toList,
    Item.isNameChar c = true := by
  have hall : ∀ kind ∈ Kind.keywords, kind.spelling.toList.all Item.isNameChar = true := by decide
  exact fun kind hk => List.all_eq_true.mp (hall kind hk)

theorem ofWord_ne_unknown (word : String) : Kind.ofWord word ≠ .unknown := by
  unfold Kind.ofWord
  cases h : Kind.keywords.find? (·.spelling == word) with
  | none => decide
  | some kind =>
    have hmem := List.mem_of_find?_eq_some h
    intro he
    subst he
    exact absurd hmem (by decide)

/-- What the scanner finds is longer than a lexeme of the grammar, or as long and of the
same kind. -/
def Covers (kind : Kind) (length : Nat) (item : Item) : Prop :=
  ∃ found more, item = .lexeme found more ∧ found ≠ .unknown ∧ length ≤ more + 1 ∧
    (length = more + 1 → found = kind)

/-- A mark is one character, with or without an equals sign. -/
theorem exists_mark {kind : Kind} (h : kind ∈ marks) :
    ∃ c, (kind.spelling.toList = [c] ∧ Kind.ofMark? c = some kind) ∨
      (∃ withEqual, kind.spelling.toList = [c] ∧
        Kind.ofMarkBeforeEqual? c = some (kind, withEqual)) ∨
      ∃ bare, kind.spelling.toList = [c, '='] ∧ Kind.ofMarkBeforeEqual? c = some (bare, kind) := by
  simp only [marks, List.mem_cons, List.not_mem_nil, or_false] at h
  rcases h with rfl | rfl | rfl | rfl | rfl | rfl | rfl | rfl | rfl | rfl | rfl | rfl | rfl |
    rfl | rfl | rfl | rfl | rfl | rfl | rfl | rfl <;>
  first
  | exact ⟨_, .inl ⟨rfl, rfl⟩⟩
  | exact ⟨_, .inr (.inl ⟨_, rfl, rfl⟩)⟩
  | exact ⟨_, .inr (.inr ⟨_, rfl, rfl⟩)⟩

theorem lexemeAt_mark {c : Char} {kind : Kind} (h : Kind.ofMark? c = some kind)
    (tail : List Char) : Item.lexemeAt c tail = .lexeme kind 0 := by
  simp only [Item.lexemeAt, h]

theorem lexemeAt_markBeforeEqual {c : Char} {bare withEqual : Kind}
    (h : Kind.ofMarkBeforeEqual? c = some (bare, withEqual)) (tail : List Char) :
    Item.lexemeAt c tail =
      if tail.head? = some '=' then .lexeme withEqual 1 else .lexeme bare 0 := by
  have hnone : Kind.ofMark? c = none := by
    unfold Kind.ofMarkBeforeEqual? at h
    split at h <;> cases h <;> rfl
  simp only [Item.lexemeAt, hnone, h]

theorem mark_ne_unknown {kind : Kind} (h : kind ∈ marks) : kind ≠ .unknown := by
  intro he
  subst he
  exact absurd h (by decide)

theorem covers_mark {kind : Kind} (h : kind ∈ marks) {rest : List Char} {c : Char}
    {tail : List Char} (he : kind.spelling.toList ++ rest = c :: tail) :
    Covers kind kind.spelling.toList.length (Item.lexemeAt c tail) := by
  have hk := mark_ne_unknown h
  obtain ⟨d, ⟨hs, hmark⟩ | ⟨withEqual, hs, hmark⟩ | ⟨bare, hs, hmark⟩⟩ := exists_mark h <;>
    rw [hs] at he ⊢ <;> obtain ⟨rfl, rfl⟩ := List.cons.inj he
  · exact ⟨kind, 0, lexemeAt_mark hmark _, hk, Nat.le_refl _, fun _ => rfl⟩
  · have hne := mark_ne_unknown (ofMarkBeforeEqual?_spelling hmark).2.1
    rw [lexemeAt_markBeforeEqual hmark]
    split
    · exact ⟨withEqual, 1, rfl, hne, by simp, by simp⟩
    · exact ⟨kind, 0, rfl, hk, Nat.le_refl _, fun _ => rfl⟩
  · rw [lexemeAt_markBeforeEqual hmark]
    exact ⟨kind, 1, rfl, hk, Nat.le_refl _, fun _ => rfl⟩

theorem covers_word {kind : Kind} {c : Char} {word : List Char}
    (h : ∀ d ∈ c :: word, Item.isNameChar d = true)
    (hk : Kind.ofWord (String.ofList (c :: word)) = kind) (rest : List Char) :
    Covers kind (c :: word).length (Item.lexemeAt c (word ++ rest)) := by
  have hlen := Item.length_le_run rest fun d hd => h d (List.mem_cons_of_mem c hd)
  refine ⟨_, _, lexemeAt_name (h c List.mem_cons_self) _, ofWord_ne_unknown _,
    Nat.succ_le_succ hlen, fun he => ?_⟩
  rw [← Nat.succ.inj he, List.take_left, hk]

/-- No lexeme of the grammar goes beyond what the scanner finds. -/
theorem Lexeme.covers {kind : Kind} {lexeme rest : List Char} (h : Lexeme kind lexeme rest)
    {c : Char} {tail : List Char} (he : lexeme ++ rest = c :: tail) :
    Covers kind lexeme.length (Item.lexemeAt c tail) := by
  cases h with
  | mark hk => exact covers_mark hk he
  | keyword hk =>
    have hword := isNameChar_keyword kind hk
    have hof := ofWord_keyword kind hk
    have hne := keyword_ne_nil kind hk
    rw [← String.ofList_toList (s := kind.spelling)] at hof
    generalize kind.spelling.toList = word at he hword hof hne
    obtain ⟨d, word, rfl⟩ := List.exists_cons_of_ne_nil hne
    obtain ⟨rfl, rfl⟩ := List.cons.inj he
    exact covers_word hword hof rest
  | name hne hword hno =>
    obtain ⟨d, word, rfl⟩ := List.exists_cons_of_ne_nil hne
    obtain ⟨rfl, rfl⟩ := List.cons.inj he
    exact covers_word hword (ofWord_name hno) rest
  | number hne hd =>
    obtain ⟨d, digits, rfl⟩ := List.exists_cons_of_ne_nil hne
    obtain ⟨rfl, rfl⟩ := List.cons.inj he
    have := Item.length_le_numberRest (fun e he => hd e (List.mem_cons_of_mem d he)) rest
    exact ⟨_, _, lexemeAt_digit (hd d List.mem_cons_self) _, by decide, Nat.succ_le_succ this,
      fun _ => rfl⟩
  | @fraction whole digits _ hne hw hne' hd =>
    obtain ⟨d, whole, rfl⟩ := List.exists_cons_of_ne_nil hne
    obtain ⟨rfl, rfl⟩ := List.cons.inj he
    have := Item.length_le_numberRest_fraction (fun e he => hw e (List.mem_cons_of_mem d he))
      hne' hd rest
    exact ⟨_, _, lexemeAt_digit (hw d List.mem_cons_self) _, by decide, Nat.succ_le_succ this,
      fun _ => rfl⟩
  | @string text _ htext =>
    obtain ⟨rfl, rfl⟩ := List.cons.inj he
    refine ⟨_, _, lexemeAt_quote _, by decide, ?_, fun _ => rfl⟩
    simp [Item.stringRest_string htext]
  | unclosed htext =>
    obtain ⟨rfl, rfl⟩ := List.cons.inj he
    refine ⟨_, _, lexemeAt_quote _, by decide, ?_, fun _ => rfl⟩
    simp [Item.stringRest_unclosed htext]

/-- A word of the scanner is a keyword, or a name that is none. -/
theorem lexeme_word {word : List Char} (hne : word ≠ [])
    (h : ∀ c ∈ word, Item.isNameChar c = true) (rest : List Char) :
    Lexeme (Kind.ofWord (String.ofList word)) word rest := by
  by_cases hk : ∀ kind ∈ Kind.keywords, kind.spelling.toList ≠ word
  · rw [ofWord_name hk]
    exact .name hne h hk
  · simp only [ne_eq, not_forall, not_not] at hk
    obtain ⟨kind, hk, rfl⟩ := hk
    rw [String.ofList_toList, ofWord_keyword kind hk]
    exact .keyword hk

theorem lexeme_string (tail : List Char) :
    Lexeme .string ('"' :: tail.take (Item.stringRest tail))
      (tail.drop (Item.stringRest tail)) := by
  by_cases h : '"' ∈ tail
  · obtain ⟨text, rest, rfl, hno⟩ := List.eq_append_cons_of_mem h
    have htext : ∀ c ∈ text, c ≠ '"' := fun c hc he => hno (he ▸ hc)
    have hsplit : text ++ '"' :: rest = text ++ ['"'] ++ rest := by simp
    have hlen : text.length + 1 = (text ++ ['"']).length := by simp
    rw [Item.stringRest_string htext, hsplit, hlen, List.take_left, List.drop_left]
    exact .string htext
  · have htext : ∀ c ∈ tail, c ≠ '"' := fun c hc he => h (he ▸ hc)
    rw [Item.stringRest_unclosed htext, List.take_length, List.drop_length]
    exact .unclosed htext

theorem lexeme_number {c : Char} (h : c.isDigit = true) (tail : List Char) :
    Lexeme .number (c :: tail.take (Item.numberRest tail)) (tail.drop (Item.numberRest tail)) := by
  rcases Item.take_numberRest tail with hd | ⟨whole, digits, he, hw, hne, hd⟩
  · exact .number (by simp) (List.forall_mem_cons.mpr ⟨h, hd⟩)
  · rw [he]
    have hne' : c :: whole ≠ [] := List.cons_ne_nil _ _
    exact .fraction hne' (List.forall_mem_cons.mpr ⟨h, hw⟩) hne hd

/-- What the scanner finds is a lexeme of the grammar. -/
theorem lexeme_of_lexemeAt {kind : Kind} {c : Char} {tail : List Char} {more : Nat}
    (h : Item.lexemeAt c tail = .lexeme kind more) (hk : kind ≠ .unknown) :
    Lexeme kind (c :: tail.take more) (tail.drop more) := by
  revert h
  fun_cases Item.lexemeAt with
  | case1 found hmark =>
    intro h
    cases h
    obtain ⟨hmem, hs⟩ := ofMark?_spelling hmark
    exact hs ▸ .mark hmem
  | case2 bare withEqual _ hmark hequal =>
    intro h
    cases h
    obtain ⟨_, hmem, hs⟩ := ofMarkBeforeEqual?_spelling hmark
    obtain ⟨tail, rfl⟩ := List.head?_eq_some_iff.mp hequal
    exact hs ▸ .mark hmem
  | case3 bare withEqual _ hmark =>
    intro h
    cases h
    obtain ⟨⟨hmem, hs⟩, _⟩ := ofMarkBeforeEqual?_spelling hmark
    exact hs ▸ .mark hmem
  | case4 _ _ hc =>
    intro h
    cases h
    exact hc ▸ lexeme_string tail
  | case5 _ _ _ hd =>
    intro h
    cases h
    exact lexeme_number hd tail
  | case6 _ _ _ _ hc =>
    intro h
    injection h with hkind hmore
    subst hkind hmore
    exact lexeme_word (by simp) (List.forall_mem_cons.mpr ⟨hc, Item.of_mem_take_run⟩) _
  | case7 =>
    intro h
    cases h
    exact absurd rfl hk

theorem lexemeAt_unknown {c : Char} {tail : List Char} {more : Nat}
    (h : Item.lexemeAt c tail = .lexeme .unknown more) : more = 0 := by
  revert h
  fun_cases Item.lexemeAt with
  | case1 found hmark =>
    intro h
    cases h
    rfl
  | case2 _ _ _ hmark =>
    intro h
    cases h
    exact absurd rfl (mark_ne_unknown (ofMarkBeforeEqual?_spelling hmark).2.1)
  | case3 =>
    intro h
    cases h
    rfl
  | case4 => simp
  | case5 => simp
  | case6 =>
    intro h
    injection h with hkind
    exact absurd hkind (ofWord_ne_unknown _)
  | case7 =>
    intro h
    cases h
    rfl

theorem exists_lexemeAt (c : Char) (tail : List Char) :
    ∃ kind more, Item.lexemeAt c tail = .lexeme kind more := by
  fun_cases Item.lexemeAt <;> exact ⟨_, _, rfl⟩

/-- **The scanner finds the longest lexeme**, and its kind. -/
theorem longestLexeme_iff {kind : Kind} {c : Char} {lexeme rest : List Char} :
    LongestLexeme kind (c :: lexeme) rest ↔
      Item.lexemeAt c (lexeme ++ rest) = .lexeme kind lexeme.length := by
  obtain ⟨found, more, hfound⟩ := exists_lexemeAt c (lexeme ++ rest)
  have hmore : more ≤ (lexeme ++ rest).length := by
    have := Item.more_lexemeAt_le c (lexeme ++ rest)
    rwa [hfound] at this
  constructor
  · intro h
    cases h with
    | known h hlongest =>
      obtain ⟨_, _, hcover, hne, hle, hkind⟩ := h.covers rfl
      cases hfound.symm.trans hcover
      have hlen := hlongest _ _ _ (by simp) (lexeme_of_lexemeAt hfound hne)
      simp only [List.length_cons, List.length_take] at hle hkind hlen
      have hlen : more = lexeme.length := by omega
      rw [hfound, hkind (by rw [hlen]), hlen]
    | unknown hno =>
      by_cases hk : found = .unknown
      · subst hk
        rw [hfound, lexemeAt_unknown hfound]
        rfl
      · exact absurd (lexeme_of_lexemeAt hfound hk) (hno _ _ _ (by simp))
  · intro h
    by_cases hk : kind = .unknown
    · subst hk
      obtain rfl := List.length_eq_zero_iff.mp (lexemeAt_unknown h)
      refine .unknown fun other word left he hlex => ?_
      obtain ⟨_, _, hcover, hne, _⟩ := hlex.covers he
      cases h.symm.trans hcover
      exact hne rfl
    · have hlex := lexeme_of_lexemeAt h hk
      rw [List.take_left, List.drop_left] at hlex
      refine .known hlex fun other word left he hother => ?_
      obtain ⟨_, _, hcover, _, hle, _⟩ := hother.covers he
      cases h.symm.trans hcover
      exact hle

end Scriptlet
