import Scriptlet.Proofs.Lexing.Lexemes

/-! Lexical exactness: the scan cuts every source in the one way there is.

`scan_exact` says that the tokens of a source are those that `Splits` gives, and
what follows for their spans. The induction is on the length of what is left of
the source, since each gap and each lexeme takes it down. -/
namespace Scriptlet

/-! ### Cutting a source -/

/-- A gap gives no token. -/
theorem Gap.tokensFrom {gap rest : List Char} (h : Gap gap rest) (position : Nat) :
    tokensFrom position 0 (gap ++ rest) = tokensFrom (position + gap.length) 0 rest := by
  induction h generalizing position with
  | nil => rfl
  | @blank c gap rest hc _ ih =>
    rw [List.cons_append, tokensFrom_cons, itemAt_blank hc]
    simp only [Item.token?, Item.more, Option.toList, List.nil_append, Nat.add_zero, List.drop_zero]
    rw [ih, List.length_cons]
    congr 1
    omega
  | @comment text gap rest htext hend _ ih =>
    have he : '/' :: '/' :: (text ++ gap) ++ rest = '/' :: ('/' :: (text ++ (gap ++ rest))) := by
      simp
    rw [he, tokensFrom_cons, itemAt_comment htext hend]
    simp only [Item.token?, Item.more, Option.toList, List.nil_append, List.drop_succ_cons,
      List.drop_left]
    rw [ih]
    congr 1
    simp only [List.length_cons, List.length_append]
    omega

/-- Every source begins with a longest gap. -/
theorem exists_longestGap (source : List Char) :
    ∃ gap rest, source = gap ++ rest ∧ LongestGap gap rest := by
  suffices ∃ gap rest, source = gap ++ rest ∧ Gap gap rest ∧ Clear rest by
    obtain ⟨gap, rest, he, hgap, hclear⟩ := this
    exact ⟨gap, rest, he, .of_clear hgap hclear⟩
  induction hn : source.length using Nat.strong_induction_on generalizing source with
  | _ n ih =>
    rcases clear_or_gap source with hclear | ⟨first, tail, hne, rfl, hfirst⟩
    · exact ⟨[], source, rfl, .nil, hclear⟩
    · have := List.length_pos_iff.mpr hne
      rw [List.length_append] at hn
      obtain ⟨gap, rest, rfl, hgap, hclear⟩ := ih tail.length (by omega) tail rfl
      exact ⟨first ++ gap, rest, (List.append_assoc ..).symm, hfirst.append hgap, hclear⟩

/-- Where there is a source left behind a gap, it begins with a lexeme. -/
theorem Clear.exists_lexeme {c : Char} {tail : List Char} (h : Clear (c :: tail)) :
    ∃ kind lexeme rest, tail = lexeme ++ rest ∧ LongestLexeme kind (c :: lexeme) rest ∧
      Item.itemAt c tail = .lexeme kind lexeme.length := by
  obtain ⟨kind, more, hfound⟩ := exists_lexemeAt c tail
  have hmore : more ≤ tail.length := by
    have := Item.more_lexemeAt_le c tail
    rwa [hfound] at this
  have hitem := (h c tail rfl).trans hfound
  have hlen : (tail.take more).length = more := by simp [hmore]
  refine ⟨kind, tail.take more, tail.drop more, (List.take_append_drop ..).symm, ?_,
    by rw [hitem, hlen]⟩
  rw [longestLexeme_iff, List.take_append_drop, hfound, hlen]

/-- A lexeme gives its token. -/
theorem tokensFrom_lexeme {c : Char} {lexeme rest : List Char} {kind : Kind}
    (h : Item.itemAt c (lexeme ++ rest) = .lexeme kind lexeme.length) (position : Nat) :
    tokensFrom position 0 (c :: (lexeme ++ rest)) =
      ⟨kind, position, position + lexeme.length, String.ofList (c :: lexeme)⟩ ::
        tokensFrom (position + (lexeme.length + 1)) 0 rest := by
  rw [tokensFrom_cons, h]
  simp only [Item.token?, Item.more, Option.toList, List.take_left, List.drop_left,
    List.cons_append, List.nil_append]
  congr 2
  omega

theorem Lexeme.ne_nil {kind : Kind} {lexeme rest : List Char} (h : Lexeme kind lexeme rest) :
    lexeme ≠ [] := by
  cases h with
  | mark hk =>
    obtain ⟨c, ⟨hs, _⟩ | ⟨_, hs, _⟩ | ⟨_, hs, _⟩⟩ := exists_mark hk <;> simp [hs]
  | keyword hk => exact keyword_ne_nil kind hk
  | name hne => exact hne
  | number hne => exact hne
  | fraction => simp
  | string => simp
  | unclosed => simp

theorem LongestLexeme.ne_nil {kind : Kind} {lexeme rest : List Char}
    (h : LongestLexeme kind lexeme rest) : lexeme ≠ [] := by
  cases h with
  | known h => exact h.ne_nil
  | unknown => simp

/-- No lexeme is the end of a source. -/
theorem LongestLexeme.ne_eof {kind : Kind} {lexeme rest : List Char}
    (h : LongestLexeme kind lexeme rest) : kind ≠ .eof := by
  intro he
  subst he
  cases h with
  | known h =>
    cases h with
    | mark hk => exact absurd hk (by decide)
    | keyword hk => exact absurd hk (by decide)

/-- The scan finds every way to cut a source. -/
theorem Splits.eq_tokensFrom {position : Nat} {source : List Char} {ts : List Token}
    (h : Splits position source ts) : ts = tokensFrom position 0 source := by
  induction h with
  | @last position gap hgap =>
    have := hgap.isGap.tokensFrom position
    rw [List.append_nil] at this
    rw [this]
    rfl
  | @next position gap kind lexeme rest ts hgap hlexeme _ ih =>
    obtain ⟨c, lexeme, rfl⟩ := List.exists_cons_of_ne_nil hlexeme.ne_nil
    have hitem := (hgap.clear c _ rfl).trans (longestLexeme_iff.mp hlexeme)
    rw [hgap.isGap.tokensFrom, List.cons_append, tokensFrom_lexeme hitem, ih]
    rfl

/-- Every source can be cut. -/
theorem exists_splits (position : Nat) (source : List Char) : ∃ ts, Splits position source ts := by
  induction hn : source.length using Nat.strong_induction_on generalizing source position with
  | _ n ih =>
    obtain ⟨gap, behind, rfl, hgap⟩ := exists_longestGap source
    cases behind with
    | nil =>
      rw [List.append_nil]
      exact ⟨[], .last hgap⟩
    | cons c tail =>
      obtain ⟨kind, lexeme, rest, rfl, hlexeme, _⟩ := hgap.clear.exists_lexeme
      have hless : rest.length < n := by
        simp only [List.length_append, List.length_cons] at hn
        omega
      obtain ⟨ts, hts⟩ := ih _ hless (position + gap.length + (c :: lexeme).length) rest rfl
      exact ⟨_, (Splits.next hgap hlexeme hts :)⟩

theorem splits_iff {position : Nat} {source : List Char} {ts : List Token} :
    Splits position source ts ↔ ts = tokensFrom position 0 source := by
  refine ⟨Splits.eq_tokensFrom, ?_⟩
  intro he
  subst he
  obtain ⟨ts, h⟩ := exists_splits position source
  exact h.eq_tokensFrom ▸ h

/-! ### Spans -/

/-- A token that stands in a source, not before `position`. -/
structure Token.StandsIn (source : List Char) (position : Nat) (t : Token) : Prop where
  behind : position ≤ t.start
  ordered : t.start ≤ t.stop
  inside : t.stop < source.length
  text : t.text.toList = Text.slice source t.start (t.stop + 1)
  kind : t.kind ≠ .eof

theorem Token.StandsIn.later {source : List Char} {position later : Nat} {t : Token}
    (h : t.StandsIn source later) (hp : position ≤ later) : t.StandsIn source position :=
  { h with behind := Nat.le_trans hp h.behind }

/-- The tokens of a source stand in it, one behind the other. -/
theorem Splits.standsIn {position : Nat} {source : List Char} {ts : List Token}
    (h : Splits position source ts) (before : List Char) (hp : before.length = position) :
    (∀ t ∈ ts, t.StandsIn (before ++ source) position) ∧
      ts.Pairwise (fun t u => t.stop < u.start) := by
  induction h generalizing before with
  | last => exact ⟨fun t ht => absurd ht List.not_mem_nil, .nil⟩
  | @next position gap kind lexeme rest ts _ hlexeme _ ih =>
    have hpos := List.length_pos_iff.mpr hlexeme.ne_nil
    obtain ⟨hin, hpair⟩ := ih (before ++ gap ++ lexeme) (by simp [hp, Nat.add_assoc])
    have he : before ++ gap ++ lexeme ++ rest = before ++ (gap ++ (lexeme ++ rest)) := by simp
    rw [he] at hin
    refine ⟨List.forall_mem_cons.mpr ⟨⟨?_, ?_, ?_, ?_, hlexeme.ne_eof⟩, fun t ht => ?_⟩,
      .cons (fun t ht => ?_) hpair⟩
    · exact Nat.le_add_right _ _
    · show position + gap.length ≤ position + gap.length + lexeme.length - 1
      omega
    · simp only [List.length_append]
      omega
    · have hstop : position + gap.length + lexeme.length - 1 + 1 =
          (before ++ gap ++ lexeme).length := by
        simp only [List.length_append]
        omega
      have hstart : position + gap.length = (before ++ gap).length := by simp [hp]
      rw [← he, Text.slice, hstop, List.take_left, hstart, List.drop_left, String.toList_ofList]
    · exact (hin t ht).later (by omega)
    · have := (hin t ht).behind
      show position + gap.length + lexeme.length - 1 < t.start
      omega

/-- **The scan is exact.** The tokens of a source are what the one way to cut it into
longest gaps and longest lexemes gives; they stand in the source one behind the other,
with the text that stands there; and the one end marker behind them is at the last
character. -/
theorem scan_exact (source : List Char) :
    (∀ ts, Splits 0 source ts ↔ ts = (Tokens.scan source).body) ∧
      (∀ t ∈ (Tokens.scan source).body, t.StandsIn source 0) ∧
      (Tokens.scan source).body.Pairwise (fun t u => t.stop < u.start) ∧
      (Tokens.scan source).toList =
        (Tokens.scan source).body ++ [⟨.eof, source.length - 1, source.length - 1, ""⟩] := by
  have hsplits : ∀ ts, Splits 0 source ts ↔ ts = (Tokens.scan source).body :=
    fun ts => splits_iff
  obtain ⟨hin, hpair⟩ := ((hsplits _).mpr rfl).standsIn [] rfl
  exact ⟨hsplits, hin, hpair, rfl⟩

end Scriptlet
