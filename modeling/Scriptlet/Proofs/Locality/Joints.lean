import Scriptlet.Proofs.Lexing.Exactness
import Scriptlet.Proofs.Locality.Lookahead

/-! A newline between two sources.

No item goes beyond a newline, but for a string: a comment ends before it, it is
no digit and no letter, and it is not the second character of a mark. So the
tokens of two sources with a newline between them are those of the one and those
of the other, if the first leaves no string open: `tokensFrom_append`. The tokens
of the second are the same as those it has by itself, further behind. -/
namespace Scriptlet

/-! ### Items before a newline -/

namespace Item

theorem run_append_stop {p : Char → Bool} {c : Char} (h : p c = false) (rest behind : List Char) :
    run p (rest ++ c :: behind) = run p rest := by
  induction rest with
  | nil => simp [run, h]
  | cons d rest ih =>
    by_cases hd : p d = true
    · simpa [run, hd] using ih
    · simp [run, hd]

theorem fractionLength_append (rest behind : List Char) :
    fractionLength (rest ++ '\n' :: behind) = fractionLength rest := by
  fun_cases fractionLength rest with
  | case1 d more hd =>
    have hrun := run_append_stop (by decide : '\n'.isDigit = false) more behind
    simp only [List.cons_append, fractionLength, hd, if_true, hrun]
  | case2 d more hd => simp only [List.cons_append, fractionLength, if_neg hd]
  | case3 rest hno =>
    rcases rest with _ | ⟨c, _ | ⟨d, more⟩⟩
    · rfl
    · by_cases hc : c = '.'
      · subst hc
        rfl
      · simp [fractionLength, hc]
    · have hc : c ≠ '.' := fun hc => hno d more (by rw [hc])
      simp [fractionLength, hc]

theorem numberRest_append (rest behind : List Char) :
    numberRest (rest ++ '\n' :: behind) = numberRest rest := by
  have hrun := run_append_stop (by decide : '\n'.isDigit = false) rest behind
  simp only [numberRest, hrun]
  rw [List.drop_append_of_le_length (run_le _ _), fractionLength_append]

theorem head?_append (rest behind : List Char) {c : Char} (hc : c ≠ '\n') :
    (rest ++ '\n' :: behind).head? = some c ↔ rest.head? = some c := by
  cases rest with
  | nil => simp [Ne.symm hc]
  | cons d rest => rfl

theorem stringRest_append {rest : List Char} (h : '"' ∈ rest) (behind : List Char) :
    stringRest (rest ++ behind) = stringRest rest := by
  obtain ⟨text, more, rfl, hno⟩ := List.eq_append_cons_of_mem h
  have htext : ∀ c ∈ text, c ≠ '"' := fun c hc he => hno (he ▸ hc)
  rw [List.append_assoc, List.cons_append, stringRest_string htext, stringRest_string htext]

theorem lexemeAt_append {c : Char} {rest : List Char} (h : c = '"' → '"' ∈ rest)
    (behind : List Char) : lexemeAt c (rest ++ '\n' :: behind) = lexemeAt c rest := by
  have hrun := run_append_stop (by decide : isNameChar '\n' = false) rest behind
  have htake : (rest ++ '\n' :: behind).take (run isNameChar rest) =
      rest.take (run isNameChar rest) :=
    List.take_append_of_le_length (run_le _ _)
  unfold lexemeAt
  simp only [hrun, htake, numberRest_append, head?_append rest behind (by decide : '=' ≠ '\n')]
  by_cases hc : c = '"'
  · rw [stringRest_append (h hc)]
  · simp only [if_neg hc]

/-- An item that is not a string without an end ends before a newline. -/
theorem itemAt_append {c : Char} {rest : List Char} (h : c = '"' → '"' ∈ rest)
    (behind : List Char) : itemAt c (rest ++ '\n' :: behind) = itemAt c rest := by
  have hrun : run (· ≠ '\n') (rest ++ '\n' :: behind) = run (· ≠ '\n') rest :=
    run_append_stop (by decide) rest behind
  unfold itemAt
  rw [hrun, lexemeAt_append h]
  simp only [head?_append rest behind (by decide : '/' ≠ '\n')]

/-- The token of an item depends on the characters of the item alone. -/
theorem token?_append {item : Item} {rest : List Char} (h : item.more ≤ rest.length)
    {position : Nat} {c : Char} {behind : List Char} :
    item.token? position c (rest ++ behind) = item.token? position c rest := by
  cases item with
  | gap more => rfl
  | lexeme kind more =>
    have hle : more ≤ rest.length := h
    rw [token?, token?, List.take_append_of_le_length hle]

/-- A closed string has its end in the source. -/
theorem mem_of_closed (position : Nat) {rest : List Char} {t : Token}
    (ht : (itemAt '"' rest).token? position '"' rest = some t)
    (hclosed : t.isUnterminated = false) :
    '"' ∈ rest := by
  cases ht
  simp only [Token.isUnterminated, Token.isClosed, String.toList_ofList, beq_self_eq_true,
    Bool.true_and, Bool.not_eq_false', Bool.and_eq_true, decide_eq_true_eq, beq_iff_eq] at hclosed
  obtain ⟨hlong, hlast⟩ := hclosed
  obtain ⟨d, ds, hds⟩ := List.exists_cons_of_length_pos (Nat.lt_of_succ_lt_succ hlong)
  rw [hds, List.getLast?_cons_cons] at hlast
  have hmem := List.mem_of_getLast? hlast
  rw [← hds] at hmem
  exact List.mem_of_mem_take hmem

end Item

/-! ### Two sources -/

/-- Before a newline the tokens are those of what stands there, if no string is left open. -/
theorem tokensFrom_append (position skip : Nat) (source behind : List Char)
    (hskip : skip ≤ source.length)
    (h : ∀ t ∈ tokensFrom position skip source, t.isUnterminated = false) :
    tokensFrom position skip (source ++ '\n' :: behind) =
      tokensFrom position skip source ++ tokensFrom (position + source.length + 1) 0 behind := by
  induction source generalizing position skip with
  | nil =>
    obtain rfl := Nat.le_zero.mp hskip
    rfl
  | cons c rest ih =>
    have hposition : position + (c :: rest).length + 1 = position + 1 + rest.length + 1 := by
      simp only [List.length_cons]
      omega
    rw [hposition]
    cases skip with
    | succ skip => exact ih _ _ (Nat.le_of_succ_le_succ hskip) h
    | zero =>
      have hmore := Item.more_itemAt_le c rest
      rw [tokensFrom, List.forall_mem_append] at h
      obtain ⟨hfirst, hrest⟩ := h
      have hitem : Item.itemAt c (rest ++ '\n' :: behind) = Item.itemAt c rest := by
        refine Item.itemAt_append (fun hc => ?_) behind
        subst hc
        exact Item.mem_of_closed position rfl (hfirst _ (by exact List.mem_cons_self))
      rw [List.cons_append, tokensFrom, tokensFrom, hitem, Item.token?_append hmore,
        ih _ _ hmore hrest, List.append_assoc]

/-- A newline at the end gives no token, if it leaves no string open. -/
theorem tokensFrom_newline (position skip : Nat) (source : List Char)
    (hskip : skip ≤ source.length)
    (h : ∀ t ∈ tokensFrom position skip (source ++ ['\n']), t.isUnterminated = false) :
    tokensFrom position skip (source ++ ['\n']) = tokensFrom position skip source := by
  induction source generalizing position skip with
  | nil =>
    obtain rfl := Nat.le_zero.mp hskip
    rfl
  | cons c rest ih =>
    cases skip with
    | succ skip => exact ih _ _ (Nat.le_of_succ_le_succ hskip) h
    | zero =>
      have hmore := Item.more_itemAt_le c rest
      rw [List.cons_append, tokensFrom, List.forall_mem_append] at h
      obtain ⟨hfirst, hrest⟩ := h
      have hitem : Item.itemAt c (rest ++ ['\n']) = Item.itemAt c rest := by
        refine Item.itemAt_append (fun hc => ?_) []
        subst hc
        have hquote := Item.mem_of_closed position rfl (hfirst _ (by exact List.mem_cons_self))
        exact (List.mem_append.mp hquote).resolve_right (by decide)
      rw [hitem] at hrest
      rw [List.cons_append, tokensFrom, tokensFrom, hitem, Item.token?_append hmore,
        ih _ _ hmore hrest]

/-- The same token, further behind. -/
def Token.shift (k : Nat) (t : Token) : Token :=
  { t with start := t.start + k, stop := t.stop + k }

theorem shift_relocates (k : Nat) : Relocates (Token.shift k) :=
  ⟨fun _ => rfl, fun _ => rfl⟩

theorem tokensFrom_shift (k position skip : Nat) (source : List Char) :
    tokensFrom (position + k) skip source =
      (tokensFrom position skip source).map (Token.shift k) := by
  induction source generalizing position skip with
  | nil => rfl
  | cons c rest ih =>
    have hnext : position + k + 1 = position + 1 + k := by omega
    cases skip with
    | succ skip =>
      rw [tokensFrom, tokensFrom, hnext]
      exact ih _ _
    | zero =>
      rw [tokensFrom, tokensFrom, hnext, ih, List.map_append]
      congr 1
      cases Item.itemAt c rest with
      | gap more => rfl
      | lexeme kind more =>
        simp only [Item.token?, Option.toList, List.map_cons, List.map_nil, Token.shift]
        congr 2
        omega

theorem isUnterminated_of_mem {source : List Char} (h : (Tokens.scan source).unterminated = []) :
    ∀ t ∈ tokensFrom 0 0 source, t.isUnterminated = false := by
  intro t ht
  have := List.filter_eq_nil_iff.mp h t ht
  simpa using this

/-- The tokens of two sources with a newline between them. -/
theorem scan_append {a : List Char} (h : (Tokens.scan a).unterminated = []) (b : List Char) :
    (Tokens.scan (a ++ '\n' :: b)).body =
      (Tokens.scan a).body ++ (Tokens.scan b).body.map (Token.shift (a.length + 1)) := by
  have hb := tokensFrom_shift (a.length + 1) 0 0 b
  show tokensFrom 0 0 (a ++ '\n' :: b) = _
  rw [tokensFrom_append 0 0 a b (Nat.zero_le _) (isUnterminated_of_mem h), Nat.add_assoc, hb]
  rfl

/-- A source that leaves a string open leaves it open behind a newline, too. -/
theorem unterminated_of_newline {source : List Char}
    (h : (Tokens.scan (source ++ ['\n'])).unterminated = []) :
    (Tokens.scan source).unterminated = [] := by
  have hbody : (Tokens.scan (source ++ ['\n'])).body = (Tokens.scan source).body :=
    tokensFrom_newline 0 0 source (Nat.zero_le _) (isUnterminated_of_mem h)
  rwa [Tokens.unterminated, hbody] at h

end Scriptlet
