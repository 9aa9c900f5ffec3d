import Mathlib.Data.List.Nodup
import Scriptlet.Proofs.Lexing.Spacing
import Scriptlet.Proofs.Locality.Chunks

/-! Sources that differ in spacing only are parsed alike.

Their tokens are alike one by one, and the parser goes by kinds and texts. So each
reply for the one source is the reply for the other with every token replaced by
its counterpart. That a diagnostic blames a token of the source at all is a case
of the same law (`noted_ahead`). `parse_respaced` puts this together with the
scanner's part. -/
namespace Scriptlet

open Scriptlet.Parser Scriptlet.Cursor

/-! ### Counterparts -/

/-- The token that stands in `us` where the given one stands in `ts`. -/
def Token.counterpart (ts us : List Token) (t : Token) : Token :=
  (us[ts.idxOf t]?).getD t

theorem counterpart_relocates {ts us : List Token} (h : List.Forall₂ Token.Alike ts us) :
    Relocates (Token.counterpart ts us) := by
  have halike (t : Token) : t.Alike (Token.counterpart ts us t) := by
    unfold Token.counterpart
    cases hu : us[ts.idxOf t]? with
    | none => exact ⟨rfl, rfl⟩
    | some u =>
      obtain ⟨hi', rfl⟩ := List.getElem?_eq_some_iff.mp hu
      have hi : ts.idxOf t < ts.length := by rwa [h.length_eq]
      have hat := h.get hi hi'
      rwa [List.get_eq_getElem, List.getElem_idxOf hi] at hat
  exact ⟨fun t => (halike t).1, fun t => (halike t).2⟩

theorem map_counterpart {ts us : List Token} (hts : ts.Nodup) (hlen : us.length = ts.length) :
    ts.map (Token.counterpart ts us) = us := by
  refine List.ext_getElem (by rw [List.length_map, hlen]) fun i hi hi' => ?_
  rw [List.length_map] at hi
  rw [List.getElem_map, Token.counterpart, hts.idxOf_getElem i hi, List.getElem?_eq_getElem hi']
  rfl

/-- No token stands twice in a source. -/
theorem toList_nodup (source : List Char) : (Tokens.scan source).toList.Nodup := by
  have hsplits : Splits 0 source (Tokens.scan source).body := splits_iff.mpr rfl
  obtain ⟨hin, hpair⟩ := hsplits.standsIn [] rfl
  refine List.nodup_append.mpr ⟨hpair.imp_of_mem fun ht _ hlt he => ?_, List.nodup_singleton _,
    fun t ht u hu he => ?_⟩
  · have := (hin _ ht).ordered
    subst he
    omega
  · obtain rfl := List.mem_singleton.mp hu
    exact (hin t ht).kind (by rw [he]; rfl)

/-! ### Blamed tokens -/

/-- What the parser notes is blamed on tokens that it was given. -/
theorem noted_mem {ts : Tokens} (h : (start ts).Delimited) (room : Nat) :
    ∀ d ∈ (parseTokens room ts).diagnostics, d.token ∈ ts.toList := by
  intro d hd
  have hprogram : (parseTokens room ts).diagnostics =
      (sequence false (declaration room) ts.body (start ts)).noted :=
    congrArg Reply.noted (program_eq room (start ts))
  rw [hprogram] at hd
  exact noted_ahead (fun move hm => tracks_program hm room ts.body ts.body) h (Nat.le_refl _)
    (Nat.le_refl _) d hd

/-- So is all that is wrong with a source. -/
theorem diagnostics_mem (room : Nat) (source : List Char) :
    ∀ d ∈ (parse room source).diagnostics, d.token ∈ (Tokens.scan source).toList := by
  intro d hd
  rcases List.mem_append.mp hd with hlexical | hnoted
  · obtain ⟨t, ht, rfl⟩ := List.mem_map.mp hlexical
    exact List.mem_append_left _ (List.mem_of_mem_filter ht)
  · exact noted_mem (start_proper source).toDelimited room d hnoted

/-! ### Whole sources -/

/-- Two diagnostics of the same fault that blame the token at the same place among the tokens
of their sources. -/
def Diagnostic.Alike (ts us : Tokens) (d e : Diagnostic) : Prop :=
  e.fault = d.fault ∧ ∃ i : Nat, ts.toList[i]? = some d.token ∧ us.toList[i]? = some e.token

/-- The scanner finds the same lexemes in a source that is spread out. -/
theorem scan_respaced {source other : List Char} (h : Respaced source other) :
    List.Forall₂ Token.Alike (Tokens.scan source).body (Tokens.scan other).body := by
  obtain ⟨gap, rest, hgap, hspread, rfl⟩ := h
  have hsplits : Splits 0 source (Tokens.scan source).body := splits_iff.mpr rfl
  obtain ⟨us, hus, halike⟩ := hsplits.spread hspread hgap 0
  rwa [hus.eq_tokensFrom] at halike

/-- The tokens of a source that is spread out are those of the source, moved. -/
theorem exists_move {source other : List Char} (h : Respaced source other) :
    ∃ move, Relocates move ∧ (Tokens.scan other).body = (Tokens.scan source).body.map move ∧
      (Tokens.scan other).final = move (Tokens.scan source).final := by
  have halike : List.Forall₂ Token.Alike (Tokens.scan source).toList (Tokens.scan other).toList :=
    List.rel_append (scan_respaced h) (.cons ⟨rfl, rfl⟩ .nil)
  have hmap := map_counterpart (toList_nodup source) halike.length_eq.symm
  rw [Tokens.toList, List.map_append, Tokens.toList] at hmap
  obtain ⟨hbody, hfinal⟩ := List.append_inj' hmap rfl
  exact ⟨_, counterpart_relocates halike, hbody.symm, (List.cons.inj hfinal).1.symm⟩

theorem isUnterminated_relocates {move : Token → Token} (hm : Relocates move) :
    Token.isUnterminated ∘ move = Token.isUnterminated := by
  funext t
  simp only [Function.comp_apply, Token.isUnterminated, Token.isClosed, hm.kind, hm.text]

/-- What is noted about one source is noted about the other, elsewhere. -/
theorem parse_relocate {source other : List Char} {move : Token → Token} (hm : Relocates move)
    (hbody : (Tokens.scan other).body = (Tokens.scan source).body.map move)
    (hfinal : (Tokens.scan other).final = move (Tokens.scan source).final) (room : Nat) :
    (Tokens.scan other).lexical =
        (Tokens.scan source).lexical.map (Diagnostic.relocate move) ∧
      parse room other =
        { parse room source with
          diagnostics := (parse room source).diagnostics.map (Diagnostic.relocate move) } := by
  have hlexical : (Tokens.scan other).lexical =
      (Tokens.scan source).lexical.map (Diagnostic.relocate move) := by
    simp only [Tokens.lexical, Tokens.unterminated, hbody, List.filter_map,
      isUnterminated_relocates hm, List.map_map]
    rfl
  obtain ⟨d, hsame⟩ := sequence_relocate hm room (start_proper source).toDelimited
    (start_proper other).toDelimited (Nat.le_refl _) (Nat.le_refl _) hbody fun _ => hfinal
  rw [← program_eq, ← program_eq] at hsame
  obtain ⟨ss, hok⟩ := program_ok room (start (Tokens.scan source))
  refine ⟨hlexical, ?_⟩
  simp only [parse, parseTokens, hlexical, hsame, hok, Reply.relocate, List.map_append]
  rfl

/-- **Spacing does not matter.** A source that is spread out has the same lexemes, and for every
limit the same statements; there are as many diagnostics, with the same faults, and each blames
the token at the same place; and the parsing takes the same room on the stack. -/
theorem parse_respaced {source other : List Char} (h : Respaced source other) (limit : Int) :
    List.Forall₂ Token.Alike (Tokens.scan source).body (Tokens.scan other).body ∧
      (Tokens.scan other).lexical.length = (Tokens.scan source).lexical.length ∧
      (parse limit.toNat other).statements = (parse limit.toNat source).statements ∧
      List.Forall₂ (Diagnostic.Alike (Tokens.scan source) (Tokens.scan other))
        (parse limit.toNat source).diagnostics (parse limit.toNat other).diagnostics ∧
      (parse limit.toNat other).frames = (parse limit.toNat source).frames := by
  obtain ⟨move, hm, hbody, hfinal⟩ := exists_move h
  obtain ⟨hlexical, hparse⟩ := parse_relocate hm hbody hfinal limit.toNat
  have hblamed : ∀ d ∈ (parse limit.toNat source).diagnostics,
      d.token ∈ (Tokens.scan source).toList := by
    intro d hd
    rcases List.mem_append.mp hd with hd | hd
    · obtain ⟨t, ht, rfl⟩ := List.mem_map.mp hd
      exact List.mem_append_left _ (List.mem_of_mem_filter ht)
    · exact noted_mem (start_proper source).toDelimited limit.toNat d hd
  have htokens : (Tokens.scan other).toList = (Tokens.scan source).toList.map move := by
    rw [Tokens.toList, hbody, hfinal, Tokens.toList, List.map_append]
    rfl
  refine ⟨scan_respaced h, by rw [hlexical, List.length_map], by rw [hparse], ?_, by rw [hparse]⟩
  rw [hparse, List.forall₂_map_right_iff, List.forall₂_same]
  intro d hd
  obtain ⟨i, hi, hat⟩ := List.mem_iff_getElem.mp (hblamed d hd)
  refine ⟨rfl, i, by rw [List.getElem?_eq_getElem hi, hat], ?_⟩
  rw [htokens, List.getElem?_map, List.getElem?_eq_getElem hi, hat]
  rfl

/-- A comment in front of a number leaves the program as it is. -/
theorem parse_respaced_comment :
    Respaced "print 1;".toList "\nprint //\n1 ;".toList ∧
      (parse (41 : Int).toNat "\nprint //\n1 ;".toList).statements =
        (parse (41 : Int).toNat "print 1;".toList).statements := by
  have hbody : (Tokens.scan "print 1;".toList).body =
      [⟨.printWord, 0, 4, "print"⟩, ⟨.number, 6, 6, "1"⟩, ⟨.semicolon, 7, 7, ";"⟩] := by
    decide +kernel
  have hblank (c : Char) (h : Text.isBlank c = true) (gap : List Char) : BlankFirst (c :: gap) :=
    fun d hd => Option.some.inj hd ▸ h
  have hcomment : Spacing (' ' :: '/' :: '/' :: ([] ++ '\n' :: [])) :=
    .blank rfl (.comment (fun c hc => by cases hc) .nil)
  have hspread : Spread (Tokens.scan "print 1;".toList).body
      ("print".toList ++ ((' ' :: '/' :: '/' :: ([] ++ '\n' :: [])) ++ ("1".toList ++ (" ".toList ++
        (";".toList ++ ([] ++ [])))))) := by
    rw [hbody]
    refine .cons hcomment (hblank ' ' rfl _) (fun _ => by decide) (fun h => absurd h (by decide)) ?_
    refine .cons (.blank rfl .nil) (hblank ' ' rfl _) (fun _ => by decide)
      (fun h => absurd h (by decide)) ?_
    exact .cons .nil (fun d hd => by cases hd) (fun h => absurd rfl h) (fun _ _ => rfl) .nil
  have h : Respaced "print 1;".toList "\nprint //\n1 ;".toList :=
    ⟨['\n'], _, .blank rfl .nil, hspread, rfl⟩
  obtain ⟨-, -, hstatements, -, -⟩ := parse_respaced h 41
  exact ⟨h, hstatements⟩

end Scriptlet
