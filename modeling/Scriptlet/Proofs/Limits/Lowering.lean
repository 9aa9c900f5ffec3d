import Scriptlet.Proofs.Limits.Trimming

/-! Parsing a source with a lower limit.

Of a source that is well formed within one limit, another limit leaves statements
that are read off the pieces of those it has, and that is all that can be said of
every source: where an if is nested too deep, parsing resumes in it, and what is
found there is not guarded any more; and where a block is not closed at its own
brace, its statements are found outside of it. `parse_lower_limit` says this, and
that where a list can be trimmed what is left of it is what the lower limit leaves:
in the lists of the program and of its blocks some statements are missing, and in
place of some there are others that are read off them (`Thinned`). -/
namespace Scriptlet

open Scriptlet.Parser Scriptlet.Cursor

/-! ### Statements that are missing in lists -/

mutual

/-- Statements are missing in the blocks of a statement. -/
inductive Thinned : Stmt → Stmt → Prop
  | same {s} : Thinned s s
  | block {body kept} : ThinnedAll body kept → Thinned (.block body) (.block kept)
  | ifThen {e yes left} : Thinned yes left → Thinned (.branch e yes none) (.branch e left none)
  | ifElse {e yes left no right} : Thinned yes left → Thinned no right →
      Thinned (.branch e yes (some no)) (.branch e left (some right))

/-- In a list of statements some are missing, and in place of some there are others that are
read off them. -/
inductive ThinnedAll : List Stmt → List Stmt → Prop
  | nil : ThinnedAll [] []
  | kept {s t ss ts} : Thinned s t → ThinnedAll ss ts → ThinnedAll (s :: ss) (t :: ts)
  | missing {s ss ts} : ThinnedAll ss ts → ThinnedAll (s :: ss) ts
  | torn {condition yes no found ss ts} : Carved found (Stmt.branch condition yes no).pieces →
      ThinnedAll ss ts → ThinnedAll (.branch condition yes no :: ss) (found ++ ts)

end

/-- What all tokens of a source are like. -/
def Token.Proper (t : Token) : Prop :=
  t.kind ≠ .eof ∧ (t.kind = .number → (Decimal.read? t.text).isSome = true)

theorem start_proper_iff {ts : Tokens} (hfinal : ts.final.kind = .eof) :
    (start ts).Proper ↔ ∀ t ∈ ts.body, t.Proper :=
  ⟨fun h t ht => ⟨h.rest t ht, h.number t ht⟩,
    fun h => ⟨⟨hfinal, fun t ht => (h t ht).1⟩, fun t ht => (h t ht).2⟩⟩

/-- What is found in a sentence that stands alone is read off it. -/
theorem Sentence.carved {clause : Clause} {ts : List Token} {s : Stmt} {n : Nat}
    (h : Sentence clause ts s n) (hts : ∀ t ∈ ts, t.Proper) {final : Token}
    (hfinal : final.kind = .eof) (room : Nat) :
    Carved (parseTokens room ⟨ts, final⟩).statements s.pieces :=
  carves_program room ((start_proper_iff hfinal).mpr hts) h.spelled

mutual

theorem Trims.thinned {room : Nat} {clause : Clause} {ts : List Token} {s : Stmt} {o : Option Stmt}
    (h : Trims room clause ts s o) (hts : ∀ t ∈ ts, t.Proper) : ∀ left ∈ o, Thinned s left := by
  match h with
  | .fits _ _ =>
    intro left hleft
    cases hleft
    exact .same
  | .tooDeep .. | .refused .. => exact nofun
  | .block _ hparts _ =>
    intro left hleft
    cases hleft
    exact .block (hparts.thinned fun t ht => hts t (by simp [ht]))
  | .ifThen _ _ _ _ _ hyes =>
    intro left hleft
    obtain ⟨yes, ho, rfl⟩ := Option.map_eq_some_iff.mp hleft
    exact .ifThen (hyes.thinned (fun t ht => hts t (by simp [ht])) yes ho)
  | .ifElse _ _ _ _ _ hyes _ _ hno =>
    intro left hleft
    obtain ⟨no, ho, rfl⟩ := Option.map_eq_some_iff.mp hleft
    exact .ifElse (hyes.thinned (fun t ht => hts t (by simp [ht])) _ rfl)
      (hno.thinned (fun t ht => hts t (by simp [ht])) no ho)
  | .statement h => exact h.thinned hts

/-- What is left of a list is the list without some of its statements. -/
theorem TrimsAll.thinned {room : Nat} {parts : List Part} {ss : List Stmt}
    (h : TrimsAll room parts ss) (hts : ∀ t ∈ Part.allTokens parts, t.Proper) :
    ThinnedAll (parts.map Part.statement) ss := by
  match h with
  | .nil => exact .nil
  | .kept hp hparts =>
    rw [Part.allTokens_cons] at hts
    obtain ⟨hts, hmore⟩ := List.forall_mem_append.mp hts
    exact .kept (hp.thinned hts _ rfl) (hparts.thinned hmore)
  | .lost _ _ hparts =>
    rw [Part.allTokens_cons] at hts
    exact .missing (hparts.thinned (List.forall_mem_append.mp hts).2)
  | .alone hs hp _ hfinal hparts =>
    rw [Part.allTokens_cons] at hts
    obtain ⟨hts, hmore⟩ := List.forall_mem_append.mp hts
    have hfound := hp.carved hts hfinal room
    rw [List.map_cons]
    rw [hs] at hfound ⊢
    exact .torn hfound (hparts.thinned hmore)

end

/-! ### Whole sources -/

/-- The parser finds what is left of the declarations of a source. -/
theorem TrimsAll.statements {room : Nat} {ts : Tokens} {parts : List Part} {ss : List Stmt}
    (h : TrimsAll room parts ss) (hts : (start ts).Proper)
    (hparts : Part.allTokens parts = ts.body) : (parseTokens room ts).statements = ss := by
  obtain ⟨d, hpast, hnil, -⟩ := past_start ts.body ts.final
  have hend := (hts.past hpast).rest_eq_nil.mp hnil
  have hruns := h.runs false hts (by rwa [hparts]) (.inl hend)
  have hgives := hruns.sequence hts.toDelimited (by rw [Scriptlet.sequenceStops, hnil]; rfl)
  show (program room (start ts)).outcome.toOption.getD [] = ss
  rw [program_eq]
  exact congrArg (·.toOption.getD []) hgives.outcome

/-- The statements of a source that is well formed are carved by every limit. -/
theorem parse_carved {room room' : Nat} {source : List Char}
    (h : (parse room source).diagnostics = []) :
    Carved (parse room' source).statements (bodyPieces (parse room source).statements) := by
  obtain ⟨-, statements, n, ⟨parts, hparts, hbody, rfl, rfl⟩, hn⟩ :=
    (parse_diagnostics_iff room source).mp h
  rw [parse_statements ⟨parts, hparts, hbody, rfl, rfl⟩ hn]
  refine carves_program room' (start_proper source) ?_
  rw [hbody]
  exact bodyPieces_spelled fun p hp => (hparts p hp).spelled

/-- **Parsing a source with another limit**, for all limits within which the source is well formed.
Its statements are read off the pieces of those it has, one behind the other, so that their own
pieces are some of these in the same order. Where its declarations can be trimmed, what is left of
them is what the other limit leaves, and in the lists of the program and of its blocks statements
are missing, or others that are read off an if stand in its place. Up to a limit of 55 the stack
has room for the parsing. -/
theorem parse_lower_limit (limit lower : Int) (source : List Char)
    (h : (parse limit.toNat source).diagnostics = []) :
    Carved (parse lower.toNat source).statements
        (bodyPieces (parse limit.toNat source).statements) ∧
      (bodyPieces (parse lower.toNat source).statements).Sublist
        (bodyPieces (parse limit.toNat source).statements) ∧
      (∀ parts kept, AllSentences parts → Part.allTokens parts = (Tokens.scan source).body →
        TrimsAll lower.toNat parts kept →
        (parse limit.toNat source).statements = parts.map Part.statement ∧
          (parse lower.toNat source).statements = kept ∧
          ThinnedAll (parts.map Part.statement) kept) ∧
      (lower ≤ 55 → (parse lower.toNat source).fits = true) := by
  have hcarved : Carved (parse lower.toNat source).statements _ := parse_carved h
  refine ⟨hcarved, hcarved.sublist, fun parts kept hparts hbody htrims => ?_,
    fun hlower => parse_fits _ (by omega) source⟩
  obtain ⟨-, statements, n, hprogram, hn⟩ := (parse_diagnostics_iff _ source).mp h
  have hproper := start_proper source
  have htokens : ∀ t ∈ Part.allTokens parts, t.Proper := by
    rw [hbody]
    exact (start_proper_iff rfl).mp hproper
  refine ⟨?_, htrims.statements hproper hbody, htrims.thinned htokens⟩
  rw [parse_statements hprogram hn]
  exact program_unique hprogram ⟨parts, hparts, hbody.symm, rfl, rfl⟩

/-- The parts of a source with an if for which there is no room at a limit of zero. -/
def guardedParts : List Part :=
  [⟨⟨.ifWord, 0, 1, "if"⟩ :: ⟨.leftParen, 3, 3, "("⟩ :: ([⟨.leftParen, 4, 4, "("⟩,
        ⟨.identifier, 5, 5, "a"⟩, ⟨.rightParen, 6, 6, ")"⟩] ++ ⟨.rightParen, 7, 7, ")"⟩ ::
          [⟨.printWord, 9, 13, "print"⟩, ⟨.identifier, 15, 15, "b"⟩, ⟨.semicolon, 16, 16, ";"⟩]),
      .branch (.variable "a") (.print (.variable "b")) none, 1⟩,
    ⟨[⟨.identifier, 18, 18, "c"⟩] ++ [⟨.semicolon, 19, 19, ";"⟩], .expression (.variable "c"), 0⟩]

theorem guardedParts_sentences : AllSentences guardedParts := by
  have hname (t : Token) (h : t.kind = .identifier) :
      Phrase .expression [t] (.variable t.text) 0 :=
    .operation (.ofPrimary (.literal (.name h)))
  have hcondition : Phrase .expression (⟨.leftParen, 4, 4, "("⟩ :: ([⟨.identifier, 5, 5, "a"⟩] ++
      [⟨.rightParen, 6, 6, ")"⟩])) (.variable "a") 1 :=
    .operation (.ofPrimary (.group rfl (hname ⟨.identifier, 5, 5, "a"⟩ rfl) rfl))
  have hprint : Sentence .statement (⟨.printWord, 9, 13, "print"⟩ ::
      ([⟨.identifier, 15, 15, "b"⟩] ++ [⟨.semicolon, 16, 16, ";"⟩])) (.print (.variable "b")) 0 :=
    .print rfl (hname ⟨.identifier, 15, 15, "b"⟩ rfl) rfl
  have hlast : Sentence .statement ([⟨.identifier, 18, 18, "c"⟩] ++ [⟨.semicolon, 19, 19, ";"⟩])
      (.expression (.variable "c")) 0 :=
    .expression (hname ⟨.identifier, 18, 18, "c"⟩ rfl) rfl
  exact List.forall_mem_cons.mpr ⟨.statement (.ifThen rfl rfl hcondition rfl hprint),
    List.forall_mem_singleton.mpr (.statement hlast)⟩

/-- At a limit of zero an if is torn, and what it guards at a limit of one is found without it. -/
theorem parse_lower_limit_if :
    (parse (1 : Int).toNat "if ((a)) print b; c;".toList).diagnostics = [] ∧
      (parse (0 : Int).toNat "if ((a)) print b; c;".toList).statements =
        [.print (.variable "b"), .expression (.variable "c")] ∧
      ThinnedAll
        [.branch (.variable "a") (.print (.variable "b")) none, .expression (.variable "c")]
        [.print (.variable "b"), .expression (.variable "c")] := by
  have hwhole : (parse (1 : Int).toNat "if ((a)) print b; c;".toList).diagnostics = [] := by
    decide +kernel
  obtain ⟨-, -, htrimmed, -⟩ := parse_lower_limit 1 0 _ hwhole
  have hparts := guardedParts_sentences
  obtain ⟨-, hstatements, hthinned⟩ := htrimmed guardedParts _ hparts (by decide +kernel)
    (.alone rfl (hparts _ List.mem_cons_self) (by decide)
      (show (⟨.eof, 20, 20, ""⟩ : Token).kind = .eof from rfl)
      (.kept (.fits (hparts _ (List.mem_cons_of_mem _ List.mem_cons_self)) (Nat.le_refl 0)) .nil))
  exact ⟨hwhole, hstatements, hthinned⟩

/-! ### What a lower limit does not keep -/

/-- A statement is found without the if that guards it, and another one outside of the block that
it stands in. -/
theorem lower_limit_unguarded :
    (parse (1 : Int).toNat "if ((a)) print b;".toList).diagnostics = [] ∧
      (parse (1 : Int).toNat "if ((a)) print b;".toList).statements =
        [.branch (.variable "a") (.print (.variable "b")) none] ∧
      (parse (0 : Int).toNat "if ((a)) print b;".toList).statements = [.print (.variable "b")] ∧
      (parse (2 : Int).toNat "{ { a; } { b; } print c; }".toList).statements =
        [.block [.block [.expression (.variable "a")], .block [.expression (.variable "b")],
          .print (.variable "c")]] ∧
      (parse (1 : Int).toNat "{ { a; } { b; } print c; }".toList).statements =
        [.block [], .print (.variable "c")] :=
  ⟨by decide +kernel, rfl, rfl, rfl, rfl⟩

end Scriptlet
