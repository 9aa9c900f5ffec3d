import Mathlib.Data.Bool.Basic
import Mathlib.Data.String.Basic
import Scriptlet.Proofs.Comparing.Doubles
import Scriptlet.Run.Value

/-! The six comparisons tell of one order.

Equality, its negation and the four orderings come to their answers in different ways, for
each kind of value in its own. Yet within a kind they all tell of ranks in one linear order
(`Ranked`): of the numbers that doubles stand for, of false and true, of the one rank that
nil has, of texts by their first difference. From that the laws follow for all kinds at once
(`Ranked.coherent`). What is no number has no rank, and across kinds there is no order
(`comparisons_coherent`). -/
namespace Scriptlet

/-! ### Comparisons -/

namespace BinaryOp

abbrev less : BinaryOp := .compare .less
abbrev lessEqual : BinaryOp := .compare .lessEqual
abbrev greater : BinaryOp := .compare .greater
abbrev greaterEqual : BinaryOp := .compare .greaterEqual

/-- Whether the operator compares its operands. -/
def compares : BinaryOp → Bool
  | .equal | .notEqual | .compare _ => true
  | _ => false

def IsTrue (op : BinaryOp) (a b : Value) : Prop :=
  op.apply a b = .ok (.boolean true)

def IsFalse (op : BinaryOp) (a b : Value) : Prop :=
  op.apply a b = .ok (.boolean false)

section
variable {op : BinaryOp} {a b : Value} {t : Bool}

theorem isTrue_iff (h : op.apply a b = .ok (.boolean t)) : op.IsTrue a b ↔ t = true := by
  rw [IsTrue, h, Except.ok.injEq, Value.boolean.injEq]

theorem isFalse_iff (h : op.apply a b = .ok (.boolean t)) : op.IsFalse a b ↔ t = false := by
  rw [IsFalse, h, Except.ok.injEq, Value.boolean.injEq]

theorem apply_compare {c : Comparison} (h : c.holds? a b = some t) :
    (compare c).apply a b = .ok (.boolean t) := by
  simp only [apply, h]

end

end BinaryOp

open BinaryOp (equal notEqual less lessEqual greater greaterEqual)

/-- The laws of an order, for three values. -/
structure Coherent (a b c : Value) : Prop where
  answered : ∀ op : BinaryOp, op.compares = true → op.IsTrue a b ∨ op.IsFalse a b
  /-- One of the three is true, and the other two are false. -/
  one_true :
    (less.IsTrue a b ∧ equal.IsFalse a b ∧ greater.IsFalse a b) ∨
    (less.IsFalse a b ∧ equal.IsTrue a b ∧ greater.IsFalse a b) ∨
    (less.IsFalse a b ∧ equal.IsFalse a b ∧ greater.IsTrue a b)
  at_most : lessEqual.IsTrue a b ↔ less.IsTrue a b ∨ equal.IsTrue a b
  at_least : greaterEqual.IsTrue a b ↔ lessEqual.IsTrue b a
  differs : notEqual.IsTrue a b ↔ ¬ equal.IsTrue a b
  less_trans : less.IsTrue a b → less.IsTrue b c → less.IsTrue a c
  equal_refl : equal.IsTrue a a
  equal_symm : equal.IsTrue a b → equal.IsTrue b a
  equal_trans : equal.IsTrue a b → equal.IsTrue b c → equal.IsTrue a c
  /-- Equal values are below the same values, and above the same values. -/
  respected : equal.IsTrue a b →
    (less.IsTrue a c ↔ less.IsTrue b c) ∧ (less.IsTrue c a ↔ less.IsTrue c b)

/-! ### Ranks -/

/-- Values that are compared as their ranks are, in a linear order. -/
structure Ranked {ι α : Type} [LinearOrder α] (value : ι → Value) (rank : ι → α) : Prop where
  equals : ∀ i j, (value i).equals (value j) = true ↔ rank i = rank j
  ordered : ∀ i j (c : Comparison), c.holds? (value i) (value j) = some (c.holds (rank i) (rank j))

namespace Ranked

variable {ι α : Type} [LinearOrder α] {value : ι → Value} {rank : ι → α}

section
variable (h : Ranked value rank) (i j : ι)
include h

theorem equal_iff : equal.IsTrue (value i) (value j) ↔ rank i = rank j :=
  (BinaryOp.isTrue_iff rfl).trans (h.equals i j)

theorem not_equal_iff : equal.IsFalse (value i) (value j) ↔ rank i ≠ rank j := by
  rw [BinaryOp.isFalse_iff (rfl : equal.apply (value i) (value j) = _),
    ← Bool.not_eq_true, h.equals]

theorem notEqual_iff : notEqual.IsTrue (value i) (value j) ↔ rank i ≠ rank j := by
  rw [BinaryOp.isTrue_iff (rfl : notEqual.apply (value i) (value j) = _),
    Bool.not_eq_true', ← Bool.not_eq_true, h.equals]

theorem compare_iff (c : Comparison) :
    (BinaryOp.compare c).IsTrue (value i) (value j) ↔ c.holds (rank i) (rank j) = true :=
  BinaryOp.isTrue_iff (BinaryOp.apply_compare (h.ordered i j c))

theorem not_compare_iff (c : Comparison) :
    (BinaryOp.compare c).IsFalse (value i) (value j) ↔ c.holds (rank i) (rank j) = false :=
  BinaryOp.isFalse_iff (BinaryOp.apply_compare (h.ordered i j c))

theorem answered (op : BinaryOp) (hop : op.compares = true) :
    op.IsTrue (value i) (value j) ∨ op.IsFalse (value i) (value j) := by
  have hanswer {t : Bool} (ht : op.apply (value i) (value j) = .ok (.boolean t)) :
      op.IsTrue (value i) (value j) ∨ op.IsFalse (value i) (value j) := by
    rw [BinaryOp.isTrue_iff ht, BinaryOp.isFalse_iff ht]
    exact (Bool.eq_false_or_eq_true t)
  cases op with
  | plus | minus | star | slash => cases hop
  | equal | notEqual => exact hanswer rfl
  | compare c => exact hanswer (BinaryOp.apply_compare (h.ordered i j c))

end

/-- **Ranked values are compared coherently.** -/
theorem coherent (h : Ranked value rank) (i j k : ι) :
    Coherent (value i) (value j) (value k) where
  answered := h.answered i j
  one_true := by
    simp only [h.equal_iff, h.not_equal_iff, h.compare_iff, h.not_compare_iff, Comparison.holds,
      decide_eq_true_eq, decide_eq_false_iff_not]
    rcases lt_trichotomy (rank i) (rank j) with hlt | heq | hgt
    · exact .inl ⟨hlt, hlt.ne, hlt.not_gt⟩
    · exact .inr (.inl ⟨heq.not_lt, heq, heq.not_gt⟩)
    · exact .inr (.inr ⟨hgt.not_gt, hgt.ne', hgt⟩)
  at_most := by
    simp only [h.equal_iff, h.compare_iff, Comparison.holds, decide_eq_true_eq]
    exact le_iff_lt_or_eq
  at_least := by
    simp only [h.compare_iff, Comparison.holds]
  differs := by
    rw [h.notEqual_iff, h.equal_iff]
  less_trans := by
    simp only [h.compare_iff, Comparison.holds, decide_eq_true_eq]
    exact lt_trans
  equal_refl := (h.equal_iff i i).mpr rfl
  equal_symm := by
    rw [h.equal_iff, h.equal_iff]
    exact Eq.symm
  equal_trans := by
    rw [h.equal_iff, h.equal_iff, h.equal_iff]
    exact Eq.trans
  respected := by
    simp only [h.equal_iff, h.compare_iff, Comparison.holds, decide_eq_true_eq]
    intro heq
    rw [heq]
    exact ⟨Iff.rfl, Iff.rfl⟩

end Ranked

/-! ### Kinds -/

/-- Whether a value is the number that is none. -/
def Value.isNaN : Value → Bool
  | .number x => x.isNaN
  | _ => false

/-- Numbers are ranked by what they stand for. -/
theorem ranked_numbers :
    Ranked (fun x : { x : Float // x.isNaN = false } => .number x.1)
      (fun x => (Decimal.value? x.1).getD ⊥) := by
  have hvalue (x : { x : Float // x.isNaN = false }) :
      Decimal.value? x.1 = some ((Decimal.value? x.1).getD ⊥) := by
    cases h : Decimal.value? x.1 with
    | none =>
      have hnan := x.2
      rw [(Decimal.isNaN_iff x.1).mpr h] at hnan
      cases hnan
    | some p => rfl
  refine ⟨fun x y => Decimal.beq_iff (hvalue x) (hvalue y), fun x y c => congrArg some ?_⟩
  cases c with
  | greater => exact decide_eq_decide.mpr (Decimal.lt_iff (hvalue y) (hvalue x))
  | greaterEqual => exact decide_eq_decide.mpr (Decimal.le_iff (hvalue y) (hvalue x))
  | less => exact decide_eq_decide.mpr (Decimal.lt_iff (hvalue x) (hvalue y))
  | lessEqual => exact decide_eq_decide.mpr (Decimal.le_iff (hvalue x) (hvalue y))

/-- False is below true. -/
theorem ranked_booleans : Ranked Value.boolean id :=
  ⟨fun _ _ => beq_iff_eq, fun a b c => by cases a <;> cases b <;> cases c <;> rfl⟩

theorem ranked_nil : Ranked (fun _ : Unit => Value.nil) id :=
  ⟨fun _ _ => ⟨fun _ => rfl, fun _ => rfl⟩, fun _ _ c => by cases c <;> rfl⟩

theorem ranked_strings : Ranked Value.string id :=
  ⟨fun _ _ => beq_iff_eq, fun s t c => by cases c <;> rfl⟩

theorem coherent_of_kind {a b c : Value} (hab : a.kind = b.kind) (hbc : b.kind = c.kind)
    (ha : a.isNaN = false) (hb : b.isNaN = false) (hc : c.isNaN = false) : Coherent a b c := by
  cases a <;> cases b <;> cases hab <;> cases c <;> cases hbc
  · exact ranked_numbers.coherent ⟨_, ha⟩ ⟨_, hb⟩ ⟨_, hc⟩
  · exact ranked_booleans.coherent _ _ _
  · exact ranked_nil.coherent () () ()
  · exact ranked_strings.coherent _ _ _

/-! ### Values without an order -/

/-- Neither is below the other, nor are they equal. -/
structure Unordered (a b : Value) : Prop where
  no_order : ∀ c : Comparison, (BinaryOp.compare c).IsFalse a b
  not_equal : equal.IsFalse a b
  differs : notEqual.IsTrue a b

/-- They differ, and asking for their order is an error. -/
structure Apart (a b : Value) : Prop where
  not_equal : equal.IsFalse a b
  differs : notEqual.IsTrue a b
  no_order : ∀ c : Comparison,
    (BinaryOp.compare c).apply a b = .error (.operands (.compare c) a.kind b.kind)

theorem unordered_of_nan {x y : Float} (h : x.isNaN = true ∨ y.isNaN = true) :
    Unordered (.number x) (.number y) := by
  have hequals : Value.equals (.number x) (.number y) = false := Decimal.beq_of_nan h
  refine ⟨fun c => (BinaryOp.isFalse_iff (BinaryOp.apply_compare rfl)).mpr ?_,
    (BinaryOp.isFalse_iff rfl).mpr hequals,
    (BinaryOp.isTrue_iff rfl).mpr (congrArg Bool.not hequals)⟩
  cases c with
  | greater => exact decide_eq_false (Decimal.not_lt_of_nan h.symm)
  | greaterEqual => exact decide_eq_false (Decimal.not_le_of_nan h.symm)
  | less => exact decide_eq_false (Decimal.not_lt_of_nan h)
  | lessEqual => exact decide_eq_false (Decimal.not_le_of_nan h)

theorem apart_of_kind {a b : Value} (h : a.kind ≠ b.kind) : Apart a b := by
  have hequals : a.equals b = false := by
    cases a <;> cases b <;> first | rfl | exact absurd rfl h
  have hnone (c : Comparison) : c.holds? a b = none := by
    cases a <;> cases b <;> first | rfl | exact absurd rfl h
  refine ⟨(BinaryOp.isFalse_iff rfl).mpr hequals,
    (BinaryOp.isTrue_iff rfl).mpr (congrArg Bool.not hequals), fun c => ?_⟩
  simp only [BinaryOp.apply, hnone]

/-! ### Orders of their own -/

/-- The order of texts by the numbers of their characters, at the first difference. -/
theorem less_string (s t : String) : less.IsTrue (.string s) (.string t) ↔
    List.Lex (fun c d => c.toNat < d.toNat) s.toList t.toList :=
  (ranked_strings.compare_iff s t .less).trans
    (decide_eq_true_iff.trans String.lt_iff_toList_lt)

theorem less_number {x y : Float} {p q : Decimal.Binary64.Value} (hp : Decimal.value? x = some p)
    (hq : Decimal.value? y = some q) :
    (less.IsTrue (.number x) (.number y) ↔ p < q) ∧
      (equal.IsTrue (.number x) (.number y) ↔ p = q) :=
  ⟨(BinaryOp.isTrue_iff (BinaryOp.apply_compare rfl)).trans
      (decide_eq_true_iff.trans (Decimal.lt_iff hp hq)),
    (BinaryOp.isTrue_iff rfl).trans (Decimal.beq_iff hp hq)⟩

theorem zeros_equal : equal.IsTrue (.number 0.0) (.number (-0.0)) :=
  (BinaryOp.isTrue_iff rfl).mpr (by decide +kernel)

/-- **The comparisons are coherent.** Within a kind they tell of one order; what is no number
is in no order, and equal to nothing; across kinds values differ and have no order. Texts are
ordered by the numbers of their characters, and numbers as what they stand for. -/
theorem comparisons_coherent (a b c : Value) :
    (a.kind = b.kind → b.kind = c.kind → a.isNaN = false → b.isNaN = false → c.isNaN = false →
      Coherent a b c) ∧
    (a.kind = .number → b.kind = .number → a.isNaN = true ∨ b.isNaN = true → Unordered a b) ∧
    (a.kind ≠ b.kind → Apart a b) ∧
    (∀ s t, less.IsTrue (.string s) (.string t) ↔
      List.Lex (fun c d => c.toNat < d.toNat) s.toList t.toList) ∧
    (∀ x y p q, Decimal.value? x = some p → Decimal.value? y = some q →
      (less.IsTrue (.number x) (.number y) ↔ p < q) ∧
        (equal.IsTrue (.number x) (.number y) ↔ p = q)) ∧
    equal.IsTrue (.number 0.0) (.number (-0.0)) := by
  refine ⟨coherent_of_kind, fun ha hb h => ?_, apart_of_kind, less_string,
    fun x y p q => less_number, zeros_equal⟩
  cases a with
  | number x =>
    cases b with
    | number y => exact unordered_of_nan h
    | boolean | nil | string => cases hb
  | boolean | nil | string => cases ha

/-- Both zeros and what is above them; what is no number; a number and a text; the infinities. -/
theorem comparisons_coherent_zeros :
    Coherent (.number (-0.0)) (.number 0.0) (.number 1.5) ∧
    Unordered (.number (0.0 / 0.0)) (.number 1.5) ∧ Apart (.number 1.5) (.string "1.5") ∧
    less.IsTrue (.number (-1.0 / 0.0)) (.number (1.0 / 0.0)) := by
  have hbottom : Decimal.value? (-1.0 / 0.0) = some ⊥ :=
    congrArg Decimal.Binary64.value?
      (by decide +kernel : Decimal.Binary64.ofFloat (-1.0 / 0.0) = .infinite true)
  have htop : Decimal.value? (1.0 / 0.0) = some ⊤ :=
    congrArg Decimal.Binary64.value?
      (by decide +kernel : Decimal.Binary64.ofFloat (1.0 / 0.0) = .infinite false)
  exact ⟨(comparisons_coherent (.number (-0.0)) (.number 0.0) (.number 1.5)).1 rfl rfl
      (by decide +kernel) (by decide +kernel) (by decide +kernel),
    (comparisons_coherent (.number (0.0 / 0.0)) (.number 1.5) .nil).2.1 rfl rfl
      (.inl (by decide +kernel)),
    (comparisons_coherent (.number 1.5) (.string "1.5") .nil).2.2.1 (by decide),
    ((comparisons_coherent .nil .nil .nil).2.2.2.2.1 _ _ _ _ hbottom htop).1.mpr (by decide)⟩

end Scriptlet
