import Mathlib.Data.String.Basic
import Scriptlet.Text.Message

/-! Texts without their escape sequences.

An escape sequence begins with the escape character and a bracket and ends with the next m.
`unstyled` takes all of them out of a text. A text sheds to another if that is what remains
of it in front of any text (`Sheds`), so that texts that shed can be put together: a text
without the escape character sheds to itself, and what a painter makes of it to the text, if
the painter does nothing but put sequences around it (`Painter.Wraps`). -/
namespace Scriptlet.Text

def escapeChar : Char := '\x1b'

/-- No escape sequence begins in the text. -/
def Unescaped (text : String) : Prop :=
  escapeChar ∉ text.toList

instance (text : String) : Decidable (Unescaped text) :=
  inferInstanceAs (Decidable (escapeChar ∉ text.toList))

/-! ### Taking sequences out -/

/-- How many characters a text has up to its first m, that one included. -/
def throughEnd? : List Char → Option Nat
  | [] => none
  | c :: rest => if c = 'm' then some 1 else (throughEnd? rest).map (· + 1)

/-- How many characters the sequence has that an escape character before the text begins. -/
def sequenceLength? : List Char → Option Nat
  | [] => none
  | c :: rest => if c = '[' then (throughEnd? rest).map (· + 1) else none

/-- The text without its sequences; the first `skip` characters belong to one. -/
def unstyledFrom : Nat → List Char → List Char
  | _, [] => []
  | skip + 1, _ :: rest => unstyledFrom skip rest
  | 0, c :: rest =>
    match if c = escapeChar then sequenceLength? rest else none with
    | some n => unstyledFrom n rest
    | none => c :: unstyledFrom 0 rest

def unstyled (text : String) : String :=
  String.ofList (unstyledFrom 0 text.toList)

theorem unstyledFrom_append (front rest : List Char) :
    unstyledFrom front.length (front ++ rest) = unstyledFrom 0 rest := by
  induction front with
  | nil => rfl
  | cons c front ih => exact ih

theorem throughEnd?_append {code : List Char} (h : 'm' ∉ code) (rest : List Char) :
    throughEnd? (code ++ 'm' :: rest) = some (code.length + 1) := by
  induction code with
  | nil => rfl
  | cons c code ih =>
    obtain ⟨hc, hcode⟩ := List.ne_and_not_mem_of_not_mem_cons h
    rw [List.cons_append, throughEnd?, if_neg (Ne.symm hc), ih hcode]
    rfl

/-! ### Texts that shed -/

/-- Of the first text the second remains, whatever follows. -/
def Sheds (styled plain : String) : Prop :=
  ∀ rest, unstyledFrom 0 (styled.toList ++ rest) = plain.toList ++ unstyledFrom 0 rest

section
variable {styled plain styled' plain' text : String}

theorem Sheds.unstyled (h : Sheds styled plain) : unstyled styled = plain := by
  have hall := h []
  rw [List.append_nil, unstyledFrom, List.append_nil] at hall
  rw [Text.unstyled, hall, String.ofList_toList]

theorem sheds_nil : Sheds "" "" :=
  fun _ => rfl

theorem Sheds.append (h : Sheds styled plain) (h' : Sheds styled' plain') :
    Sheds (styled ++ styled') (plain ++ plain') := by
  intro rest
  rw [String.toList_append, String.toList_append, List.append_assoc, h, h', List.append_assoc]

/-- A text in which no sequence begins keeps all its characters. -/
theorem Unescaped.sheds (h : Unescaped text) : Sheds text text := by
  intro rest
  unfold Unescaped at h
  generalize text.toList = chars at h ⊢
  induction chars with
  | nil => rfl
  | cons c chars ih =>
    obtain ⟨hc, hchars⟩ := List.ne_and_not_mem_of_not_mem_cons h
    rw [List.cons_append, unstyledFrom, if_neg (Ne.symm hc), ih hchars]
    rfl

/-- A number is written with digits alone. -/
theorem notMem_natRepr {c : Char} (h : c.isDigit = false) (n : Nat) : c ∉ (Nat.repr n).toList := by
  rw [Nat.toList_repr]
  intro hmem
  rw [Nat.isDigit_of_mem_toDigits (by decide) (by decide) hmem] at h
  cases h

/-- Nothing remains of a sequence. -/
theorem sheds_control (code : Nat) : Sheds (control code) "" := by
  intro rest
  have hdigits : 'm' ∉ (Nat.repr code).toList := notMem_natRepr (by decide) code
  have hcontrol : (control code).toList ++ rest =
      escapeChar :: '[' :: ((Nat.repr code).toList ++ 'm' :: rest) := by
    rw [control, String.toList_append, String.toList_append, List.append_assoc, List.append_assoc]
    rfl
  have hlength : sequenceLength? ('[' :: ((Nat.repr code).toList ++ 'm' :: rest)) =
      some ('[' :: ((Nat.repr code).toList ++ ['m'])).length := by
    rw [sequenceLength?, if_pos rfl, throughEnd?_append hdigits]
    simp
  have hfront : '[' :: ((Nat.repr code).toList ++ 'm' :: rest) =
      '[' :: ((Nat.repr code).toList ++ ['m']) ++ rest := by
    simp
  rw [hcontrol, unstyledFrom, if_pos rfl, hlength, hfront]
  exact unstyledFrom_append _ rest

theorem sheds_join {α : Type} (f g : α → String) {xs : List α} (h : ∀ x ∈ xs, Sheds (f x) (g x)) :
    Sheds (String.join (xs.map f)) (String.join (xs.map g)) := by
  induction xs with
  | nil => exact sheds_nil
  | cons x xs ih =>
    obtain ⟨hx, hxs⟩ := List.forall_mem_cons.mp h
    rw [List.map_cons, List.map_cons, String.join_cons, String.join_cons]
    exact hx.append (ih hxs)

end

/-! ### Painters -/

/-- A painter puts sequences in front of a text and one that ends them behind it, and changes
nothing else. -/
def Painter.Wraps (painter : Painter) : Prop :=
  ∀ colour text, ∃ codes : List Nat,
    painter.bold colour text = String.join (codes.map control) ++ text ++ control 0

theorem terminal_wraps : terminal.Wraps := by
  intro colour text
  refine ⟨1 :: (colour.map Colour.code).toList, ?_⟩
  cases colour <;> simp [Painter.bold, String.join_cons]

theorem sheds_controls (codes : List Nat) : Sheds (String.join (codes.map control)) "" := by
  induction codes with
  | nil => exact sheds_nil
  | cons code codes ih =>
    rw [List.map_cons, String.join_cons]
    exact (sheds_control code).append ih

/-- What is emphasized is the text that it is without style. -/
theorem Unescaped.emphasized {painter : Painter} (hwraps : painter.Wraps) {text : String}
    (h : Unescaped text) (colour : Option Colour) :
    Sheds (emphasize true colour text) (emphasize false colour text) := by
  obtain ⟨codes, hbold⟩ := hwraps colour text
  have hends := ((sheds_controls codes).append h.sheds).append (sheds_control 0)
  rw [String.empty_append, String.append_empty, ← hbold] at hends
  exact hends

/-! ### Texts without the escape character -/

theorem Unescaped.append {s t : String} (hs : Unescaped s) (ht : Unescaped t) :
    Unescaped (s ++ t) := by
  rw [Unescaped, String.toList_append, List.mem_append]
  exact not_or.mpr ⟨hs, ht⟩

theorem unescaped_ofList {text : List Char} (h : escapeChar ∉ text) :
    Unescaped (String.ofList text) := by
  rwa [Unescaped, String.toList_ofList]

theorem unescaped_natRepr (n : Nat) : Unescaped (Nat.repr n) :=
  notMem_natRepr (by decide) n

theorem unescaped_intRepr (n : Int) : Unescaped (Int.repr n) := by
  cases n with
  | ofNat m => exact unescaped_natRepr m
  | negSucc m => exact Unescaped.append (by decide) (unescaped_natRepr _)

end Scriptlet.Text
