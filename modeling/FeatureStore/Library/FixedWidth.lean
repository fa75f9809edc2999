import Mathlib.Data.List.Forall2
import Mathlib.Data.List.Lex
import Mathlib.Data.String.Basic
import Mathlib.Tactic.NormNum

/-!
# Fixed-width decimal texts

Numbers written with a fixed count of decimal digits, and texts that put such
numbers behind constant separators. The lexicographic order of the texts is the
order of the numbers, field by field.
-/

namespace FixedWidth

/-- The last `width` decimal digits of a number, most significant first. -/
def digits : Nat → Nat → List Char
  | 0, _ => []
  | width + 1, n => Nat.digitChar (n / 10 ^ width % 10) :: digits width n

/-- A constant text, and the number of digits that follow it. -/
structure Field where
  separator : List Char
  width : Nat
deriving DecidableEq, Repr

/-- Write the numbers into the fields of a template. -/
def render : List Field → List Nat → List Char
  | field :: template, n :: numbers =>
      field.separator ++ (digits field.width n ++ render template numbers)
  | _, _ => []

/-- Each number has at most as many digits as its field. -/
def Fits (template : List Field) (numbers : List Nat) : Prop :=
  List.Forall₂ (fun field n => n < 10 ^ field.width) template numbers

@[simp] theorem length_digits (width n : Nat) : (digits width n).length = width := by
  induction width with
  | zero => rfl
  | succ width ih => simp [digits, ih]

theorem digitChar_lt {a b : Nat} (hab : a < b) (hb : b < 10) :
    Nat.digitChar a < Nat.digitChar b := by
  have h : ∀ b : Fin 10, ∀ a : Fin b.val, Nat.digitChar a.val < Nat.digitChar b.val := by
    decide
  exact h ⟨b, hb⟩ ⟨a, hab⟩

/-- Texts of equal length compare by the first difference, whatever follows them. -/
theorem append_lt_append {τ : Type*} [LT τ] {a b : List τ} (hlength : a.length = b.length)
    (hab : a < b) (c d : List τ) : a ++ c < b ++ d := by
  induction a generalizing b with
  | nil =>
      obtain rfl : b = [] := List.eq_nil_of_length_eq_zero hlength.symm
      exact absurd hab (List.not_lt_nil [])
  | cons x xs ih =>
      cases b with
      | nil => cases hlength
      | cons y ys =>
          rw [List.cons_append, List.cons_append, List.cons_lt_cons_iff]
          rcases List.cons_lt_cons_iff.mp hab with hxy | ⟨rfl, htail⟩
          · exact Or.inl hxy
          · exact Or.inr ⟨rfl, ih (Nat.succ.inj hlength) htail⟩

/-- Digits compare as the numbers that they keep. -/
theorem digits_lt_of_mod {width a b : Nat} (h : a % 10 ^ width < b % 10 ^ width) :
    digits width a < digits width b := by
  induction width with
  | zero => simp [Nat.mod_one] at h
  | succ width ih =>
      rw [Nat.mod_pow_succ, Nat.mod_pow_succ] at h
      have ha : a % 10 ^ width < 10 ^ width := Nat.mod_lt _ (by positivity)
      have hb : b % 10 ^ width < 10 ^ width := Nat.mod_lt _ (by positivity)
      have hdigit : b / 10 ^ width % 10 < 10 := Nat.mod_lt _ (by norm_num)
      rw [digits, digits, List.cons_lt_cons_iff]
      rcases lt_trichotomy (a / 10 ^ width % 10) (b / 10 ^ width % 10) with hlt | heq | hgt
      · exact Or.inl (digitChar_lt hlt hdigit)
      · rw [heq] at h
        exact Or.inr ⟨congrArg Nat.digitChar heq, ih (by omega)⟩
      · have hle : 10 ^ width * (b / 10 ^ width % 10 + 1) ≤ 10 ^ width * (a / 10 ^ width % 10) :=
          Nat.mul_le_mul_left _ hgt
        rw [Nat.mul_succ] at hle
        omega

theorem digits_lt {width a b : Nat} (hab : a < b) (hb : b < 10 ^ width) :
    digits width a < digits width b := by
  apply digits_lt_of_mod
  rwa [Nat.mod_eq_of_lt hb, Nat.mod_eq_of_lt (hab.trans hb)]

theorem digits_inj {width a b : Nat} (ha : a < 10 ^ width) (hb : b < 10 ^ width)
    (h : digits width a = digits width b) : a = b := by
  rcases lt_trichotomy a b with hlt | heq | hgt
  · exact absurd h (digits_lt hlt hb).ne
  · exact heq
  · exact absurd h (digits_lt hgt ha).ne'

/-- The text of fitting numbers is ordered as the numbers are, first field first. -/
theorem render_lt {template : List Field} {a b : List Nat} (ha : Fits template a)
    (hb : Fits template b) (hab : a < b) : render template a < render template b := by
  induction ha generalizing b with
  | nil =>
      cases hb
      exact absurd hab (List.not_lt_nil [])
  | @cons field n template as hn has ih =>
      cases hb with
      | @cons _ m _ bs hm hbs =>
          apply List.append_left_lt
          rcases List.cons_lt_cons_iff.mp hab with hlt | ⟨rfl, htail⟩
          · exact append_lt_append (by simp) (digits_lt hlt hm) _ _
          · exact List.append_left_lt (ih hbs htail)

/-- Fitting numbers with the same text are the same. -/
theorem render_inj {template : List Field} {a b : List Nat} (ha : Fits template a)
    (hb : Fits template b) (h : render template a = render template b) : a = b := by
  rcases lt_trichotomy a b with hlt | heq | hgt
  · exact absurd h (render_lt ha hb hlt).ne
  · exact heq
  · exact absurd h (render_lt hb ha hgt).ne'

theorem length_render {template : List Field} {a : List Nat} (ha : Fits template a) :
    (render template a).length =
      (template.map fun field => field.separator.length + field.width).sum := by
  induction ha with
  | nil => rfl
  | cons _ _ ih => simp [render, ih, Nat.add_assoc]

/-- A constant text behind the last field does not change the order. -/
theorem render_append_lt {template : List Field} {a b : List Nat} (ha : Fits template a)
    (hb : Fits template b) (hab : a < b) (suffix : List Char) :
    render template a ++ suffix < render template b ++ suffix := by
  apply append_lt_append
  · rw [length_render ha, length_render hb]
  · exact render_lt ha hb hab

end FixedWidth
