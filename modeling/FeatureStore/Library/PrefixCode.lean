import Mathlib.Data.List.Basic

/-!
# Codes that read back

A code writes values as words over an alphabet. A word reads back when neither
another word nor what follows it can be mistaken for it. Sequences of words with
a terminator, or with separators and a terminator, read back if their members do.
-/

namespace PrefixCode

variable {α β τ : Type*}

/-- The word of `a` determines `a` and what follows, among the words of the domain
and the continuations that satisfy `follow`. -/
def ReadsBack (code : α → List τ) (domain : α → Prop) (follow : List τ → Prop) (a : α) :
    Prop :=
  ∀ b, domain b → ∀ r r', follow r → follow r' → code a ++ r = code b ++ r' → a = b ∧ r = r'

/-- The continuations that do not begin with a token. -/
def Ends (isToken : τ → Bool) (r : List τ) : Prop :=
  ∀ c ∈ r.head?, isToken c = false

@[simp] theorem ends_nil (isToken : τ → Bool) : Ends isToken [] := by
  simp [Ends]

@[simp] theorem ends_cons (isToken : τ → Bool) (c : τ) (r : List τ) :
    Ends isToken (c :: r) ↔ isToken c = false := by
  simp [Ends]

theorem takeWhile_append {isToken : τ → Bool} {word r : List τ}
    (hword : ∀ c ∈ word, isToken c = true) (hr : Ends isToken r) :
    (word ++ r).takeWhile isToken = word := by
  induction word with
  | nil =>
      cases r with
      | nil => rfl
      | cons c r =>
          rw [ends_cons] at hr
          rw [List.nil_append, List.takeWhile_cons, if_neg (by simp [hr])]
  | cons c word ih =>
      have hhead := hword c List.mem_cons_self
      rw [List.cons_append, List.takeWhile_cons, if_pos hhead,
        ih fun x hx => hword x (List.mem_cons_of_mem _ hx)]

theorem dropWhile_append {isToken : τ → Bool} {word r : List τ}
    (hword : ∀ c ∈ word, isToken c = true) (hr : Ends isToken r) :
    (word ++ r).dropWhile isToken = r := by
  have hsplit := @List.takeWhile_append_dropWhile _ isToken (word ++ r)
  rw [takeWhile_append hword hr] at hsplit
  exact List.append_cancel_left hsplit

/-- A longest run of tokens determines where it ends. -/
theorem token_append {isToken : τ → Bool} {word word' r r' : List τ}
    (hword : ∀ c ∈ word, isToken c = true) (hword' : ∀ c ∈ word', isToken c = true)
    (hr : Ends isToken r) (hr' : Ends isToken r') (h : word ++ r = word' ++ r') :
    word = word' ∧ r = r' := by
  have hsame : word = word' := by
    calc
      word = (word ++ r).takeWhile isToken := (takeWhile_append hword hr).symm
      _ = (word' ++ r').takeWhile isToken := by rw [h]
      _ = word' := takeWhile_append hword' hr'
  subst hsame
  exact ⟨rfl, List.append_cancel_left h⟩

/-- Words in a row, up to a terminator that begins none of them. -/
theorem flatMap_terminated {code : α → List τ} {stop : τ}
    (hcode : ∀ a, ReadsBack code (fun _ => True) (fun _ => True) a)
    (hstop : ∀ a, ∃ c word, code a = c :: word ∧ c ≠ stop) :
    ∀ {as bs : List α} {r r' : List τ},
      as.flatMap code ++ stop :: r = bs.flatMap code ++ stop :: r' → as = bs ∧ r = r'
  | [], [], _, _, h => ⟨rfl, by simpa using h⟩
  | [], b :: _, _, _, h => by
      obtain ⟨c, word, hb, hne⟩ := hstop b
      simp only [List.flatMap_nil, List.nil_append, List.flatMap_cons, hb, List.cons_append,
        List.cons.injEq] at h
      exact absurd h.1.symm hne
  | a :: _, [], _, _, h => by
      obtain ⟨c, word, ha, hne⟩ := hstop a
      simp only [List.flatMap_nil, List.nil_append, List.flatMap_cons, ha, List.cons_append,
        List.cons.injEq] at h
      exact absurd h.1 hne
  | a :: as, b :: bs, r, r', h => by
      simp only [List.flatMap_cons, List.append_assoc] at h
      obtain ⟨rfl, hrest⟩ := hcode a b trivial _ _ trivial trivial h
      obtain ⟨rfl, rfl⟩ := flatMap_terminated hcode hstop hrest
      exact ⟨rfl, rfl⟩

/-- The words of a list with separators between them. -/
def separated (sep : τ) (code : α → List τ) : List α → List τ
  | [] => []
  | [a] => code a
  | a :: b :: rest => code a ++ sep :: separated sep code (b :: rest)

theorem separated_cons (sep : τ) (code : α → List τ) (a : α) (rest : List α) (r : List τ) :
    separated sep code (a :: rest) ++ r =
      code a ++ (if rest = [] then r else sep :: (separated sep code rest ++ r)) := by
  cases rest <;> simp [separated]

/-- Words between separators, up to a terminator that begins none of them. -/
theorem separated_terminated {code : α → List τ} {domain : α → Prop} {follow : List τ → Prop}
    {sep stop : τ} (hsep : sep ≠ stop) (hfollow_sep : ∀ r, follow (sep :: r))
    (hfollow_stop : ∀ r, follow (stop :: r))
    (hstop : ∀ a, domain a → ∃ c word, code a = c :: word ∧ c ≠ stop)
    {as bs : List α} {r r' : List τ} (has : ∀ a ∈ as, domain a)
    (hreads : ∀ a ∈ as, ReadsBack code domain follow a) (hbs : ∀ b ∈ bs, domain b)
    (h : separated sep code as ++ stop :: r = separated sep code bs ++ stop :: r') :
    as = bs ∧ r = r' := by
  induction as generalizing bs with
  | nil =>
      cases bs with
      | nil => exact ⟨rfl, by simpa [separated] using h⟩
      | cons b bs =>
          obtain ⟨c, word, hb, hne⟩ := hstop b (hbs b List.mem_cons_self)
          rw [separated_cons, hb] at h
          simp only [separated, List.nil_append, List.cons_append, List.cons.injEq] at h
          exact absurd h.1.symm hne
  | cons a as ih =>
      cases bs with
      | nil =>
          obtain ⟨c, word, ha, hne⟩ := hstop a (has a List.mem_cons_self)
          rw [separated_cons, ha] at h
          simp only [separated, List.nil_append, List.cons_append, List.cons.injEq] at h
          exact absurd h.1 hne
      | cons b bs =>
          rw [separated_cons, separated_cons] at h
          have hends : ∀ (rest : List α) (r : List τ),
              follow (if rest = [] then stop :: r
                else sep :: (separated sep code rest ++ stop :: r)) := by
            intro rest r
            split
            · exact hfollow_stop r
            · exact hfollow_sep _
          obtain ⟨rfl, hrest⟩ := hreads a List.mem_cons_self b (hbs b List.mem_cons_self) _ _
            (hends as r) (hends bs r') h
          by_cases hnil : as = []
          · by_cases hnil' : bs = []
            · subst hnil hnil'
              exact ⟨rfl, by simpa using hrest⟩
            · rw [if_pos hnil, if_neg hnil'] at hrest
              exact absurd (List.cons.inj hrest).1.symm hsep
          · by_cases hnil' : bs = []
            · rw [if_neg hnil, if_pos hnil'] at hrest
              exact absurd (List.cons.inj hrest).1 hsep
            · rw [if_neg hnil, if_neg hnil'] at hrest
              obtain ⟨rfl, rfl⟩ := ih (fun x hx => has x (List.mem_cons_of_mem _ hx))
                (fun x hx => hreads x (List.mem_cons_of_mem _ hx))
                (fun x hx => hbs x (List.mem_cons_of_mem _ hx)) (List.cons.inj hrest).2
              exact ⟨rfl, rfl⟩

end PrefixCode
