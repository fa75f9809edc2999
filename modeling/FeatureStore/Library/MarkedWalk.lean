import Mathlib.Data.Finset.SDiff
import Mathlib.Data.Finset.Card
import Mathlib.Logic.Relation

/-!
# Walks that mark what they visit

A walk goes from state to state until it leaves with a result, or comes to a state whose mark
it has seen before. With finitely many marks it ends, and if marks tell the states apart then it
leaves exactly when the steps of its start lead to a state that is left.
-/

namespace MarkedWalk

variable {σ κ α : Type*} [DecidableEq κ]

/-- A number of rounds of a walk: no result when it is not over, and an empty one when it has
come to a mark again. -/
def walk (mark : σ → κ) (next : σ → α ⊕ σ) : Nat → List κ → σ → Option (Option α)
  | 0, _, _ => none
  | rounds + 1, visited, current =>
      if mark current ∈ visited then some none
      else
        match next current with
        | .inl result => some (some result)
        | .inr following => walk mark next rounds (mark current :: visited) following

/-- The walk comes from one state to another. -/
def Reaches (next : σ → α ⊕ σ) : σ → σ → Prop :=
  Relation.ReflTransGen fun a b => next a = .inr b

variable {mark : σ → κ} {next : σ → α ⊕ σ} {rounds more : Nat} {visited : List κ}
  {start current last : σ} {result : α} {outcome : Option α}

/-- More rounds do not change the outcome. -/
theorem walk_mono (h : walk mark next rounds visited current = some outcome)
    (hmore : rounds ≤ more) : walk mark next more visited current = some outcome := by
  induction rounds generalizing more visited current with
  | zero => cases h
  | succ rounds ih =>
      obtain ⟨more, rfl⟩ := Nat.exists_eq_succ_of_ne_zero (Nat.ne_of_gt (Nat.zero_lt_of_lt hmore))
      rw [walk] at h ⊢
      split at h
      · rename_i hseen
        rw [if_pos hseen, h]
      · rename_i hnew
        rw [if_neg hnew]
        cases hnext : next current with
        | inl result =>
            simp only [hnext] at h ⊢
            exact h
        | inr following =>
            simp only [hnext] at h ⊢
            exact ih h (Nat.le_of_succ_le_succ hmore)

/-- The walk ends when its marks are among finitely many. -/
theorem walk_ends {marks : Finset κ} (hmark : mark current ∈ marks)
    (hclosed : ∀ a b, next a = .inr b → mark b ∈ marks)
    (hrounds : (marks \ visited.toFinset).card < rounds) :
    ∃ outcome, walk mark next rounds visited current = some outcome := by
  induction rounds generalizing visited current with
  | zero => exact absurd hrounds (Nat.not_lt_zero _)
  | succ rounds ih =>
      rw [walk]
      split
      · exact ⟨none, rfl⟩
      rename_i hnew
      cases hnext : next current with
      | inl result => exact ⟨some result, rfl⟩
      | inr following =>
          refine ih (hclosed _ _ hnext) ?_
          have hfresh : mark current ∈ marks \ visited.toFinset := by
            simp [hmark, hnew]
          have hless := Finset.card_erase_lt_of_mem hfresh
          rw [List.toFinset_cons, Finset.sdiff_insert]
          omega

/-- A walk that leaves has come to a state that is left. -/
theorem reaches_of_walk (h : walk mark next rounds visited current = some (some result)) :
    ∃ last, Reaches next current last ∧ next last = .inl result := by
  induction rounds generalizing visited current with
  | zero => cases h
  | succ rounds ih =>
      rw [walk] at h
      split at h
      · cases h
      cases hnext : next current with
      | inl other =>
          simp only [hnext] at h
          obtain rfl := Option.some.inj (Option.some.inj h)
          exact ⟨current, .refl, hnext⟩
      | inr following =>
          simp only [hnext] at h
          obtain ⟨last, hreaches, hlast⟩ := ih h
          exact ⟨last, .head hnext hreaches, hlast⟩

/-- States that a state leads to follow each other. -/
theorem Reaches.total {a b : σ} (ha : Reaches next start a) (hb : Reaches next start b) :
    Reaches next a b ∨ Reaches next b a :=
  Relation.ReflTransGen.total_of_right_unique
    (fun _ _ _ hx hy => Sum.inr.inj (hx.symm.trans hy)) ha hb

/-- A state that is left leads nowhere else. -/
theorem Reaches.eq_of_left {a b : σ} (h : Reaches next a b) (hleft : next a = .inl result) :
    b = a := by
  cases h.cases_head with
  | inl heq => exact heq.symm
  | inr hstep =>
      obtain ⟨following, hnext, -⟩ := hstep
      rw [hleft] at hnext
      cases hnext

/-- All that a state leads to comes before the state that is left. -/
theorem Reaches.before_left {a : σ} (ha : Reaches next start a) (hlast : Reaches next start last)
    (hleft : next last = .inl result) : Reaches next a last := by
  cases ha.total hlast with
  | inl hbefore => exact hbefore
  | inr hafter =>
      rw [hafter.eq_of_left hleft]
      exact .refl

/-- A state from which another is left does not come back to itself. -/
theorem Reaches.not_back {following : σ} (hlast : Reaches next start last)
    (hleft : next last = .inl result) (hnext : next start = .inr following) :
    ¬Reaches next following start := by
  induction hlast using Relation.ReflTransGen.head_induction_on generalizing following with
  | refl =>
      rw [hleft] at hnext
      cases hnext
  | @head a b hstep _ ih =>
      intro hback
      obtain rfl := Sum.inr.inj (hnext.symm.trans hstep)
      cases hback.cases_head with
      | inl heq =>
          rw [← heq] at hstep
          exact ih hstep .refl
      | inr hstep' =>
          obtain ⟨third, hthird, hreaches⟩ := hstep'
          exact ih hthird (hreaches.tail hstep)

/-- Between states with different marks a walk leaves as soon as its start leads to a state
that is left. -/
theorem walk_of_reaches
    (hinjective : ∀ {a b}, Reaches next start a → Reaches next start b → mark a = mark b → a = b)
    (hlast : Reaches next start last) (hleft : next last = .inl result)
    (hcurrent : Reaches next start current)
    (hvisited : ∀ seen ∈ visited, ∃ earlier following, mark earlier = seen ∧
      Reaches next start earlier ∧ next earlier = .inr following ∧
        Reaches next following current)
    (h : walk mark next rounds visited current = some outcome) : outcome = some result := by
  induction rounds generalizing visited current with
  | zero => cases h
  | succ rounds ih =>
      have hahead : Reaches next current last := hcurrent.before_left hlast hleft
      rw [walk] at h
      split at h
      · rename_i hseen
        obtain ⟨earlier, following, hmark, hearlier, hnext, hback⟩ := hvisited _ hseen
        obtain rfl := hinjective hearlier hcurrent hmark
        exact absurd hback (hahead.not_back hleft hnext)
      cases hnext : next current with
      | inl other =>
          simp only [hnext] at h
          obtain rfl := hahead.eq_of_left hnext
          rw [← Option.some.inj h, Sum.inl.inj (hnext.symm.trans hleft)]
      | inr following =>
          simp only [hnext] at h
          refine ih (hcurrent.tail hnext) ?_ h
          intro seen hseen
          cases List.mem_cons.mp hseen with
          | inl heq => exact ⟨current, following, heq.symm, hcurrent, hnext, .refl⟩
          | inr hold =>
              obtain ⟨earlier, behind, hmark, hearlier, hstep, hreaches⟩ := hvisited seen hold
              exact ⟨earlier, behind, hmark, hearlier, hstep, hreaches.tail hnext⟩

/-- A walk between states with different marks leaves exactly from the states that are left. -/
theorem walk_eq_some_iff
    (hinjective : ∀ {a b}, Reaches next start a → Reaches next start b → mark a = mark b → a = b)
    (hover : ∃ outcome, walk mark next rounds [] start = some outcome) :
    walk mark next rounds [] start = some (some result) ↔
      ∃ last, Reaches next start last ∧ next last = .inl result := by
  refine ⟨reaches_of_walk, ?_⟩
  rintro ⟨last, hlast, hleft⟩
  obtain ⟨outcome, houtcome⟩ := hover
  rw [houtcome, walk_of_reaches hinjective hlast hleft .refl (fun seen hseen => by cases hseen)
    houtcome]

end MarkedWalk
