import FeatureStore.Library.PrefixCode
import Mathlib.Logic.Function.Basic

/-!
# Stores in the directories of one tree

Objects are kept under keys, and the keys in a directory begin with its path. Where no path
begins another, what is done in one directory is not seen in the others: the tree behaves like
one store for each directory.
-/

namespace Directories

open PrefixCode

variable {π τ β : Type*} [DecidableEq τ] {path other : List τ} {objects : List τ → Option β}

/-- What is done in a directory; `clear` deletes it with all that is in it. -/
inductive DirectoryOp (τ β : Type*)
  | write (name : List τ) (content : β)
  | remove (name : List τ)
  | clear

namespace DirectoryOp

/-- The effect on a store of its own. -/
def apply (objects : List τ → Option β) : DirectoryOp τ β → List τ → Option β
  | write name content => Function.update objects name (some content)
  | remove name => Function.update objects name none
  | clear => fun _ => none

/-- The effect on the tree, in the directory of a path. -/
def applyIn (path : List τ) (objects : List τ → Option β) : DirectoryOp τ β → List τ → Option β
  | write name content => Function.update objects (path ++ name) (some content)
  | remove name => Function.update objects (path ++ name) none
  | clear => fun key => if path.isPrefixOf key then none else objects key

end DirectoryOp

/-- What is kept in a directory. -/
def under (path : List τ) (objects : List τ → Option β) : List τ → Option β :=
  fun name => objects (path ++ name)

/-- No key is in both directories. -/
def Apart (path other : List τ) : Prop := ∀ name name', path ++ name ≠ other ++ name'

/-- The tree after operations in directories. -/
def run (path : π → List τ) (objects : List τ → Option β) (ops : List (π × DirectoryOp τ β)) :
    List τ → Option β :=
  ops.foldl (fun objects op => op.2.applyIn (path op.1) objects) objects

theorem under_update_self (name : List τ) (content : Option β) :
    under path (Function.update objects (path ++ name) content) =
      Function.update (under path objects) name content := by
  funext key
  by_cases hkey : key = name
  · subst hkey
    rw [under, Function.update_self, Function.update_self]
  · have hne : path ++ key ≠ path ++ name := fun h => hkey (List.append_cancel_left h)
    rw [under, Function.update_of_ne hne, Function.update_of_ne hkey, under]

theorem under_update_other (h : Apart path other) (name : List τ) (content : Option β) :
    under other (Function.update objects (path ++ name) content) = under other objects := by
  funext key
  rw [under, Function.update_of_ne (h name key).symm, under]

/-- In its own directory an operation acts as on a store of its own. -/
theorem under_applyIn_self (op : DirectoryOp τ β) :
    under path (op.applyIn path objects) = op.apply (under path objects) := by
  cases op with
  | write name content => exact under_update_self name (some content)
  | remove name => exact under_update_self name none
  | clear =>
      funext key
      have hinside : path.isPrefixOf (path ++ key) = true :=
        List.isPrefixOf_iff_prefix.mpr (List.prefix_append path key)
      exact if_pos hinside

/-- In a directory apart from its own an operation is not seen. -/
theorem under_applyIn_other (h : Apart path other) (op : DirectoryOp τ β) :
    under other (op.applyIn path objects) = under other objects := by
  cases op with
  | write name content => exact under_update_other h name (some content)
  | remove name => exact under_update_other h name none
  | clear =>
      funext key
      have houtside : ¬path.isPrefixOf (other ++ key) = true := by
        rw [List.isPrefixOf_iff_prefix]
        rintro ⟨name, hname⟩
        exact h name key hname
      exact if_neg houtside

/-- The directories of a tree are separate stores. -/
theorem under_run [DecidableEq π] {path : π → List τ} (h : ∀ p q, p ≠ q → Apart (path p) (path q))
    (p : π) (ops : List (π × DirectoryOp τ β)) :
    under (path p) (run path objects ops) =
      ((ops.filter fun op => decide (op.1 = p)).map Prod.snd).foldl DirectoryOp.apply
        (under (path p) objects) := by
  induction ops generalizing objects with
  | nil => rfl
  | cons op rest ih =>
      rw [run, List.foldl_cons]
      refine ih.trans ?_
      by_cases hop : op.1 = p
      · rw [List.filter_cons, if_pos (decide_eq_true hop), List.map_cons, List.foldl_cons, hop,
          under_applyIn_self]
      · rw [List.filter_cons, if_neg (by simpa using hop), under_applyIn_other (h _ _ hop)]

section Segments

variable {stop : τ}

/-- The path of a directory: its segments, each with a separator behind it. -/
def pathOf (stop : τ) (segments : List (List τ)) : List τ := segments.flatMap (· ++ [stop])

/-- Of two directories with a key in common, one is the other or in it. -/
theorem prefix_of_pathOf {xs ys : List (List τ)} {name name' : List τ}
    (hxs : ∀ x ∈ xs, stop ∉ x) (hys : ∀ y ∈ ys, stop ∉ y) (hlength : xs.length ≤ ys.length)
    (h : pathOf stop xs ++ name = pathOf stop ys ++ name') : xs <+: ys := by
  induction xs generalizing ys with
  | nil => exact List.nil_prefix
  | cons x xs ih =>
      cases ys with
      | nil => cases hlength
      | cons y ys =>
          have htoken : ∀ word : List τ, stop ∉ word → ∀ c ∈ word, decide (c ≠ stop) = true := by
            intro word hword c hc
            exact decide_eq_true fun hstop => hword (hstop ▸ hc)
          have hends : ∀ rest, Ends (fun c => decide (c ≠ stop)) (stop :: rest) := fun rest => by
            rw [ends_cons, decide_eq_false_iff_not, not_not]
          simp only [pathOf, List.flatMap_cons, List.append_assoc, List.singleton_append] at h
          obtain ⟨rfl, hrest⟩ := token_append (htoken x (hxs x List.mem_cons_self))
            (htoken y (hys y List.mem_cons_self)) (hends _) (hends _) h
          have hlater := ih (fun x hx => hxs x (List.mem_cons_of_mem _ hx))
            (fun y hy => hys y (List.mem_cons_of_mem _ hy)) (Nat.le_of_succ_le_succ hlength)
            (List.cons.inj hrest).2
          exact (List.cons_prefix_cons).mpr ⟨rfl, hlater⟩

/-- Directories of which none is the other or in it are apart. -/
theorem apart_pathOf {xs ys : List (List τ)} (root : List τ) (hxs : ∀ x ∈ xs, stop ∉ x)
    (hys : ∀ y ∈ ys, stop ∉ y) (hxy : ¬xs <+: ys) (hyx : ¬ys <+: xs) :
    Apart (root ++ pathOf stop xs) (root ++ pathOf stop ys) := by
  intro name name' h
  rw [List.append_assoc, List.append_assoc, List.append_cancel_left_eq] at h
  rcases Nat.le_total xs.length ys.length with hlength | hlength
  · exact hxy (prefix_of_pathOf hxs hys hlength h)
  · exact hyx (prefix_of_pathOf hys hxs hlength h.symm)

end Segments

end Directories
