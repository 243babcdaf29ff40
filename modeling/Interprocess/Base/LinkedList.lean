import Mathlib.Data.List.Nodup

namespace LinkedList

variable {α : Type} {next next' : α → α}

/-- Following `next` from `a` visits `xs` in turn and then comes to `t`. -/
def Path (next : α → α) : α → List α → α → Prop
  | a, [], t => next a = t
  | a, x :: xs, t => next a = x ∧ Path next x xs t

@[simp] theorem path_nil {a t : α} : Path next a [] t ↔ next a = t :=
  Iff.rfl

@[simp] theorem path_cons {a x t : α} {xs : List α} :
    Path next a (x :: xs) t ↔ next a = x ∧ Path next x xs t :=
  Iff.rfl

theorem Path.next_eq {a t : α} {xs : List α} (h : Path next a xs t) : next a = xs.headD t := by
  cases xs with
  | nil => exact h
  | cons x xs => exact h.1

theorem getLastD_append (a : α) (xs ys : List α) :
    (xs ++ ys).getLastD a = ys.getLastD (xs.getLastD a) := by
  induction xs generalizing a with
  | nil => rfl
  | cons x xs ih => rw [List.cons_append, List.getLastD_cons, List.getLastD_cons, ih]

theorem getLastD_mem (a : α) (xs : List α) : xs.getLastD a ∈ a :: xs := by
  induction xs generalizing a with
  | nil => exact List.mem_cons_self
  | cons x xs ih =>
    rw [List.getLastD_cons]
    exact List.mem_cons_of_mem a (ih x)

/-- A path through `ys` goes on from its first node. -/
theorem path_append {a t : α} {xs ys : List α} :
    Path next a (xs ++ ys) t ↔
      Path next a xs (ys.headD t) ∧ ∀ y ys', ys = y :: ys' → Path next y ys' t := by
  induction xs generalizing a with
  | nil =>
    cases ys with
    | nil => simp
    | cons y ys => simp
  | cons x xs ih => simp only [List.cons_append, path_cons, ih, and_assoc]

theorem Path.last_eq {a t : α} {xs : List α} (h : Path next a xs t) : next (xs.getLastD a) = t := by
  induction xs generalizing a with
  | nil => exact h
  | cons x xs ih =>
    rw [List.getLastD_cons]
    exact ih h.2

/-- A path depends on the links of its nodes only. -/
theorem Path.congr {a t : α} {xs : List α} (h : Path next a xs t)
    (hsame : ∀ y ∈ a :: xs, next' y = next y) : Path next' a xs t := by
  induction xs generalizing a with
  | nil =>
    rw [path_nil, hsame a List.mem_cons_self]
    exact h
  | cons x xs ih =>
    refine ⟨?_, ih h.2 fun y hy => hsame y (List.mem_cons_of_mem a hy)⟩
    rw [hsame a List.mem_cons_self]
    exact h.1

/-- A new link of the last node leads the path elsewhere. -/
theorem Path.retarget {a t t' : α} {xs : List α} (h : Path next a xs t) (hnodup : (a :: xs).Nodup)
    (hlast : next' (xs.getLastD a) = t')
    (hsame : ∀ y ∈ a :: xs, y ≠ xs.getLastD a → next' y = next y) : Path next' a xs t' := by
  induction xs generalizing a with
  | nil => exact hlast
  | cons x xs ih =>
    rw [List.getLastD_cons] at hlast hsame
    have hfresh := (List.nodup_cons.mp hnodup).1
    have hne : a ≠ xs.getLastD x := by
      intro heq
      exact hfresh (heq ▸ getLastD_mem x xs)
    refine ⟨?_, ih h.2 (List.nodup_cons.mp hnodup).2 hlast
      fun y hy => hsame y (List.mem_cons_of_mem a hy)⟩
    rw [hsame a List.mem_cons_self hne]
    exact h.1

end LinkedList
