/-
# Loops that add up and may return early

A loop `for x in xs` whose body either adds an amount to an accumulator or
returns an error is a `foldlM` in `Except`.  When the amount does not depend on
the accumulator, the loop is a sum with an early return (`foldlM_add`): it is
`total`, which is an error exactly when some element is
(`total_isError_iff`), and which otherwise is the sum of the elements'
amounts (`total_eq_ok_iff`).  A loop around such a loop is of the same kind, and
together they are one sum (`total_flatMap`).  Where addition is commutative and
the elements have one error between them, the order does not matter (`total_perm`).
-/

import Mathlib.Algebra.BigOperators.Group.List.Basic

namespace Accumulate

variable {α ε M : Type*} [AddMonoid M]

/-- The sum of `f x` over `xs`, or the first error met. -/
def total (f : α → Except ε M) : List α → Except ε M
  | [] => .ok 0
  | x :: xs =>
      match f x with
      | .error e => .error e
      | .ok m =>
          match total f xs with
          | .error e => .error e
          | .ok n => .ok (m + n)

/-- The total of nothing is zero. -/
@[simp]
theorem total_nil (f : α → Except ε M) : total f [] = .ok 0 := rfl

/-- **An accumulating loop is a sum.**  The body `g` adds `f x`, or returns the
error `f x`; the loop started from `acc` adds `total f xs`. -/
theorem foldlM_add {f : α → Except ε M} {g : M → α → Except ε M}
    (hg : ∀ acc x, g acc x = (f x).map (acc + ·)) (xs : List α) (acc : M) :
    xs.foldlM g acc = (total f xs).map (acc + ·) := by
  induction xs generalizing acc with
  | nil => simp [Except.map, pure, Except.pure]
  | cons x xs ih =>
      rw [List.foldlM_cons, hg, total]
      cases hx : f x with
      | error e => rfl
      | ok m =>
          simp only [Except.map, bind, Except.bind]
          rw [ih]
          cases total f xs with
          | error e => rfl
          | ok n => simp [Except.map, add_assoc]

/-- The total of two lists is that of the first, and with it that of the second: the first error
of the two is the error. -/
theorem total_append (f : α → Except ε M) (xs ys : List α) :
    total f (xs ++ ys) = (total f xs).bind fun m => (total f ys).map (m + ·) := by
  induction xs with
  | nil => cases h : total f ys <;> simp [h, Except.bind, Except.map]
  | cons x xs ih =>
      rw [List.cons_append, total, total, ih]
      cases f x with
      | error e => rfl
      | ok m =>
          cases total f xs with
          | error e => rfl
          | ok n => cases total f ys <;> simp [Except.bind, Except.map, add_assoc]

/-- **A sum of sums is one sum**, with the same first error: this is what turns nested loops into
one. -/
theorem total_flatMap {β : Type*} (f : α → Except ε M) (g : β → List α) (ys : List β) :
    total f (ys.flatMap g) = total (fun y => total f (g y)) ys := by
  induction ys with
  | nil => rfl
  | cons y ys ih =>
      rw [List.flatMap_cons, total_append, ih, total]
      cases total f (g y) with
      | error e => rfl
      | ok m => cases total (fun y => total f (g y)) ys <;> rfl

/-- The sum succeeds exactly when every element does, and then it is the sum of
their amounts. -/
theorem total_eq_ok_iff {f : α → Except ε M} {xs : List α} {s : M} :
    total f xs = .ok s ↔ ∃ ms : List M, xs.map f = ms.map Except.ok ∧ ms.sum = s := by
  induction xs generalizing s with
  | nil =>
      constructor
      · rintro ⟨⟩
        exact ⟨[], rfl, rfl⟩
      · rintro ⟨ms, hms, rfl⟩
        obtain rfl : ms = [] := by simpa using hms.symm
        rfl
  | cons x xs ih =>
      constructor
      · intro h
        rw [total] at h
        split at h
        · cases h
        · rename_i m hm
          split at h
          · cases h
          · rename_i n hn
            obtain ⟨ms, hms, hsum⟩ := ih.1 hn
            obtain rfl := Except.ok.inj h
            exact ⟨m :: ms, by simp [hm, hms], by simp [hsum]⟩
      · rintro ⟨ms, hms, rfl⟩
        cases ms with
        | nil => simp at hms
        | cons m ms =>
            simp only [List.map_cons, List.cons.injEq] at hms
            simp only [total, hms.1, ih.2 ⟨ms, hms.2, rfl⟩, List.sum_cons]

/-- Where every element succeeds with a known amount, so does the sum, with the sum of the
amounts. -/
theorem total_eq_ok {f : α → Except ε M} {v : α → M} {xs : List α}
    (h : ∀ x ∈ xs, f x = .ok (v x)) : total f xs = .ok (xs.map v).sum :=
  total_eq_ok_iff.2 ⟨xs.map v, by simpa using h, rfl⟩

/-- The sum fails exactly when some element does: what came before it does not matter, nor what
comes after. -/
theorem total_isError_iff {f : α → Except ε M} {xs : List α} :
    (∃ e, total f xs = .error e) ↔ ∃ x ∈ xs, ∃ e, f x = .error e := by
  induction xs with
  | nil => simp
  | cons x xs ih =>
      simp only [List.mem_cons, exists_eq_or_imp, ← ih, total]
      cases f x with
      | error e => simp
      | ok m => cases total f xs <;> simp

/-- The error of a sum is that of an element, and not one of its own. -/
theorem exists_of_total_eq_error {f : α → Except ε M} {xs : List α} {e : ε}
    (h : total f xs = .error e) : ∃ x ∈ xs, f x = .error e := by
  induction xs with
  | nil => cases h
  | cons x xs ih =>
      rw [total] at h
      cases hx : f x with
      | error e' =>
          rw [hx] at h
          exact ⟨x, List.mem_cons_self .., hx.trans h⟩
      | ok m =>
          cases hs : total f xs with
          | ok n =>
              rw [hx, hs] at h
              cases h
          | error e' =>
              rw [hx, hs] at h
              obtain ⟨y, hy, he⟩ := ih (hs.trans h)
              exact ⟨y, List.mem_cons_of_mem _ hy, he⟩

/-- The total of two lists is an error exactly where that of one of them is. -/
theorem total_append_isError_iff {f : α → Except ε M} {xs ys : List α} :
    (∃ e, total f (xs ++ ys) = .error e) ↔
      (∃ e, total f xs = .error e) ∨ ∃ e, total f ys = .error e := by
  simp only [total_isError_iff, List.mem_append, or_and_right, exists_or]

/-- Where both lists have a total, the list of both has their sum. -/
theorem total_append_eq_ok {f : α → Except ε M} {xs ys : List α} {m n : M}
    (hx : total f xs = .ok m) (hy : total f ys = .ok n) : total f (xs ++ ys) = .ok (m + n) := by
  rw [total_append, hx, hy]
  rfl

/-- An element that adds nothing may be left out. -/
theorem total_cons_of_zero {f : α → Except ε M} {x : α} {xs : List α} (h : f x = .ok 0) :
    total f (x :: xs) = total f xs := by
  rw [total, h]
  cases total f xs <;> simp

/-- An error at the head is the error of the total, whatever follows. -/
theorem total_cons_of_error {f : α → Except ε M} {x : α} {xs : List α} {e : ε}
    (h : f x = .error e) : total f (x :: xs) = .error e := by
  rw [total, h]

/-- **The order does not matter,** where all errors are the same and the amounts commute: by
induction on the permutation. -/
theorem total_perm {N : Type*} [AddCommMonoid N] {f : α → Except ε N} {e : ε}
    (he : ∀ x e', f x = .error e' → e' = e) {xs ys : List α} (h : xs.Perm ys) :
    total f xs = total f ys := by
  induction h with
  | nil => rfl
  | cons x _ ih => rw [total, total, ih]
  | swap x y zs =>
      simp only [total]
      cases hx : f x with
      | error e₁ =>
          cases hy : f y with
          | error e₂ => rw [he x e₁ hx, he y e₂ hy]
          | ok n => rfl
      | ok m =>
          cases f y with
          | error e₂ => rfl
          | ok n => cases total f zs <;> simp [add_left_comm]
  | trans _ _ ih ih' => exact ih.trans ih'

end Accumulate
