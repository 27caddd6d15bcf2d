import Mathlib

/-!
# Computations that ask an oracle

`Logged Q α` is the result of a computation together with the queries it made, in
order. Two computations that ask the same function and make no collision agree on
the queries whenever they agree on the answers.
-/
namespace Eggplant.Lib.Oracle

set_option autoImplicit false

structure Logged (Q α : Type) where
  queries : List Q
  value : α

namespace Logged
variable {Q R α β : Type}

instance : Monad (Logged Q) where
  pure a := ⟨[], a⟩
  bind x f := ⟨x.queries ++ (f x.value).queries, (f x.value).value⟩

@[simp] theorem pure_queries (a : α) : (pure a : Logged Q α).queries = [] := rfl

@[simp] theorem pure_value (a : α) : (pure a : Logged Q α).value = a := rfl

@[simp] theorem bind_queries (x : Logged Q α) (f : α → Logged Q β) :
    (x >>= f).queries = x.queries ++ (f x.value).queries := rfl

@[simp] theorem bind_value (x : Logged Q α) (f : α → Logged Q β) :
    (x >>= f).value = (f x.value).value := rfl

/-- One query, answered by `h`. -/
def ask (h : Q → R) (q : Q) : Logged Q R := ⟨[q], h q⟩

@[simp] theorem ask_queries (h : Q → R) (q : Q) : (ask h q).queries = [q] := rfl

@[simp] theorem ask_value (h : Q → R) (q : Q) : (ask h q).value = h q := rfl

theorem foldlM_value (f : β → α → Logged Q β) (xs : List α) (b : β) :
    (xs.foldlM f b).value = xs.foldl (fun b a => (f b a).value) b := by
  induction xs generalizing b with
  | nil => rfl
  | cons x xs ih => rw [List.foldlM_cons, bind_value, ih, List.foldl_cons]

/-- When the queries of a step do not depend on the accumulator, a loop makes the
queries of each step in turn. -/
theorem foldlM_queries (f : β → α → Logged Q β) (g : α → List Q)
    (hf : ∀ b a, (f b a).queries = g a) (xs : List α) (b : β) :
    (xs.foldlM f b).queries = xs.flatMap g := by
  induction xs generalizing b with
  | nil => rfl
  | cons x xs ih => rw [List.foldlM_cons, bind_queries, ih, hf, List.flatMap_cons]

end Logged

section Collisions
variable {Q R : Type}

/-- A query of one run and a different query of the other with the same answer. -/
def Collision (h : Q → R) (qs qs' : List Q) : Prop :=
  ∃ q ∈ qs, ∃ q' ∈ qs', q ≠ q' ∧ h q = h q'

theorem eq_of_no_collision {h : Q → R} {qs qs' : List Q} (hno : ¬Collision h qs qs') {q q' : Q}
    (hq : q ∈ qs) (hq' : q' ∈ qs') (heq : h q = h q') : q = q' := by
  by_contra hne
  exact hno ⟨q, hq, q', hq', hne, heq⟩

/-- Two computations that are parts of larger ones collide only when these do. -/
theorem Collision.mono {h : Q → R} {qs qs' rs rs' : List Q} (hcol : Collision h qs qs')
    (hqs : qs ⊆ rs) (hqs' : qs' ⊆ rs') : Collision h rs rs' := by
  obtain ⟨q, hq, q', hq', hne, heq⟩ := hcol
  exact ⟨q, hqs hq, q', hqs' hq', hne, heq⟩

end Collisions

end Eggplant.Lib.Oracle
