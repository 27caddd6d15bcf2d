import Mathlib.Data.Set.Finite.Basic
import Mathlib.Data.Fintype.EquivFin
import Mathlib.Logic.Function.Iterate

/-!
# Following a pointer

A walk applies one function over and over and stops at the first point where a test
holds. The test sees one point at a time, so on a cycle of several points it holds
at one of them or the walk never ends.
-/
namespace Eggplant.Lib.Orbits

set_option autoImplicit false

variable {α : Type} (f : α → α)

/-- The point after the `k`-th is one already visited. -/
def Returns (a : α) (k : Nat) : Prop := ∃ j ≤ k, f^[k + 1] a = f^[j] a

variable {f}

/-- From a return on, only visited points are seen. -/
theorem Returns.visited {a : α} {k : Nat} (h : Returns f a k) (n : Nat) :
    ∃ i ≤ k, f^[n] a = f^[i] a := by
  induction n with
  | zero => exact ⟨0, Nat.zero_le k, rfl⟩
  | succ n ih =>
    obtain ⟨i, hi, heq⟩ := ih
    have hnext : f^[n + 1] a = f^[i + 1] a := by
      rw [Function.iterate_succ_apply', heq, Function.iterate_succ_apply']
    rcases Nat.lt_or_eq_of_le hi with hlt | rfl
    · exact ⟨i + 1, hlt, hnext⟩
    · obtain ⟨j, hj, hback⟩ := h
      exact ⟨j, hj, hnext.trans hback⟩

theorem exists_returns {a : α} (hfinite : (Set.range fun n => f^[n] a).Finite) :
    ∃ k, Returns f a k := by
  have hnot : ¬Function.Injective fun n => f^[n] a := by
    intro hinj
    exact Set.infinite_range_of_injective hinj hfinite
  simp only [Function.Injective, not_forall] at hnot
  obtain ⟨i, j, heq, hne⟩ := hnot
  -- the later of the two points is a return to the earlier one
  rcases Nat.lt_or_gt_of_ne hne with hij | hji
  · refine ⟨j - 1, i, by omega, ?_⟩
    rw [Nat.sub_add_cancel (by omega)]
    exact heq.symm
  · refine ⟨i - 1, j, by omega, ?_⟩
    rw [Nat.sub_add_cancel (by omega)]
    exact heq

/-- Points before the first return are different. -/
theorem ne_of_not_returns {a : α} {n : Nat} (h : ∀ k < n, ¬Returns f a k) {i j : Nat}
    (hij : i < j) (hj : j ≤ n) : f^[i] a ≠ f^[j] a := by
  intro heq
  apply h (j - 1) (by omega)
  refine ⟨i, by omega, ?_⟩
  rw [Nat.sub_add_cancel (by omega)]
  exact heq.symm

/-! ## Walks -/

section
variable (f) (stop : α → Prop) [DecidablePred stop]

/-- The points up to the first one at which `stop` holds; `none` when `fuel` points do not
reach it. -/
def walk : Nat → α → Option (List α)
  | 0, _ => none
  | fuel + 1, a => if stop a then some [a] else (walk fuel (f a)).map (a :: ·)

/-- The first `n + 1` points. -/
def firstPoints (a : α) (n : Nat) : List α := (List.range (n + 1)).map fun k => f^[k] a

theorem firstPoints_succ (a : α) (n : Nat) :
    firstPoints f a (n + 1) = a :: firstPoints f (f a) n := by
  rw [firstPoints, List.range_succ_eq_map, List.map_cons, List.map_map]
  rfl

variable {f stop}

/-- A walk that ends has stopped at the first possible point. -/
theorem walk_eq_some_iff {fuel : Nat} {a : α} {points : List α} :
    walk f stop fuel a = some points ↔
      ∃ n < fuel, stop (f^[n] a) ∧ (∀ k < n, ¬stop (f^[k] a)) ∧ points = firstPoints f a n := by
  induction fuel generalizing a points with
  | zero =>
    constructor
    · intro h
      cases h
    · intro h
      obtain ⟨n, hn, -⟩ := h
      omega
  | succ fuel ih =>
    rw [walk]
    by_cases hstop : stop a
    · rw [if_pos hstop, Option.some.injEq]
      constructor
      · intro h
        exact ⟨0, Nat.succ_pos fuel, hstop, nofun, h.symm⟩
      · intro h
        obtain ⟨n, -, -, hfirst, rfl⟩ := h
        cases n with
        | zero => rfl
        | succ n => exact absurd hstop (hfirst 0 (Nat.succ_pos n))
    · rw [if_neg hstop, Option.map_eq_some_iff]
      constructor
      · intro h
        obtain ⟨rest, hrest, rfl⟩ := h
        obtain ⟨n, hn, hend, hfirst, rfl⟩ := ih.mp hrest
        refine ⟨n + 1, by omega, hend, ?_, (firstPoints_succ f a n).symm⟩
        intro k hk
        cases k with
        | zero => exact hstop
        | succ k => exact hfirst k (by omega)
      · intro h
        obtain ⟨n, hn, hend, hfirst, rfl⟩ := h
        cases n with
        | zero => exact absurd hend hstop
        | succ n =>
          exact ⟨_, ih.mpr ⟨n, by omega, hend, fun k hk => hfirst (k + 1) (by omega), rfl⟩,
            (firstPoints_succ f a n).symm⟩

end

/-! ## Walks that only notice a point leading to itself -/

section
variable (f) (halt : α → Prop)

/-- The walk is over: a halting point, or one that leads back to a visited point. -/
def Over (a : α) (k : Nat) : Prop := halt (f^[k] a) ∨ Returns f a k

/-- What a test of one point can see: a halting point, or one that leads to itself. -/
def Seen (a : α) : Prop := halt a ∨ f a = a

/-- Every return is preceded by, or is, a point the test sees. -/
def ReturnsSeen (a : α) : Prop :=
  ∀ k, Returns f a k → ∃ i ≤ k, Seen f halt (f^[i] a)

variable {f halt}

theorem Seen.over {a : α} {k : Nat} (h : Seen f halt (f^[k] a)) : Over f halt a k := by
  rcases h with hhalt | hfix
  · exact .inl hhalt
  · exact .inr ⟨k, Nat.le_refl k, (Function.iterate_succ_apply' f k a).trans hfix⟩

/-- The first end of the walk is seen exactly when every return is. -/
theorem seen_first_iff {a : α} {n : Nat} (hover : Over f halt a n)
    (hfirst : ∀ k < n, ¬Over f halt a k) :
    Seen f halt (f^[n] a) ↔ ReturnsSeen f halt a := by
  constructor
  · intro hseen k hreturn
    have hle : n ≤ k := Nat.le_of_not_lt fun hlt => hfirst k hlt (.inr hreturn)
    exact ⟨n, hle, hseen⟩
  · intro h
    rcases hover with hhalt | hreturn
    · exact .inl hhalt
    · obtain ⟨i, hi, hseen⟩ := h n hreturn
      rcases Nat.lt_or_eq_of_le hi with hlt | rfl
      · exact absurd hseen.over (hfirst i hlt)
      · exact hseen

/-- A return that is not seen is never left. -/
theorem not_seen_of_not_returnsSeen {a : α} (h : ¬ReturnsSeen f halt a) (n : Nat) :
    ¬Seen f halt (f^[n] a) := by
  simp only [ReturnsSeen, not_forall, not_exists, not_and] at h
  obtain ⟨k, hreturn, hunseen⟩ := h
  obtain ⟨i, hi, heq⟩ := hreturn.visited n
  rw [heq]
  exact hunseen i hi

end

end Eggplant.Lib.Orbits
