import Mathlib.Data.List.Basic

/-!
# Cutting an interval into pieces

A cutting of an interval is listed by the ends of its pieces. When every part of an
admissible piece is admissible, a cutting whose pieces cannot be lengthened has the
fewest pieces.
-/
namespace Eggplant.Lib

set_option autoImplicit false

/-- Pieces that follow one another from the first point to the second. -/
inductive Cuts (adm : Nat → Nat → Prop) : Nat → Nat → List Nat → Prop where
  | nil (a : Nat) : Cuts adm a a []
  | cons {a b c : Nat} {ends : List Nat} (hlt : a < b) (hadm : adm a b)
      (tail : Cuts adm b c ends) : Cuts adm a c (b :: ends)

/-- A cutting none of whose pieces but the last can be lengthened. -/
inductive Greedy (adm : Nat → Nat → Prop) : Nat → Nat → List Nat → Prop where
  | nil (a : Nat) : Greedy adm a a []
  | cons {a b c : Nat} {ends : List Nat} (hlt : a < b) (hadm : adm a b)
      (hmax : b < c → ¬adm a (b + 1)) (tail : Greedy adm b c ends) : Greedy adm a c (b :: ends)

/-- Every part of an admissible piece is admissible. -/
def Hereditary (adm : Nat → Nat → Prop) : Prop :=
  ∀ ⦃a a' b' b : Nat⦄, a ≤ a' → a' < b' → b' ≤ b → adm a b → adm a' b'

variable {adm : Nat → Nat → Prop} {a c : Nat} {ends : List Nat}

theorem Cuts.le (h : Cuts adm a c ends) : a ≤ c := by
  induction h with
  | nil => exact Nat.le_refl _
  | cons hlt _ _ ih => exact Nat.le_trans (Nat.le_of_lt hlt) ih

theorem Greedy.cuts (h : Greedy adm a c ends) : Cuts adm a c ends := by
  induction h with
  | nil a => exact .nil a
  | cons hlt hadm _ _ ih => exact .cons hlt hadm ih

/-- The greedy cutting stays ahead of one that starts no later, and so has no more pieces. -/
theorem Greedy.length_le (hsub : Hereditary adm) (h : Greedy adm a c ends) {p : Nat}
    {cuts : List Nat} (h' : Cuts adm p c cuts) (hp : p ≤ a) : ends.length ≤ cuts.length := by
  induction h generalizing p cuts with
  | nil => exact Nat.zero_le _
  | @cons a b c ends hlt _ hmax tail ih =>
    have hbc : b ≤ c := tail.cuts.le
    cases h' with
    | nil => omega
    | @cons _ q _ cuts hpq hadm rest =>
      have hq : q ≤ b := by
        by_contra hlate
        -- the competitor's piece would contain the greedy one lengthened by one
        have hqc : q ≤ c := rest.le
        exact hmax (by omega) (hsub hp (by omega) (by omega) hadm)
      have hrest := ih rest hq
      simp only [List.length_cons]
      omega

end Eggplant.Lib
