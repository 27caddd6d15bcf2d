import Mathlib

/-!
# Counting over rounds

A run of rounds, each trying some things and finishing some of those. What one round
finishes no later round tries. The unfinished of every round, added up, are the things
never finished exactly when no later round tries what an earlier one left unfinished.
-/
namespace Eggplant.Lib.Rounds

set_option autoImplicit false

variable {ι α : Type*} [DecidableEq α]

/-- Everything the rounds name. -/
def all (name : ι → Finset α) (rounds : List ι) : Finset α :=
  rounds.foldr (fun r rest => name r ∪ rest) ∅

theorem all_cons (name : ι → Finset α) (r : ι) (rounds : List ι) :
    all name (r :: rounds) = name r ∪ all name rounds := rfl

theorem disjoint_all {s : Finset α} {name : ι → Finset α} {rounds : List ι} :
    Disjoint s (all name rounds) ↔ ∀ r ∈ rounds, Disjoint s (name r) := by
  induction rounds with
  | nil => exact iff_of_true (Finset.disjoint_empty_right s) nofun
  | cons r rounds ih =>
    rw [List.forall_mem_cons, ← ih]
    exact Finset.disjoint_union_right

theorem all_mono {name name' : ι → Finset α} (h : ∀ r, name r ⊆ name' r) (rounds : List ι) :
    all name rounds ⊆ all name' rounds := by
  induction rounds with
  | nil => exact Finset.Subset.refl _
  | cons r rounds ih => exact Finset.union_subset_union (h r) ih

/-- Rounds that name different things name as many as they count. -/
theorem card_all {name : ι → Finset α} {rounds : List ι}
    (h : rounds.Pairwise fun r r' => Disjoint (name r) (name r')) :
    (all name rounds).card = (rounds.map fun r => (name r).card).sum := by
  induction rounds with
  | nil => rfl
  | cons r rounds ih =>
    obtain ⟨hhead, htail⟩ := List.pairwise_cons.mp h
    rw [List.map_cons, List.sum_cons, ← ih htail]
    exact Finset.card_union_of_disjoint (disjoint_all.mpr hhead)

variable {tried done : ι → Finset α} {rounds : List ι}

/-- What a first round leaves unfinished is new unless a later round tries it. -/
theorem card_unfinished_cons {r : ι} (hsub : ∀ r, done r ⊆ tried r)
    (hdone : ∀ r' ∈ rounds, Disjoint (done r) (tried r')) :
    (all tried (r :: rounds) \ all done (r :: rounds)).card =
      ((tried r \ done r) \ all tried rounds).card +
        (all tried rounds \ all done rounds).card := by
  have hfinished := disjoint_all.mpr hdone
  have hlater := all_mono hsub rounds
  have hsplit : all tried (r :: rounds) \ all done (r :: rounds) =
      ((tried r \ done r) \ all tried rounds) ∪ (all tried rounds \ all done rounds) := by
    ext x
    have hfirst : x ∈ done r → x ∉ all tried rounds := fun hx => Finset.disjoint_left.mp hfinished hx
    have hrest : x ∈ all done rounds → x ∈ all tried rounds := fun hx => hlater hx
    show x ∈ (tried r ∪ all tried rounds) \ (done r ∪ all done rounds) ↔ _
    simp only [Finset.mem_sdiff, Finset.mem_union]
    tauto
  rw [hsplit]
  refine Finset.card_union_of_disjoint (Finset.disjoint_left.mpr fun x hx hx' => ?_)
  exact (Finset.mem_sdiff.mp hx).2 (Finset.mem_sdiff.mp hx').1

/-- The unfinished counted round by round are at least those never finished, and as many
exactly when none is tried again. -/
theorem sum_unfinished (hsub : ∀ r, done r ⊆ tried r)
    (hdone : rounds.Pairwise fun r r' => Disjoint (done r) (tried r')) :
    (all tried rounds \ all done rounds).card ≤
        (rounds.map fun r => (tried r \ done r).card).sum ∧
      ((rounds.map fun r => (tried r \ done r).card).sum =
          (all tried rounds \ all done rounds).card ↔
        rounds.Pairwise fun r r' => Disjoint (tried r \ done r) (tried r')) := by
  induction rounds with
  | nil => exact ⟨Nat.le_refl _, fun _ => .nil, fun _ => rfl⟩
  | cons r rounds ih =>
    obtain ⟨hhead, htail⟩ := List.pairwise_cons.mp hdone
    obtain ⟨hle, hiff⟩ := ih htail
    have hcut := Finset.card_sdiff_add_card_inter (tried r \ done r) (all tried rounds)
    rw [card_unfinished_cons hsub hhead, List.map_cons, List.sum_cons, List.pairwise_cons, ← hiff,
      ← disjoint_all, Finset.disjoint_iff_inter_eq_empty, ← Finset.card_eq_zero]
    omega

end Eggplant.Lib.Rounds
