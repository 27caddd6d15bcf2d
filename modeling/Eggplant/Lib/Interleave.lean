import Eggplant.Lib.Table
import Mathlib

/-!
# Interleaved copies of one log

Several connections deliver copies of a log. A delivery names its connection; an
interleaving keeps the order within each connection and nothing else. Whatever is
decided by the last entry that mentions a key does not depend on the interleaving.
-/
namespace Eggplant.Lib.Interleave

set_option autoImplicit false

variable {C α : Type} [DecidableEq C]

/-- What connection `c` delivered, in order. -/
def part (D : List (C × α)) (c : C) : List α := (D.filter (fun d => d.1 = c)).map Prod.snd

/-- Each connection delivers its copy, complete and in order. -/
def Interleaves (copy : C → List α) (D : List (C × α)) : Prop := ∀ c, part D c = copy c

instance [Fintype C] [DecidableEq α] (copy : C → List α) (D : List (C × α)) :
    Decidable (Interleaves copy D) :=
  inferInstanceAs (Decidable (∀ c, part D c = copy c))

@[simp] theorem part_nil (c : C) : part ([] : List (C × α)) c = [] := rfl

theorem part_append (D D' : List (C × α)) (c : C) : part (D ++ D') c = part D c ++ part D' c := by
  rw [part, List.filter_append, List.map_append]
  rfl

theorem part_cons_self (c : C) (a : α) (D : List (C × α)) :
    part ((c, a) :: D) c = a :: part D c := by
  simp [part]

theorem part_cons_ne {c c' : C} (h : c' ≠ c) (a : α) (D : List (C × α)) :
    part ((c', a) :: D) c = part D c := by
  simp [part, h]

theorem mem_part {D : List (C × α)} {c : C} {a : α} : a ∈ part D c ↔ (c, a) ∈ D := by
  rw [part, List.mem_map]
  constructor
  · intro h
    obtain ⟨d, hd, rfl⟩ := h
    obtain ⟨hmem, hc⟩ := List.mem_filter.mp hd
    rw [← of_decide_eq_true hc]
    exact hmem
  · exact fun h => ⟨(c, a), List.mem_filter.mpr ⟨h, decide_eq_true rfl⟩, rfl⟩

/-- A delivery splits its connection's copy where it stands. -/
theorem part_split (before : List (C × α)) (c : C) (a : α) (after : List (C × α)) :
    part (before ++ (c, a) :: after) c = part before c ++ a :: part after c := by
  rw [part_append, part_cons_self]

/-- The last entry of an interleaving that has a key is the last one of the log. -/
theorem merge_interleaved {K V : Type} [Nonempty C] {log : List α} {D : List (C × α)}
    (h : Interleaves (fun _ => log) D) (f : α → Table K V) :
    Table.merge (D.map fun d => f d.2) = Table.merge (log.map f) := by
  funext k
  cases hD : Table.merge (D.map fun d => f d.2) k with
  | none =>
    -- nothing in `D` has the key, and every entry of the log was delivered
    obtain ⟨c⟩ := ‹Nonempty C›
    rw [eq_comm, Table.merge_eq_none]
    intro t ht
    obtain ⟨a, ha, rfl⟩ := List.mem_map.mp ht
    have hmem : a ∈ part D c := by rw [h c]; exact ha
    exact Table.merge_eq_none.mp hD _ (List.mem_map.mpr ⟨(c, a), mem_part.mp hmem, rfl⟩)
  | some v =>
    obtain ⟨before, t, after, hsplit, hv, hafter⟩ := Table.merge_eq_some.mp hD
    obtain ⟨D₁, D₂, rfl, rfl, hrest⟩ := List.map_eq_append_iff.mp hsplit
    obtain ⟨d, D₃, rfl, rfl, rfl⟩ := List.map_eq_cons_iff.mp hrest
    obtain ⟨c, a⟩ := d
    have hlog : log = part D₁ c ++ a :: part D₃ c := by rw [← part_split, h c]
    rw [eq_comm, hlog, List.map_append, List.map_cons, Table.merge_eq_some]
    refine ⟨_, _, _, rfl, hv, fun u hu => ?_⟩
    obtain ⟨b, hb, rfl⟩ := List.mem_map.mp hu
    exact hafter _ (List.mem_map.mpr ⟨(c, b), mem_part.mp hb, rfl⟩)

/-! ## Progress -/

section Progress
variable [Fintype C]

/-- The length of the longest prefix a connection has delivered. -/
def frontier (D : List (C × α)) : Nat := Finset.univ.sup fun c => (part D c).length

theorem part_le_frontier (D : List (C × α)) (c : C) : (part D c).length ≤ frontier D :=
  Finset.le_sup (f := fun c => (part D c).length) (Finset.mem_univ c)

theorem lt_frontier {D : List (C × α)} {n : Nat} :
    n < frontier D ↔ ∃ c, n < (part D c).length := by
  rw [frontier, Finset.lt_sup_iff]
  simp

theorem frontier_nil : frontier ([] : List (C × α)) = 0 :=
  Nat.le_zero.mp (Finset.sup_le fun _ _ => le_rfl)

/-- One more delivery moves the frontier exactly when its connection stood there. -/
theorem frontier_concat (D : List (C × α)) (c : C) (a : α) :
    frontier (D ++ [(c, a)]) = max (frontier D) ((part D c).length + 1) := by
  have hself : (part (D ++ [(c, a)]) c).length = (part D c).length + 1 := by
    rw [part_append, part_cons_self, part_nil, List.length_append, List.length_singleton]
  have hother : ∀ c', c' ≠ c → part (D ++ [(c, a)]) c' = part D c' := by
    intro c' hne
    rw [part_append, part_cons_ne (Ne.symm hne), part_nil, List.append_nil]
  apply le_antisymm
  · apply Finset.sup_le
    intro c' _
    by_cases hc : c' = c
    · rw [hc, hself]
      exact le_max_right _ _
    · rw [hother c' hc]
      exact le_trans (part_le_frontier D c') (le_max_left _ _)
  · apply max_le
    · apply Finset.sup_le
      intro c' _
      have hle := part_le_frontier (D ++ [(c, a)]) c'
      by_cases hc : c' = c
      · rw [hc, hself] at hle
        rw [hc]
        omega
      · rwa [hother c' hc] at hle
    · have hle := part_le_frontier (D ++ [(c, a)]) c
      rwa [hself] at hle

end Progress

end Eggplant.Lib.Interleave
