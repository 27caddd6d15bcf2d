import Mathlib.Data.List.Basic
import Mathlib.Data.List.Induction
import Mathlib.Data.List.Nodup

/-!
# Pages of a list and first occurrences

A page starts at an offset and holds up to a limit of rows; past the cap every offset
reads the same page. Laid end to end, pages of one size are a prefix of the list.
-/
namespace Eggplant.Lib.Pages

set_option autoImplicit false

variable {α β : Type}

def page (limit cap : Nat) (rows : List α) (offset : Nat) : List α :=
  (rows.drop (min offset cap)).take limit

theorem take_append_page (limit : Nat) {cap offset : Nat} (rows : List α) (h : offset ≤ cap) :
    rows.take offset ++ page limit cap rows offset = rows.take (offset + limit) := by
  rw [page, Nat.min_eq_left h, List.take_add]

theorem page_length (limit : Nat) {cap offset : Nat} (rows : List α) (h : offset ≤ cap) :
    (page limit cap rows offset).length = min limit (rows.length - offset) := by
  rw [page, Nat.min_eq_left h, List.length_take, List.length_drop]

/-! ## First occurrences -/

section
variable [DecidableEq β] (key : α → β)

/-- The first row of each key, in order. -/
def firsts : List α → List α
  | [] => []
  | x :: xs => x :: (firsts xs).filter (fun y => decide (key y ≠ key x))

variable {key}

theorem mem_keys_firsts {rows : List α} {k : β} :
    k ∈ (firsts key rows).map key ↔ k ∈ rows.map key := by
  induction rows with
  | nil => exact Iff.rfl
  | cons x xs ih =>
    rw [firsts, List.map_cons, List.map_cons, List.mem_cons, List.mem_cons, ← ih]
    by_cases hk : k = key x
    · simp [hk]
    · have hfilter : k ∈ ((firsts key xs).filter fun y => decide (key y ≠ key x)).map key ↔
          k ∈ (firsts key xs).map key := by
        simp only [List.mem_map, List.mem_filter, decide_eq_true_eq]
        constructor
        · intro h
          obtain ⟨y, ⟨hy, -⟩, hky⟩ := h
          exact ⟨y, hy, hky⟩
        · intro h
          obtain ⟨y, hy, hky⟩ := h
          exact ⟨y, ⟨hy, fun heq => hk (hky.symm.trans heq)⟩, hky⟩
      rw [hfilter]

/-- A further row is kept when its key is new. -/
theorem firsts_concat (rows : List α) (x : α) :
    firsts key (rows ++ [x]) = firsts key rows ++ if key x ∈ rows.map key then [] else [x] := by
  induction rows with
  | nil => rfl
  | cons first rest ih =>
    rw [List.cons_append, firsts, ih, List.filter_append, firsts, List.cons_append, List.map_cons]
    by_cases hhead : key x = key first
    · rw [if_pos (List.mem_cons.mpr (.inl hhead))]
      split <;> simp [hhead]
    · by_cases hrest : key x ∈ rest.map key
      · rw [if_pos hrest, if_pos (List.mem_cons_of_mem _ hrest), List.filter_nil]
      · have hnew : key x ∉ key first :: rest.map key := by
          rw [List.mem_cons, not_or]
          exact ⟨hhead, hrest⟩
        rw [if_neg hrest, if_neg hnew]
        simp [hhead]

theorem firsts_eq_self {rows : List α} (h : (rows.map key).Nodup) : firsts key rows = rows := by
  induction rows using List.reverseRecOn with
  | nil => rfl
  | append_singleton rows x ih =>
    rw [List.map_append, List.nodup_append] at h
    obtain ⟨hrows, -, hdisjoint⟩ := h
    have hnew : key x ∉ rows.map key := by
      intro hmem
      exact hdisjoint _ hmem (key x) (by simp) rfl
    rw [firsts_concat, ih hrows, if_neg hnew]

end

end Eggplant.Lib.Pages
