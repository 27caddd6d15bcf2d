import Mathlib.Data.List.Nodup

/-!
# Overwriting tables

A hash map read by key. Inserting and extending overwrite, so after a sequence of
writes a key has the value of the last write that mentions it.
-/
namespace Eggplant.Lib

set_option autoImplicit false

abbrev Table (K V : Type) := K → Option V

namespace Table

variable {K V : Type}

def empty : Table K V := fun _ => none

/-- The entries of the second table overwrite those of the first. -/
def extend (m m' : Table K V) : Table K V := fun k => (m' k).or (m k)

def single [DecidableEq K] (key : K) (v : V) : Table K V := fun k => if k = key then some v else none

def insert [DecidableEq K] (m : Table K V) (key : K) (v : V) : Table K V := m.extend (single key v)

/-- The writes of a list of tables, the first one first. -/
def merge (ts : List (Table K V)) : Table K V := ts.foldl extend empty

theorem single_eq_some [DecidableEq K] {key k : K} {v w : V} :
    single key v k = some w ↔ k = key ∧ v = w := by
  by_cases h : k = key <;> simp [single, h]

theorem extend_assoc (a b c : Table K V) : (a.extend b).extend c = a.extend (b.extend c) := by
  funext k
  exact Option.or_assoc.symm

theorem foldl_extend (m : Table K V) (ts : List (Table K V)) :
    ts.foldl extend m = m.extend (merge ts) := by
  unfold merge
  induction ts generalizing m with
  | nil => rfl
  | cons t ts ih =>
    have hempty : empty.extend t = t := by
      funext k
      exact Option.or_none
    rw [List.foldl_cons, List.foldl_cons, ih, ih (empty.extend t), hempty, extend_assoc]

theorem merge_cons (t : Table K V) (ts : List (Table K V)) : merge (t :: ts) = t.extend (merge ts) := by
  rw [merge, List.foldl_cons, foldl_extend]
  funext k
  simp [extend, empty]

theorem merge_append (ts us : List (Table K V)) : merge (ts ++ us) = (merge ts).extend (merge us) := by
  rw [merge, List.foldl_append, foldl_extend]
  rfl

theorem merge_apply (ts : List (Table K V)) (k : K) :
    merge ts k = ts.reverse.findSome? (fun t => t k) := by
  induction ts with
  | nil => rfl
  | cons t ts ih =>
    rw [merge_cons, extend, ih, List.reverse_cons, List.findSome?_append]
    cases h : t k <;> simp [h]

theorem merge_eq_none {ts : List (Table K V)} {k : K} : merge ts k = none ↔ ∀ t ∈ ts, t k = none := by
  induction ts with
  | nil => exact ⟨fun _ _ h => absurd h List.not_mem_nil, fun _ => rfl⟩
  | cons t ts ih =>
    rw [merge_cons, extend, Option.or_eq_none_iff, ih, List.forall_mem_cons, and_comm]

theorem exists_mem_of_merge {ts : List (Table K V)} {k : K} {v : V} (h : merge ts k = some v) :
    ∃ t ∈ ts, t k = some v := by
  rw [merge_apply, List.findSome?_eq_some_iff] at h
  obtain ⟨before, t, after, hsplit, ht, -⟩ := h
  have hmem : t ∈ ts.reverse := by
    rw [hsplit]
    exact List.mem_append_right _ List.mem_cons_self
  exact ⟨t, List.mem_reverse.mp hmem, ht⟩

/-- The last table that has the key decides. -/
theorem merge_eq_some {ts : List (Table K V)} {k : K} {v : V} :
    merge ts k = some v ↔
      ∃ before t after, ts = before ++ t :: after ∧ t k = some v ∧ ∀ u ∈ after, u k = none := by
  constructor
  · intro h
    induction ts with
    | nil => cases h
    | cons t ts ih =>
      rw [merge_cons, extend, Option.or_eq_some_iff] at h
      cases h with
      | inl hlater =>
        obtain ⟨before, u, after, rfl, hu⟩ := ih hlater
        exact ⟨t :: before, u, after, rfl, hu⟩
      | inr hhere => exact ⟨[], t, ts, rfl, hhere.2, merge_eq_none.mp hhere.1⟩
  · intro ⟨before, t, after, hts, ht, hafter⟩
    rw [hts, merge_append, merge_cons, extend, extend, merge_eq_none.mpr hafter, ht]
    rfl

section Entries
variable [DecidableEq K]

/-- One insert per entry, in order. -/
def insertAll (m : Table K V) (es : List (K × V)) : Table K V :=
  es.foldl (fun m e => m.insert e.1 e.2) m

theorem insertAll_empty (es : List (K × V)) :
    insertAll empty es = merge (es.map (fun e => single e.1 e.2)) := by
  rw [insertAll, merge, List.foldl_map]
  rfl

theorem insertAll_eq_none {es : List (K × V)} {k : K} :
    insertAll empty es k = none ↔ k ∉ es.map Prod.fst := by
  rw [insertAll_empty, merge_eq_none, List.forall_mem_map, List.mem_map]
  simp only [single, ite_eq_right_iff, reduceCtorEq, imp_false, not_exists, not_and]
  exact forall₂_congr (fun _ _ => not_congr eq_comm)

theorem mem_of_insertAll {es : List (K × V)} {k : K} {v : V} (h : insertAll empty es k = some v) :
    (k, v) ∈ es := by
  rw [insertAll_empty, merge_eq_some] at h
  obtain ⟨before, t, after, hts, ht, _⟩ := h
  have hmem : t ∈ es.map (fun e => single e.1 e.2) := by simp [hts]
  obtain ⟨e, he, rfl⟩ := List.mem_map.mp hmem
  obtain ⟨rfl, rfl⟩ := single_eq_some.mp ht
  exact he

/-- Where no key is written twice, the table is its list of entries. -/
theorem insertAll_eq_some {es : List (K × V)} (hn : (es.map Prod.fst).Nodup) {k : K} {v : V} :
    insertAll empty es k = some v ↔ (k, v) ∈ es := by
  refine ⟨mem_of_insertAll, fun hmem => ?_⟩
  have hkey : insertAll empty es k ≠ none := by
    rw [Ne, insertAll_eq_none, not_not]
    exact List.mem_map_of_mem hmem
  obtain ⟨w, hw⟩ := Option.ne_none_iff_exists'.mp hkey
  have hsame : (k, w) = (k, v) := List.inj_on_of_nodup_map hn (mem_of_insertAll hw) hmem rfl
  rw [hw, (Prod.mk.inj hsame).2]

end Entries

end Table

end Eggplant.Lib
