import Mathlib

/-!
# A bounded window over admitted items

An item offered to the window is dropped when it is among the last `cap` admitted
ones, and is admitted otherwise. An item that stays inside the window between its
offers is admitted once.
-/
namespace Eggplant.Lib.Window

set_option autoImplicit false

section Recent
variable {α : Type*}

theorem length_rtake_le (log : List α) (cap : ℕ) : (log.rtake cap).length ≤ cap := by
  rw [List.rtake, List.length_drop]
  omega

/-- The window after one more entry is found from the window before it. -/
theorem rtake_concat (log : List α) (cap : ℕ) (a : α) :
    (log.rtake cap ++ [a]).rtake cap = (log ++ [a]).rtake cap := by
  cases cap with
  | zero => rw [List.rtake_zero, List.rtake_zero]
  | succ cap =>
    rw [List.rtake_concat_succ, List.rtake_concat_succ]
    congr 1
    unfold List.rtake
    rw [List.length_drop, List.drop_drop]
    congr 1
    omega

/-- A list within the window is all of it. -/
theorem rtake_of_le {log : List α} {cap : ℕ} (h : log.length ≤ cap) : log.rtake cap = log := by
  rw [List.rtake, Nat.sub_eq_zero_of_le h, List.drop_zero]

/-- One entry too many drops the oldest. -/
theorem rtake_cons {old : α} {rest : List α} {cap : ℕ} (h : rest.length = cap) :
    (old :: rest).rtake cap = rest := by
  rw [List.rtake, List.length_cons, ← h, Nat.add_sub_cancel_left, List.drop_one, List.tail_cons]

/-- An entry with fewer than `cap` entries after it is in the window. -/
theorem mem_rtake {before after : List α} {cap : ℕ} {a : α} (h : after.length < cap) :
    a ∈ (before ++ a :: after).rtake cap := by
  have hle : (before ++ a :: after).length - cap ≤ before.length := by
    rw [List.length_append, List.length_cons]
    omega
  rw [List.rtake, List.drop_append_of_le_length hle]
  exact List.mem_append_right _ List.mem_cons_self

theorem mem_of_mem_rtake {log : List α} {cap : ℕ} {a : α} (h : a ∈ log.rtake cap) : a ∈ log :=
  List.mem_of_mem_drop h

/-- The last time an entry occurs. -/
theorem exists_last {as : List α} {a : α} (h : a ∈ as) :
    ∃ before after, as = before ++ a :: after ∧ a ∉ after := by
  obtain ⟨before, after, heq, hbefore⟩ := List.eq_append_cons_of_mem (List.mem_reverse.mpr h)
  refine ⟨after.reverse, before.reverse, ?_, fun hmem => hbefore (List.mem_reverse.mp hmem)⟩
  rw [← List.reverse_reverse as, heq]
  simp

end Recent

section Admissions
variable {α : Type*} [DecidableEq α]

/-- The items admitted from `as`, in order, by a window over `log`. -/
def admissions (cap : ℕ) : List α → List α → List α
  | _, [] => []
  | log, a :: as =>
    if a ∈ log.rtake cap then admissions cap log as else a :: admissions cap (log ++ [a]) as

variable {cap : ℕ}

theorem admissions_append (log as bs : List α) :
    admissions cap log (as ++ bs) =
      admissions cap log as ++ admissions cap (log ++ admissions cap log as) bs := by
  induction as generalizing log with
  | nil => rw [List.nil_append, admissions, List.nil_append, List.append_nil]
  | cons a as ih =>
    rw [List.cons_append, admissions, admissions]
    split
    · exact ih log
    · rw [ih, List.cons_append, List.append_assoc, List.singleton_append]

theorem admissions_concat (log as : List α) (a : α) :
    admissions cap log (as ++ [a]) = admissions cap log as ++
      if a ∈ (log ++ admissions cap log as).rtake cap then [] else [a] := by
  rw [admissions_append, admissions, admissions, admissions]

theorem mem_of_mem_admissions {log as : List α} {a : α} (h : a ∈ admissions cap log as) :
    a ∈ as := by
  induction as generalizing log with
  | nil => exact h
  | cons b as ih =>
    rw [admissions] at h
    split at h
    · exact List.mem_cons_of_mem b (ih h)
    · cases List.mem_cons.mp h with
      | inl heq => rw [heq]; exact List.mem_cons_self
      | inr hmem => exact List.mem_cons_of_mem b (ih hmem)

/-- Between the first and the last offer of any item fewer than `cap` others are admitted. -/
def Fits (cap : ℕ) (as : List α) : Prop :=
  ∀ a before middle after, as = before ++ a :: (middle ++ a :: after) →
    a ∉ before → a ∉ after →
      ((admissions cap (admissions cap [] (before ++ [a])) middle).toFinset.erase a).card < cap

/-- A repeated offer finds its item in the window. -/
theorem mem_window_of_repeat {as before after : List α} {a : α} (hfits : Fits cap as)
    (h : as = before ++ a :: after) (hmem : a ∈ before)
    (hnodup : (admissions cap [] before).Nodup) :
    a ∈ (admissions cap [] before).rtake cap := by
  obtain ⟨first, since, rfl, hfirst⟩ := List.eq_append_cons_of_mem hmem
  obtain ⟨later, rest, hlast, hrest⟩ := exists_last (List.mem_cons_self : a ∈ a :: after)
  have hadmit : admissions cap [] (first ++ [a]) = admissions cap [] first ++ [a] := by
    rw [admissions_concat, if_neg]
    intro hwin
    exact hfirst (mem_of_mem_admissions (mem_of_mem_rtake hwin))
  have hlog : admissions cap [] (first ++ a :: since) =
      admissions cap [] first ++ a :: admissions cap (admissions cap [] (first ++ [a])) since := by
    rw [← List.singleton_append, ← List.append_assoc, admissions_append, List.nil_append, hadmit,
      List.append_assoc, List.singleton_append]
  have hcard := hfits a first (since ++ later) rest
    (by rw [h, hlast]; simp only [List.append_assoc, List.cons_append]) hfirst hrest
  rw [hlog] at hnodup ⊢
  -- what was admitted since the first offer is without repetition and without `a`
  have htail : (a :: admissions cap (admissions cap [] (first ++ [a])) since).Nodup :=
    (List.nodup_append.mp hnodup).2.1
  obtain ⟨hnot, hsince⟩ := List.nodup_cons.mp htail
  apply mem_rtake
  refine lt_of_le_of_lt ?_ hcard
  rw [← List.toFinset_card_of_nodup hsince]
  apply Finset.card_le_card
  intro b hb
  have hb' := List.mem_toFinset.mp hb
  refine Finset.mem_erase.mpr ⟨fun heq => hnot (heq ▸ hb'), List.mem_toFinset.mpr ?_⟩
  rw [admissions_append]
  exact List.mem_append_left _ hb'

/-- As long as items stay in the window, each offered item is admitted, once. -/
theorem admissions_once {as : List α} (hfits : Fits cap as) (before after : List α)
    (h : as = before ++ after) :
    (admissions cap [] before).Nodup ∧ ∀ a, a ∈ admissions cap [] before ↔ a ∈ before := by
  induction before using List.reverseRecOn generalizing after with
  | nil => exact ⟨List.nodup_nil, fun a => Iff.rfl⟩
  | append_singleton before a ih =>
    rw [List.append_assoc, List.singleton_append] at h
    obtain ⟨hnodup, hmem⟩ := ih (a :: after) h
    rw [admissions_concat, List.nil_append]
    by_cases ha : a ∈ before
    · rw [if_pos (mem_window_of_repeat hfits h ha hnodup), List.append_nil]
      refine ⟨hnodup, fun b => ?_⟩
      rw [hmem, List.mem_append, List.mem_singleton]
      exact ⟨Or.inl, fun hb => hb.elim id fun heq => heq ▸ ha⟩
    · have hnew : a ∉ admissions cap [] before := fun hin => ha ((hmem a).mp hin)
      rw [if_neg fun hwin => hnew (mem_of_mem_rtake hwin)]
      refine ⟨List.nodup_append.mpr ⟨hnodup, List.nodup_singleton a, ?_⟩, fun b => ?_⟩
      · intro b hb c hc heq
        rw [List.mem_singleton.mp hc] at heq
        exact hnew (heq ▸ hb)
      · rw [List.mem_append, List.mem_append, hmem]

/-- An offer is admitted exactly when it is the first of its item. -/
theorem mem_window_iff {as : List α} (hfits : Fits cap as) {before after : List α} {a : α}
    (h : as = before ++ a :: after) : a ∈ (admissions cap [] before).rtake cap ↔ a ∈ before := by
  obtain ⟨hnodup, hmem⟩ := admissions_once hfits before (a :: after) h
  constructor
  · exact fun hwin => (hmem a).mp (mem_of_mem_rtake hwin)
  · exact fun ha => mem_window_of_repeat hfits h ha hnodup

end Admissions

end Eggplant.Lib.Window
