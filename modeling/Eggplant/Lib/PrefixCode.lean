import Mathlib.Data.List.Basic

/-!
# Reading a concatenation back

Two ways in which a text of several parts determines them without a delimiter: the first
part is as long as its characters are of one class, or the first parts are words none of
which starts another.
-/
namespace Eggplant.Lib

set_option autoImplicit false

variable {α : Type}

/-- A first part of one class of characters ends where another character comes. -/
theorem append_inj_of_class {p : α → Bool} {a a' b b' : List α} (ha : ∀ x ∈ a, p x = true)
    (ha' : ∀ x ∈ a', p x = true) (hb : ∀ x ∈ b.head?, p x = false)
    (hb' : ∀ x ∈ b'.head?, p x = false) (h : a ++ b = a' ++ b') : a = a' ∧ b = b' := by
  have hstop {s : List α} (hs : ∀ x ∈ s.head?, p x = false) : s.takeWhile p = [] := by
    cases s with
    | nil => rfl
    | cons x s => exact List.takeWhile_cons_of_neg (by rw [hs x rfl]; exact Bool.false_ne_true)
  have hfirst := congrArg (List.takeWhile p) h
  rw [List.takeWhile_append_of_pos ha, List.takeWhile_append_of_pos ha', hstop hb, hstop hb',
    List.append_nil, List.append_nil] at hfirst
  subst hfirst
  exact ⟨rfl, List.append_cancel_left h⟩

section
variable {κ : Type}

/-- No word of the code starts another. -/
def PrefixCode (word : κ → List α) : Prop := ∀ k k', word k <+: word k' → k = k'

/-- A text that starts with a word of the code has no other word and no other rest. -/
theorem PrefixCode.append_inj {word : κ → List α} (hcode : PrefixCode word) {k k' : κ}
    {s s' : List α} (h : word k ++ s = word k' ++ s') : k = k' ∧ s = s' := by
  have hk : k = k' := by
    have hprefix : word k <+: word k' ++ s' := h ▸ List.prefix_append _ _
    rcases List.prefix_or_prefix_of_prefix hprefix (List.prefix_append _ _) with hle | hle
    · exact hcode k k' hle
    · exact (hcode k' k hle).symm
  subst hk
  exact ⟨rfl, List.append_cancel_left h⟩

end

end Eggplant.Lib
