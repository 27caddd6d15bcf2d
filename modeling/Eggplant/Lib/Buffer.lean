import Eggplant.Lib.Words

/-!
# Fixed buffers filled by offset

A zeroed buffer of known size receives byte strings at fixed offsets, one copy
after the other. When the copies stand in order and do not overlap, the result is
the copies in sequence with zero bytes in the gaps: `fill_eq_layout`. A copy into a
gap left by earlier ones gives the buffer that has it in its place: `copyAt_fill`.
-/
namespace Eggplant.Lib.Buffer

set_option autoImplicit false

open Eggplant.Lib.Words

def zeros (n : Nat) : Bytes := List.replicate n 0

@[simp] theorem zeros_length (n : Nat) : (zeros n).length = n := List.length_replicate

@[simp] theorem zeros_zero : zeros 0 = [] := rfl

theorem zeros_append (m n : Nat) : zeros m ++ zeros n = zeros (m + n) :=
  List.replicate_append_replicate

/-- Copy `src` over the bytes of `buf` from `off` on. -/
def copyAt (buf : Bytes) (off : Nat) (src : Bytes) : Bytes :=
  buf.take off ++ src ++ buf.drop (off + src.length)

/-- A zeroed buffer of `n` bytes after the given copies, in order. -/
def fill (n : Nat) (copies : List (Nat × Bytes)) : Bytes :=
  copies.foldl (fun buf c => copyAt buf c.1 c.2) (zeros n)

/-- The rest of an `n`-byte buffer from byte `pos` on. -/
def layout (n pos : Nat) : List (Nat × Bytes) → Bytes
  | [] => zeros (n - pos)
  | c :: cs => zeros (c.1 - pos) ++ c.2 ++ layout n (c.1 + c.2.length) cs

/-- Each copy starts where the one before it ended or later, and ends inside the buffer. -/
def Ordered (n pos : Nat) : List (Nat × Bytes) → Prop
  | [] => pos ≤ n
  | c :: cs => pos ≤ c.1 ∧ Ordered n (c.1 + c.2.length) cs

theorem Ordered.le {n : Nat} (cs : List (Nat × Bytes)) {pos : Nat} (h : Ordered n pos cs) :
    pos ≤ n := by
  induction cs generalizing pos with
  | nil => exact h
  | cons c cs ih =>
    have hrest := ih h.2
    have hstart := h.1
    omega

theorem Ordered.of_append {n : Nat} (cs ds : List (Nat × Bytes)) {pos : Nat}
    (h : Ordered n pos (cs ++ ds)) : Ordered n pos cs := by
  induction cs generalizing pos with
  | nil => exact Ordered.le ds h
  | cons c cs ih => exact ⟨h.1, ih h.2⟩

theorem Ordered.start_le {n off : Nat} {src : Bytes} (cs ds : List (Nat × Bytes)) {pos : Nat}
    (h : Ordered n pos (cs ++ (off, src) :: ds)) : pos ≤ off := by
  induction cs generalizing pos with
  | nil => exact h.1
  | cons c cs ih =>
    have hstart := h.1
    have hend := ih h.2
    omega

/-- Up to the next copy there are zeros. -/
theorem layout_gap {n pos k : Nat} (cs : List (Nat × Bytes)) (hk : pos ≤ k)
    (h : Ordered n k cs) : layout n pos cs = zeros (k - pos) ++ layout n k cs := by
  cases cs with
  | nil =>
    have hn : k ≤ n := h
    rw [layout, layout, zeros_append]
    congr 1
    omega
  | cons c cs =>
    have hc : k ≤ c.1 := h.1
    rw [layout, layout, ← List.append_assoc, ← List.append_assoc, zeros_append]
    congr 3
    omega

theorem copyAt_append (a b src : Bytes) {off : Nat} (h : a.length ≤ off) :
    copyAt (a ++ b) off src = a ++ copyAt b (off - a.length) src := by
  have hdrop : off + src.length - a.length = off - a.length + src.length := by omega
  rw [copyAt, copyAt, List.take_append, List.drop_append, List.take_of_length_le h,
    List.drop_of_length_le (by omega), hdrop]
  simp only [List.append_assoc, List.nil_append]

/-- A copy between two groups of copies lands in the gap it was left. -/
theorem copyAt_layout {n off : Nat} {src : Bytes} (cs ds : List (Nat × Bytes)) :
    ∀ pos : Nat, Ordered n pos (cs ++ (off, src) :: ds) →
      copyAt (layout n pos (cs ++ ds)) (off - pos) src =
        layout n pos (cs ++ (off, src) :: ds) := by
  induction cs with
  | nil =>
    intro pos h
    obtain ⟨hoff, hds⟩ : pos ≤ off ∧ Ordered n (off + src.length) ds := h
    have hgap : layout n pos ds =
        zeros (off - pos) ++ (zeros src.length ++ layout n (off + src.length) ds) := by
      rw [layout_gap ds (show pos ≤ off + src.length by omega) hds, ← List.append_assoc,
        zeros_append]
      congr 2
      omega
    rw [List.nil_append, hgap, copyAt_append _ _ _ (by rw [zeros_length]), zeros_length,
      Nat.sub_self, copyAt, List.take_zero, Nat.zero_add,
      List.drop_left' (zeros_length src.length), List.nil_append, List.nil_append, layout,
      List.append_assoc]
  | cons c cs ih =>
    intro pos h
    obtain ⟨hpos, hrest⟩ : pos ≤ c.1 ∧ Ordered n (c.1 + c.2.length) (cs ++ (off, src) :: ds) := h
    have hoff : c.1 + c.2.length ≤ off := Ordered.start_le cs ds hrest
    have hlen : (zeros (c.1 - pos) ++ c.2).length = c.1 + c.2.length - pos := by
      rw [List.length_append, zeros_length]
      omega
    rw [List.cons_append, List.cons_append, layout, layout,
      copyAt_append _ _ _ (by rw [hlen]; omega), hlen,
      show off - pos - (c.1 + c.2.length - pos) = off - (c.1 + c.2.length) by omega,
      ih _ hrest]

/-- Copies in order lay out as the copied strings with zeros between them. -/
theorem fill_eq_layout {n : Nat} (cs : List (Nat × Bytes)) (h : Ordered n 0 cs) :
    fill n cs = layout n 0 cs := by
  induction cs using List.reverseRecOn with
  | nil => rfl
  | append_singleton cs c ih =>
    have hcopy := copyAt_layout cs [] 0 h
    rw [List.append_nil, Nat.sub_zero] at hcopy
    rw [← hcopy, ← ih (Ordered.of_append cs [c] h), fill, List.foldl_append]
    rfl

/-- The copies that fill a buffer may come in any order of their places. -/
theorem copyAt_fill (n off : Nat) (src : Bytes) (cs ds : List (Nat × Bytes))
    (h : Ordered n 0 (cs ++ (off, src) :: ds)) (hrest : Ordered n 0 (cs ++ ds)) :
    copyAt (fill n (cs ++ ds)) off src = fill n (cs ++ (off, src) :: ds) := by
  have hcopy := copyAt_layout cs ds 0 h
  rwa [← fill_eq_layout _ hrest, ← fill_eq_layout _ h, Nat.sub_zero] at hcopy

/-- Where the copies stand and how long they are. -/
def shape (cs : List (Nat × Bytes)) : List (Nat × Nat) := cs.map fun c => (c.1, c.2.length)

theorem layout_inj {n : Nat} (cs : List (Nat × Bytes)) :
    ∀ (ds : List (Nat × Bytes)) (pos : Nat), shape cs = shape ds →
      layout n pos cs = layout n pos ds → cs = ds := by
  induction cs with
  | nil =>
    intro ds pos hshape _
    rw [shape, shape, List.map_nil, eq_comm, List.map_eq_nil_iff] at hshape
    exact hshape.symm
  | cons c cs ih =>
    intro ds pos hshape h
    cases ds with
    | nil => simp [shape] at hshape
    | cons d ds =>
      simp only [shape, List.map_cons, List.cons.injEq, Prod.mk.injEq] at hshape
      obtain ⟨⟨hoff, hlen⟩, hrest⟩ := hshape
      rw [layout, layout, hoff, hlen, List.append_assoc, List.append_assoc] at h
      obtain ⟨hsrc, htail⟩ := List.append_inj (List.append_cancel_left h) hlen
      rw [Prod.ext hoff hsrc, ih ds _ hrest htail]

/-- Whether copies stand in order is a matter of their places. -/
theorem Ordered.of_shape {n : Nat} (cs : List (Nat × Bytes)) :
    ∀ (ds : List (Nat × Bytes)) (pos : Nat), shape cs = shape ds →
      Ordered n pos cs → Ordered n pos ds := by
  induction cs with
  | nil =>
    intro ds pos hshape h
    rw [shape, shape, List.map_nil, eq_comm, List.map_eq_nil_iff] at hshape
    rw [hshape]
    exact h
  | cons c cs ih =>
    intro ds pos hshape h
    cases ds with
    | nil => simp [shape] at hshape
    | cons d ds =>
      simp only [shape, List.map_cons, List.cons.injEq, Prod.mk.injEq] at hshape
      obtain ⟨⟨hoff, hlen⟩, hrest⟩ := hshape
      refine ⟨hoff ▸ h.1, ?_⟩
      rw [← hoff, ← hlen]
      exact ih ds _ hrest h.2

/-- Two buffers filled at the same places are equal only when the copies are. -/
theorem fill_inj {n : Nat} {cs ds : List (Nat × Bytes)} (h : fill n cs = fill n ds)
    (hshape : shape cs = shape ds) (hcs : Ordered n 0 cs) : cs = ds := by
  rw [fill_eq_layout cs hcs, fill_eq_layout ds (hcs.of_shape cs ds 0 hshape)] at h
  exact layout_inj cs ds 0 hshape h

end Eggplant.Lib.Buffer
