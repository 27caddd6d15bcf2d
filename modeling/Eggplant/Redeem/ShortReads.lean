import Eggplant.Redeem.Summary

/-!
# Short balance answers

`read_balances` pairs the ids of a chunk with whatever came back, so an answer of
another length than its query is taken as it is. An id without a balance is then held
as zero, and its condition may drop out of the plan.
-/
namespace Eggplant.Redeem

set_option autoImplicit false

open Eggplant.Lib

/-! ## What a read leaves in the map -/

theorem insertBalances_isSome_iff (out : Nat → Option Nat) (chunk balances : List Nat)
    (token : Nat) :
    (insertBalances out chunk balances token).isSome = true ↔
      (out token).isSome = true ∨ token ∈ chunk.take balances.length := by
  unfold insertBalances
  induction chunk generalizing out balances with
  | nil => simp
  | cons id chunk ih =>
    cases balances with
    | nil => simp
    | cons balance balances =>
      rw [List.zip_cons_cons, List.foldl_cons, ih, List.length_cons, List.take_succ_cons,
        List.mem_cons]
      by_cases hid : token = id
      · subst hid
        simp
      · rw [Function.update_of_ne hid]
        simp [hid]

/-- The chunks after the first are asked for one call later. -/
theorem exists_chunk_cons_iff {first : List Nat} {chunks : List (List Nat)} {i : Nat}
    {P : Nat → List Nat → Prop} :
    (∃ k chunk, (first :: chunks)[k]? = some chunk ∧ P (i + k) chunk) ↔
      P i first ∨ ∃ k chunk, chunks[k]? = some chunk ∧ P (i + 1 + k) chunk := by
  constructor
  · intro h
    obtain ⟨k, chunk, hk, hP⟩ := h
    cases k with
    | zero =>
      obtain rfl := Option.some.inj hk
      exact .inl hP
    | succ k =>
      refine .inr ⟨k, chunk, hk, ?_⟩
      rwa [Nat.add_assoc, Nat.add_comm 1 k]
  · intro h
    rcases h with hP | ⟨k, chunk, hk, hP⟩
    · exact ⟨0, first, rfl, hP⟩
    · refine ⟨k + 1, chunk, hk, ?_⟩
      rwa [← Nat.add_assoc, Nat.add_right_comm]

/-- A read fails when one of its calls does. -/
theorem readChunks_error_iff (balanceOfBatch : Nat → List Nat → Except String (List Nat))
    (i : Nat) (chunks : List (List Nat)) (out : Nat → Option Nat) :
    (∃ e, readChunks balanceOfBatch i chunks out = .error e) ↔
      ∃ k chunk, chunks[k]? = some chunk ∧ ∃ e, balanceOfBatch (i + k) chunk = .error e := by
  induction chunks generalizing i out with
  | nil =>
    refine iff_of_false nofun ?_
    intro h
    obtain ⟨k, chunk, hk, -⟩ := h
    cases hk
  | cons first chunks ih =>
    rw [exists_chunk_cons_iff (P := fun j chunk => ∃ e, balanceOfBatch j chunk = .error e),
      readChunks]
    cases balanceOfBatch i first with
    | error e => exact iff_of_true ⟨_, rfl⟩ (.inl ⟨e, rfl⟩)
    | ok balances =>
      simp only
      rw [ih, or_iff_right nofun]

/-- An id has a balance when an answer reaches its place in the query. -/
theorem readChunks_isSome_iff {balanceOfBatch : Nat → List Nat → Except String (List Nat)}
    {i : Nat} {chunks : List (List Nat)} {out balances : Nat → Option Nat}
    (h : readChunks balanceOfBatch i chunks out = .ok balances) (token : Nat) :
    (balances token).isSome = true ↔ (out token).isSome = true ∨
      ∃ k chunk, chunks[k]? = some chunk ∧
        ∃ answer, balanceOfBatch (i + k) chunk = .ok answer ∧ token ∈ chunk.take answer.length := by
  induction chunks generalizing i out with
  | nil =>
    rw [readChunks] at h
    obtain rfl := Except.ok.inj h
    simp
  | cons first chunks ih =>
    rw [readChunks] at h
    rw [exists_chunk_cons_iff (P := fun j chunk =>
      ∃ answer, balanceOfBatch j chunk = .ok answer ∧ token ∈ chunk.take answer.length)]
    cases hfirst : balanceOfBatch i first with
    | error e =>
      rw [hfirst] at h
      cases h
    | ok answer =>
      rw [hfirst] at h
      rw [ih h, insertBalances_isSome_iff, or_assoc]
      refine or_congr Iff.rfl (or_congr ?_ Iff.rfl)
      constructor
      · intro hmem
        exact ⟨answer, rfl, hmem⟩
      · intro hread
        obtain ⟨full, hfull, hmem⟩ := hread
        obtain rfl := Except.ok.inj hfull
        exact hmem

/-! ## Answers in full -/

section
variable (balanceOfBatch : Nat → List Nat → Except String (List Nat)) (ids : List Nat)

/-- Every query was answered with exactly one balance for each id asked. -/
def ReadInFull : Prop :=
  ∀ k chunk, (batches balanceReadChunk ids)[k]? = some chunk →
    ∃ answer, balanceOfBatch k chunk = .ok answer ∧ answer.length = chunk.length

/-- The node refuses some query. -/
def SomeCallFails : Prop :=
  ∃ k chunk e, (batches balanceReadChunk ids)[k]? = some chunk ∧
    balanceOfBatch k chunk = .error e

/-- The node gives no query an array of another length. -/
def AnswersInLength : Prop :=
  ∀ k chunk answer, (batches balanceReadChunk ids)[k]? = some chunk →
    balanceOfBatch k chunk = .ok answer → answer.length = chunk.length

variable {balanceOfBatch ids}

theorem readBalances_error_iff :
    (∃ e, readBalances balanceOfBatch ids = .error e) ↔ SomeCallFails balanceOfBatch ids := by
  rw [readBalances, readChunks_error_iff, SomeCallFails]
  simp only [Nat.zero_add, exists_and_left]

theorem ReadInFull.isSome (h : ReadInFull balanceOfBatch ids) {balances : Nat → Option Nat}
    (hread : readBalances balanceOfBatch ids = .ok balances) {token : Nat} (ht : token ∈ ids) :
    (balances token).isSome = true := by
  rw [← batches_flatten (show 0 < balanceReadChunk by decide) ids] at ht
  obtain ⟨chunk, hchunk, hmem⟩ := List.mem_flatten.mp ht
  obtain ⟨k, hk⟩ := List.mem_iff_getElem?.mp hchunk
  obtain ⟨answer, hanswer, hlen⟩ := h k chunk hk
  refine (readChunks_isSome_iff hread token).mpr (.inr ⟨k, chunk, hk, answer, ?_, ?_⟩)
  · rwa [Nat.zero_add]
  · rwa [hlen, List.take_length]

theorem readInFull_iff (hread : ¬SomeCallFails balanceOfBatch ids) :
    ReadInFull balanceOfBatch ids ↔ AnswersInLength balanceOfBatch ids := by
  constructor
  · intro h k chunk answer hk hanswer
    obtain ⟨full, hfull, hlen⟩ := h k chunk hk
    rw [hfull] at hanswer
    rwa [← Except.ok.inj hanswer]
  · intro h k chunk hk
    cases hanswer : balanceOfBatch k chunk with
    | error e => exact absurd ⟨k, chunk, e, hk, hanswer⟩ hread
    | ok answer => exact ⟨answer, rfl, h k chunk answer hk hanswer⟩

end

/-- The tokens whose balances a plan is made from. -/
def plannedTokens (parse : Parsers) (positions : List Position) : List Nat :=
  (groupRedeemable parse positions).flatMap tokenIds

/-- The plan fails, or rests on full answers with a balance for every token of every group. -/
def NeverShort (parse : Parsers) (opts : RedeemOptions)
    (balanceOfBatch : Nat → List Nat → Except String (List Nat)) (positions : List Position) :
    Prop :=
  (∃ e, readAndPlan parse opts balanceOfBatch positions = .error e) ∨
  ∃ balances, readBalances balanceOfBatch (plannedTokens parse positions) = .ok balances ∧
    readAndPlan parse opts balanceOfBatch positions =
      .ok (buildRedemptions (groupRedeemable parse positions) balances opts.minSharesRaw) ∧
    ReadInFull balanceOfBatch (plannedTokens parse positions) ∧
    ∀ group ∈ groupRedeemable parse positions, ∀ token ∈ tokenIds group,
      ∃ amount, balances token = some amount

theorem readAndPlan_error_iff (parse : Parsers) (opts : RedeemOptions)
    (balanceOfBatch : Nat → List Nat → Except String (List Nat)) (positions : List Position) :
    (∃ e, readAndPlan parse opts balanceOfBatch positions = .error e) ↔
      SomeCallFails balanceOfBatch (plannedTokens parse positions) := by
  rw [← readBalances_error_iff, readAndPlan, plannedTokens]
  cases readBalances balanceOfBatch ((groupRedeemable parse positions).flatMap tokenIds) with
  | error e => exact iff_of_true ⟨e, rfl⟩ ⟨e, rfl⟩
  | ok balances => exact iff_of_false nofun nofun

/-- A plan is safe from short answers exactly when a call fails or the node itself keeps
the answers in length: the reader checks nothing. -/
theorem neverShort_iff (parse : Parsers) (opts : RedeemOptions)
    (balanceOfBatch : Nat → List Nat → Except String (List Nat)) (positions : List Position) :
    NeverShort parse opts balanceOfBatch positions ↔
      SomeCallFails balanceOfBatch (plannedTokens parse positions) ∨
        AnswersInLength balanceOfBatch (plannedTokens parse positions) := by
  rw [NeverShort, readAndPlan_error_iff]
  by_cases hfails : SomeCallFails balanceOfBatch (plannedTokens parse positions)
  · exact iff_of_true (.inl hfails) (.inl hfails)
  · rw [or_iff_right hfails, or_iff_right hfails, ← readInFull_iff hfails]
    constructor
    · intro h
      obtain ⟨balances, -, -, hfull, -⟩ := h
      exact hfull
    · intro hfull
      have hplan : ∀ e, readAndPlan parse opts balanceOfBatch positions ≠ .error e :=
        fun e he => hfails ((readAndPlan_error_iff parse opts balanceOfBatch positions).mp ⟨e, he⟩)
      cases hredemptions : readAndPlan parse opts balanceOfBatch positions with
      | error e => exact absurd hredemptions (hplan e)
      | ok redemptions =>
        obtain ⟨balances, hread, rfl⟩ := readAndPlan_ok hredemptions
        refine ⟨balances, hread, rfl, hfull, ?_⟩
        intro group hgroup token htoken
        have hmem : token ∈ plannedTokens parse positions :=
          List.mem_flatMap.mpr ⟨group, hgroup, htoken⟩
        exact Option.isSome_iff_exists.mp (hfull.isSome hread hmem)

/-- A held position, and a node that answers its query with an empty array. -/
theorem short_answer_drops_condition :
    let row : Position := ⟨"7", 5,
      "0x00000000000000000000000000000000000000000000000000000000000000c1", "Yes", false⟩
    readAndPlan readers {} (fun _ ids => .ok (ids.map fun _ => 5)) [row] =
        .ok [⟨Words.Word.ofNat 0xc1, 5, 0, false⟩] ∧
      readAndPlan readers {} (fun _ _ => .ok []) [row] = .ok [] ∧
      ¬NeverShort readers {} (fun _ _ => .ok []) [row] := by
  intro row
  have hids : plannedTokens readers [row] = [7] := by decide +kernel
  refine ⟨by decide +kernel, by decide +kernel, ?_⟩
  intro h
  rcases h with ⟨e, he⟩ | ⟨balances, -, -, hfull, -⟩
  · have hok : readAndPlan readers {} (fun _ _ => .ok []) [row] = .ok [] := by decide +kernel
    rw [hok] at he
    cases he
  · rw [hids] at hfull
    obtain ⟨answer, hanswer, hlen⟩ := hfull 0 [7] rfl
    obtain rfl := Except.ok.inj hanswer
    cases hlen

end Eggplant.Redeem
