import Eggplant.Lib.Text
import Eggplant.Redeem.Attempts

/-!
# Draining redeemable positions

`redeem_all` runs passes: list the redeemable positions, read their balances, submit the
redeems, and list again. What the outside answers in a pass is arbitrary; a pass asks for
another one when it saw an acknowledgement and its listing stopped at the offset cap.
-/
namespace Eggplant.Redeem

set_option autoImplicit false

open Eggplant.Lib
open Eggplant.Convert (DepositWalletCall)

/-- Token balances read per `balanceOfBatch` call. -/
def balanceReadChunk : Nat := 500

/-- `passes` is a `u32` and wraps. -/
structure RedeemSummary where
  redeemed : Nat
  failed : Nat
  passes : UInt32
  deriving DecidableEq

/-- What one pass is answered: the listing with `hit_cap`, the balances by chunk and the
relayer by submission. -/
structure PassAnswers where
  listing : Except Error (List Position × Bool)
  balanceOfBatch : Nat → List Nat → Except String (List Nat)
  relayer : Nat → Except Error String

structure Outside where
  connect : Except String Unit
  pass : Nat → PassAnswers

/-- `token_ids`: the held tokens of a group. -/
def tokenIds (g : RedeemGroup) : List Nat := g.yesToken.toList ++ g.noToken.toList

/-- `chunk.iter().zip(balances)`, inserted in order. -/
def insertBalances (out : Nat → Option Nat) (chunk balances : List Nat) : Nat → Option Nat :=
  (chunk.zip balances).foldl (fun out read => Function.update out read.1 (some read.2)) out

/-- The loop of `read_balances` over the remaining chunks. -/
def readChunks (balanceOfBatch : Nat → List Nat → Except String (List Nat)) :
    Nat → List (List Nat) → (Nat → Option Nat) → Except Error (Nat → Option Nat)
  | _, [], out => .ok out
  | i, chunk :: chunks, out =>
    match balanceOfBatch i chunk with
    | .error e => .error (.invalidData ("balanceOfBatch failed: " ++ e))
    | .ok balances => readChunks balanceOfBatch (i + 1) chunks (insertBalances out chunk balances)

def readBalances (balanceOfBatch : Nat → List Nat → Except String (List Nat)) (ids : List Nat) :
    Except Error (Nat → Option Nat) :=
  readChunks balanceOfBatch 0 (batches balanceReadChunk ids) fun _ => none

section
variable (parse : Parsers) (opts : RedeemOptions)

def readAndPlan (balanceOfBatch : Nat → List Nat → Except String (List Nat))
    (positions : List Position) : Except Error (List Redemption) :=
  let groups := groupRedeemable parse positions
  (readBalances balanceOfBatch (groups.flatMap tokenIds)).map fun balances =>
    buildRedemptions groups balances opts.minSharesRaw

/-- The venue's default collateral stands in for an absent one. -/
def collateral : Address := opts.ctfCollateral.getD Chain.collateral

/-- A pass returns, or goes on with the summary so far. -/
inductive Pass where
  | returns (result : Except Error RedeemSummary)
  | again (summary : RedeemSummary)

/-- The second half of a pass: submit, count, and look at the exits. -/
def redeemPlanned (relayer : Nat → Except Error String) (hitCap : Bool) (summary : RedeemSummary)
    (redemptions : List Redemption) : Pass :=
  let t := submitBatches relayer opts (buildCalls redemptions (collateral opts))
  let summary := { summary with
    redeemed := summary.redeemed + t.ok, failed := summary.failed + t.bad }
  if 0 < opts.maxConditions ∧ opts.maxConditions ≤ summary.redeemed + summary.failed then
    .returns (.ok summary)
  else if t.ok = 0 then .returns (.ok summary)
  else if !hitCap then .returns (.ok summary)
  else .again summary

def redeemPass (answers : PassAnswers) (summary : RedeemSummary) : Pass :=
  let summary := { summary with passes := summary.passes + 1 }
  match answers.listing with
  | .error e => .returns (.error e)
  | .ok (positions, hitCap) =>
    if positions = [] then .returns (.ok summary)
    else
      match readAndPlan parse opts answers.balanceOfBatch positions with
      | .error e => .returns (.error e)
      | .ok redemptions =>
        if redemptions = [] then .returns (.ok summary)
        else
          let remaining := opts.maxConditions - (summary.redeemed + summary.failed)
          if 0 < opts.maxConditions ∧ remaining = 0 then .returns (.ok summary)
          else
            redeemPlanned opts answers.relayer hitCap summary
              (if 0 < opts.maxConditions then redemptions.take remaining else redemptions)

/-- The redemptions a pass submits; none when it returns before that. -/
def plannedIn (answers : PassAnswers) (summary : RedeemSummary) : List Redemption :=
  match answers.listing with
  | .error _ => []
  | .ok (positions, _) =>
    match readAndPlan parse opts answers.balanceOfBatch positions with
    | .error _ => []
    | .ok redemptions =>
      if 0 < opts.maxConditions then
        redemptions.take (opts.maxConditions - (summary.redeemed + summary.failed))
      else redemptions

/-- The loop from pass `k` on; `none` when `fuel` passes did not return. -/
def redeemLoop (pass : Nat → PassAnswers) : Nat → Nat → RedeemSummary →
    Option (Except Error RedeemSummary)
  | 0, _, _ => none
  | fuel + 1, k, summary =>
    match redeemPass parse opts (pass k) summary with
    | .returns result => some result
    | .again summary => redeemLoop pass fuel (k + 1) summary

/-- At most `fuel` passes of `redeem_all`. -/
def redeemAll (outside : Outside) (fuel : Nat) : Option (Except Error RedeemSummary) :=
  match outside.connect with
  | .error e => some (.error (.invalidData ("RPC connect failed: " ++ e)))
  | .ok () => redeemLoop parse opts outside.pass fuel 0 ⟨0, 0, 0⟩

/-! ## When a pass goes on -/

/-- The listing stopped at the cap, something it lists is held, and a submission of the
plan was acknowledged. -/
def GoesOn (answers : PassAnswers) : Prop :=
  ∃ positions redemptions, answers.listing = .ok (positions, true) ∧
    readAndPlan parse opts answers.balanceOfBatch positions = .ok redemptions ∧
    redemptions ≠ [] ∧
    ∃ s ∈ (submitBatches answers.relayer opts (buildCalls redemptions (collateral opts))).log,
      s.Accepted

variable {parse : Parsers} {opts : RedeemOptions}

/-- Without a cap on conditions, the counts play no part in the exits. -/
theorem redeemPlanned_again_iff (hmax : opts.maxConditions = 0)
    (relayer : Nat → Except Error String) (hitCap : Bool) (summary : RedeemSummary)
    (redemptions : List Redemption) :
    (∃ next, redeemPlanned opts relayer hitCap summary redemptions = .again next) ↔
      hitCap = true ∧
        ∃ s ∈ (submitBatches relayer opts (buildCalls redemptions (collateral opts))).log,
          s.Accepted := by
  have hok := submitBatches_ok relayer opts (buildCalls redemptions (collateral opts))
  have hcap (n : Nat) : ¬(0 < opts.maxConditions ∧ opts.maxConditions ≤ n) := by omega
  unfold redeemPlanned
  simp only [if_neg (hcap _)]
  constructor
  · intro h
    obtain ⟨next, hnext⟩ := h
    split at hnext
    next => cases hnext
    next hsome =>
      split at hnext
      next => cases hnext
      next hhit =>
        refine ⟨by simpa using hhit, ?_⟩
        by_contra hnone
        exact hsome (hok.mpr fun s hs hacc => hnone ⟨s, hs, hacc⟩)
  · intro h
    obtain ⟨hhit, s, hs, hacc⟩ := h
    rw [if_neg fun hzero => hok.mp hzero s hs hacc, hhit, if_neg (by decide)]
    exact ⟨_, rfl⟩

theorem readAndPlan_nil (balanceOfBatch : Nat → List Nat → Except String (List Nat)) :
    readAndPlan parse opts balanceOfBatch [] = .ok [] := rfl

theorem plannedIn_ok {answers : PassAnswers} (summary : RedeemSummary)
    {positions : List Position} {hitCap : Bool} {redemptions : List Redemption}
    (hlisting : answers.listing = .ok (positions, hitCap))
    (hplan : readAndPlan parse opts answers.balanceOfBatch positions = .ok redemptions) :
    plannedIn parse opts answers summary =
      if 0 < opts.maxConditions then
        redemptions.take (opts.maxConditions - (summary.redeemed + summary.failed))
      else redemptions := by
  unfold plannedIn
  rw [hlisting]
  simp only [hplan]

variable (parse opts)

/-- A pass fails, or returns without a submission, or submits what it planned. -/
theorem redeemPass_cases (answers : PassAnswers) (summary : RedeemSummary) :
    (∀ positions hitCap redemptions, answers.listing = .ok (positions, hitCap) →
        readAndPlan parse opts answers.balanceOfBatch positions ≠ .ok redemptions) ∧
      (∃ e, redeemPass parse opts answers summary = .returns (.error e)) ∨
    plannedIn parse opts answers summary = [] ∧
      redeemPass parse opts answers summary =
        .returns (.ok { summary with passes := summary.passes + 1 }) ∨
    ∃ positions hitCap redemptions, answers.listing = .ok (positions, hitCap) ∧
      readAndPlan parse opts answers.balanceOfBatch positions = .ok redemptions ∧
      redemptions ≠ [] ∧
      redeemPass parse opts answers summary =
        redeemPlanned opts answers.relayer hitCap { summary with passes := summary.passes + 1 }
          (plannedIn parse opts answers summary) := by
  unfold redeemPass
  cases hlisting : answers.listing with
  | error e => exact .inl ⟨nofun, e, rfl⟩
  | ok listed =>
    obtain ⟨positions, hitCap⟩ := listed
    by_cases hnil : positions = []
    · subst hnil
      refine .inr (.inl ⟨?_, rfl⟩)
      rw [plannedIn_ok summary hlisting (readAndPlan_nil _), List.take_nil, ite_self]
    simp only [if_neg hnil]
    cases hplan : readAndPlan parse opts answers.balanceOfBatch positions with
    | error e =>
      refine .inl ⟨fun positions hitCap redemptions heq hok => ?_, e, rfl⟩
      cases heq
      cases hplan.symm.trans hok
    | ok redemptions =>
      have hplanned := plannedIn_ok summary hlisting hplan
      by_cases hempty : redemptions = []
      · rw [hempty, List.take_nil, ite_self] at hplanned
        exact .inr (.inl ⟨hplanned, by simp only [if_pos hempty]⟩)
      by_cases hstop : 0 < opts.maxConditions ∧
          opts.maxConditions - (summary.redeemed + summary.failed) = 0
      · rw [if_pos hstop.1, hstop.2, List.take_zero] at hplanned
        exact .inr (.inl ⟨hplanned, by simp only [if_neg hempty, if_pos hstop]⟩)
      · refine .inr (.inr ⟨positions, hitCap, redemptions, rfl, hplan, hempty, ?_⟩)
        simp only [if_neg hempty, if_neg hstop, hplanned]

variable {parse opts}

theorem redeemPass_again_iff (hmax : opts.maxConditions = 0) (answers : PassAnswers)
    (summary : RedeemSummary) :
    (∃ next, redeemPass parse opts answers summary = .again next) ↔
      GoesOn parse opts answers := by
  have hall {positions : List Position} {hitCap : Bool} {redemptions : List Redemption}
      (hlisting : answers.listing = .ok (positions, hitCap))
      (hplan : readAndPlan parse opts answers.balanceOfBatch positions = .ok redemptions) :
      plannedIn parse opts answers summary = redemptions := by
    rw [plannedIn_ok summary hlisting hplan, if_neg (by omega)]
  unfold GoesOn
  rcases redeemPass_cases parse opts answers summary with
    ⟨hfails, e, hpass⟩ | ⟨hnone, hpass⟩ | ⟨positions, hitCap, redemptions, hlisting, hplan, hne, hpass⟩
  · refine iff_of_false ?_ ?_
    · rw [hpass]
      exact nofun
    · intro h
      obtain ⟨positions, redemptions, hlisting, hplan, -⟩ := h
      exact hfails positions true redemptions hlisting hplan
  · refine iff_of_false ?_ ?_
    · rw [hpass]
      exact nofun
    · intro h
      obtain ⟨positions, redemptions, hlisting, hplan, hne, -⟩ := h
      exact hne ((hall hlisting hplan).symm.trans hnone)
  · rw [hpass, redeemPlanned_again_iff hmax, hall hlisting hplan]
    constructor
    · intro h
      exact ⟨positions, redemptions, by rw [hlisting, h.1], hplan, hne, h.2⟩
    · intro h
      obtain ⟨positions', redemptions', hlisting', hplan', -, hacc⟩ := h
      cases hlisting.symm.trans hlisting'
      cases hplan.symm.trans hplan'
      exact ⟨rfl, hacc⟩

/-- The loop runs out of passes exactly when every pass goes on. -/
theorem redeemLoop_none_iff (hmax : opts.maxConditions = 0) (pass : Nat → PassAnswers)
    (fuel k : Nat) (summary : RedeemSummary) :
    redeemLoop parse opts pass fuel k summary = none ↔
      ∀ i < fuel, GoesOn parse opts (pass (k + i)) := by
  induction fuel generalizing k summary with
  | zero => exact ⟨fun _ _ hi => absurd hi (Nat.not_lt_zero _), fun _ => rfl⟩
  | succ fuel ih =>
    have hiff : (∃ next, redeemPass parse opts (pass k) summary = .again next) ↔
        GoesOn parse opts (pass k) := redeemPass_again_iff hmax (pass k) summary
    rw [redeemLoop]
    cases hpass : redeemPass parse opts (pass k) summary with
    | returns result =>
      rw [hpass] at hiff
      constructor
      · intro h
        cases h
      · intro h
        obtain ⟨next, hnext⟩ := hiff.mpr (h 0 (Nat.succ_pos fuel))
        cases hnext
    | again next =>
      have hfirst : GoesOn parse opts (pass k) := hiff.mp ⟨next, hpass⟩
      show redeemLoop parse opts pass fuel (k + 1) next = none ↔ _
      rw [ih]
      constructor
      · intro h i hi
        cases i with
        | zero => exact hfirst
        | succ i =>
          have hrest := h i (by omega)
          rwa [Nat.add_right_comm, Nat.add_assoc] at hrest
      · intro h i hi
        have hrest := h (i + 1) (by omega)
        rwa [← Nat.add_assoc, Nat.add_right_comm] at hrest

/-- The drain never returns exactly when the node is reached and every pass goes on. -/
theorem redeemAll_forever_iff (hmax : opts.maxConditions = 0) (outside : Outside) :
    (¬∃ fuel result, redeemAll parse opts outside fuel = some result) ↔
      outside.connect = .ok () ∧ ∀ k, GoesOn parse opts (outside.pass k) := by
  have hloop (fuel : Nat) : redeemLoop parse opts outside.pass fuel 0 ⟨0, 0, 0⟩ = none ↔
      ∀ i < fuel, GoesOn parse opts (outside.pass (0 + i)) :=
    redeemLoop_none_iff hmax outside.pass fuel 0 ⟨0, 0, 0⟩
  unfold redeemAll
  cases outside.connect with
  | error e =>
    constructor
    · intro h
      exact absurd ⟨0, _, rfl⟩ h
    · intro h
      cases h.1
  | ok _ =>
    constructor
    · intro h
      refine ⟨rfl, fun k => ?_⟩
      have hnone := Option.eq_none_iff_forall_ne_some.mpr fun result hsome =>
        h ⟨k + 1, result, hsome⟩
      have hgoes := (hloop (k + 1)).mp hnone k (Nat.lt_succ_self k)
      rwa [Nat.zero_add] at hgoes
    · intro h hreturns
      obtain ⟨fuel, result, hsome⟩ := hreturns
      have hnone := (hloop fuel).mpr fun i _ => h.2 (0 + i)
      cases hnone.symm.trans hsome

end

/-- A drain without a cap on conditions returns exactly when the node cannot be reached or
some pass does not go on. -/
theorem redeemAll_returns_iff (parse : Parsers) (opts : RedeemOptions) (outside : Outside) :
    (∃ fuel result,
        redeemAll parse { opts with maxConditions := 0 } outside fuel = some result) ↔
      (∃ e, outside.connect = .error e) ∨
        ∃ k, ¬GoesOn parse { opts with maxConditions := 0 } (outside.pass k) := by
  rw [← not_iff_not, redeemAll_forever_iff rfl, not_or, not_exists, not_exists]
  apply and_congr
  · cases outside.connect with
    | error e => exact ⟨nofun, fun h => absurd rfl (h e)⟩
    | ok _ => exact ⟨fun _ => nofun, fun _ => rfl⟩
  · exact forall_congr' fun k => not_not.symm

/-! ## When acknowledgements take effect -/

section
variable (parse : Parsers) (opts : RedeemOptions)

/-- A pass plans a call. -/
def Planned (answers : PassAnswers) (call : DepositWalletCall) : Prop :=
  ∃ positions hitCap redemptions, answers.listing = .ok (positions, hitCap) ∧
    readAndPlan parse opts answers.balanceOfBatch positions = .ok redemptions ∧
    call ∈ buildCalls redemptions (collateral opts)

/-- A planned call is part of an acknowledged submission of the pass. -/
def Acknowledged (answers : PassAnswers) (call : DepositWalletCall) : Prop :=
  ∃ positions hitCap redemptions, answers.listing = .ok (positions, hitCap) ∧
    readAndPlan parse opts answers.balanceOfBatch positions = .ok redemptions ∧
    ∃ s ∈ (submitBatches answers.relayer opts (buildCalls redemptions (collateral opts))).log,
      s.Accepted ∧ call ∈ s.calls

variable {parse : Parsers} {opts : RedeemOptions}

theorem GoesOn.exists_acknowledged {answers : PassAnswers} (h : GoesOn parse opts answers) :
    ∃ call, Planned parse opts answers call ∧ Acknowledged parse opts answers call := by
  obtain ⟨positions, redemptions, hlist, hplan, -, s, hs, hacc⟩ := h
  obtain ⟨call, hcall, hmem⟩ := submitBatches_calls answers.relayer opts _ hs
  exact ⟨call, ⟨positions, true, redemptions, hlist, hplan, hmem⟩,
    positions, true, redemptions, hlist, hplan, s, hs, hacc, hcall⟩

end

/-- When the calls ever planned are finitely many and an acknowledged one is not planned
again, the drain returns. -/
theorem redeemAll_returns_of_effective (parse : Parsers) (opts : RedeemOptions)
    (outside : Outside) (calls : List DepositWalletCall)
    (hfinite : ∀ k call,
      Planned parse { opts with maxConditions := 0 } (outside.pass k) call → call ∈ calls)
    (heffect : ∀ j k call, j < k →
      Acknowledged parse { opts with maxConditions := 0 } (outside.pass j) call →
        ¬Planned parse { opts with maxConditions := 0 } (outside.pass k) call) :
    ∃ fuel result, redeemAll parse { opts with maxConditions := 0 } outside fuel = some result := by
  by_contra hnever
  have hgoes (k : Nat) := (((redeemAll_forever_iff rfl outside).mp hnever).2 k).exists_acknowledged
  -- one acknowledged call for each pass, all of them different
  choose call hplanned hacknowledged using hgoes
  have hne : ∀ j k, j < k → call j ≠ call k := fun j k hjk heq =>
    heffect j k _ hjk (hacknowledged j) (heq ▸ hplanned k)
  have hinj : Function.Injective fun k => (⟨call k, hfinite k _ (hplanned k)⟩ : {c // c ∈ calls}) := by
    intro j k heq
    have hcall : call j = call k := congrArg Subtype.val heq
    rcases Nat.lt_trichotomy j k with hlt | hjk | hgt
    · exact absurd hcall (hne j k hlt)
    · exact hjk
    · exact absurd hcall.symm (hne k j hgt)
  exact not_injective_infinite_finite _ hinj

/-! ## Acknowledged without effect -/

/-- One position that stays listed and held, on a listing that keeps hitting the cap, and a
relayer that acknowledges every redeem. -/
def noEffect : PassAnswers where
  listing := .ok ([⟨"7", 5,
    "0x00000000000000000000000000000000000000000000000000000000000000c1", "Yes", false⟩], true)
  balanceOfBatch _ ids := .ok (ids.map fun _ => 5)
  relayer _ := .ok "tx"

/-- Decimal and hexadecimal readers. -/
def readers : Parsers := ⟨Text.readDec, fun s => Text.readFixedHex 32 ("0x" ++ s)⟩

/-- The binary market pays out in another token than the one the calls name. -/
def wrongCollateral : RedeemOptions := { ctfCollateral := some Chain.usdcE }

theorem noEffect_goesOn : GoesOn readers wrongCollateral noEffect := by
  refine ⟨_, [⟨Words.Word.ofNat 0xc1, 5, 0, false⟩], rfl, ?_, List.cons_ne_nil _ _, ?_⟩
  · decide +kernel
  · exact ⟨⟨_, .ok "tx"⟩, List.mem_cons_self, "tx", rfl⟩

theorem redeemAll_never_returns :
    ¬∀ (parse : Parsers) (opts : RedeemOptions) (outside : Outside), ∃ fuel result,
      redeemAll parse { opts with maxConditions := 0 } outside fuel = some result := by
  intro h
  have hreturns := h readers wrongCollateral ⟨.ok (), fun _ => noEffect⟩
  exact (redeemAll_forever_iff rfl _).mpr ⟨rfl, fun _ => noEffect_goesOn⟩ hreturns

end Eggplant.Redeem
