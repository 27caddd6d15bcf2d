import Eggplant.Convert.Proceeds

/-!
# Several events at once

A `Portfolio` is a list of events in different markets with no condition id twice.
Operations on one event leave the others untouched, so plans made at one ledger
execute one after the other, and what each event has freed plus what it can still
free never changes.
-/
namespace Eggplant.Convert

set_option autoImplicit false

open Eggplant.Lib Eggplant.Lib.Words

/-- No leg of one event is in the market of the other. -/
def Apart (e f : Event) : Prop := ∀ l ∈ e.legs, ∀ k ∈ f.legs, l.marketId ≠ k.marketId

instance (e f : Event) : Decidable (Apart e f) :=
  inferInstanceAs (Decidable (∀ l ∈ e.legs, ∀ k ∈ f.legs, l.marketId ≠ k.marketId))

theorem Apart.symm {e f : Event} (h : Apart e f) : Apart f e :=
  fun l hl k hk he => h k hk l hl he.symm

instance : Std.Symm Apart := ⟨fun _ _ h => h.symm⟩

theorem Apart.questions {e f : Event} (h : Apart e f) {q : B256} (hq : q ∈ f.questions) :
    q ∉ e.questions := by
  intro hin
  obtain ⟨l, hl, hlq⟩ := List.mem_map.mp hin
  obtain ⟨k, hk, rfl⟩ := List.mem_map.mp hq
  exact h l hl k hk (congrArg marketIdFromQuestionId hlq)

structure Portfolio where
  events : List Event
  differentMarkets : events.Pairwise Apart
  distinctConditions : ((events.flatMap (·.legs)).filterMap (·.conditionId)).Nodup

namespace Portfolio

def legs (P : Portfolio) : List ConvertLeg := P.events.flatMap (·.legs)

theorem apart (P : Portfolio) {e f : Event} (he : e ∈ P.events) (hf : f ∈ P.events) (hne : e ≠ f) :
    Apart e f :=
  P.differentMarkets.forall he hf hne

end Portfolio

private theorem marketQuestions_append (registry rest : List ConvertLeg) (m : B256) :
    marketQuestions (registry ++ rest) m = marketQuestions registry m ++ marketQuestions rest m := by
  simp [marketQuestions]

private theorem marketQuestions_other {registry : List ConvertLeg} {m : B256}
    (h : ∀ k ∈ registry, k.marketId ≠ m) : marketQuestions registry m = [] := by
  rw [marketQuestions, List.map_eq_nil_iff, List.filter_eq_nil_iff]
  intro k hk
  simpa using h k hk

private theorem marketQuestions_flatMap (es : List Event) (hp : es.Pairwise Apart) {e : Event}
    (he : e ∈ es) {l : ConvertLeg} (hl : l ∈ e.legs) :
    marketQuestions (es.flatMap (·.legs)) l.marketId = e.questions := by
  induction es with
  | nil => cases he
  | cons f fs ih =>
    obtain ⟨hf, hfs⟩ := List.pairwise_cons.mp hp
    rw [List.flatMap_cons, marketQuestions_append]
    rcases List.mem_cons.mp he with rfl | hmem
    · rw [marketQuestions_self e hl, marketQuestions_other, List.append_nil]
      intro k hk
      obtain ⟨g, hg, hkg⟩ := List.mem_flatMap.mp hk
      exact (hf g hg l hl k hkg).symm
    · rw [marketQuestions_other (fun k hk => hf e hmem k hk l hl), List.nil_append]
      exact ih hfs hmem

theorem Portfolio.listed (P : Portfolio) {e : Event} (he : e ∈ P.events) : Listed P.legs e where
  market := fun _ hl => marketQuestions_flatMap P.events P.differentMarkets he hl
  condition := fun _ hl _ hc =>
    legOfCondition_eq P.distinctConditions (List.mem_flatMap.mpr ⟨e, he, hl⟩) hc

/-- Two concrete events, of three legs and of two. -/
def twoMarkets : Portfolio where
  events := [.numbered 0 3 (by decide), .numbered 1 2 (by decide)]
  differentMarkets := by decide
  distinctConditions := by decide

/-! ## Events an operation does not concern -/

structure Untouched (e : Event) (before after : Ledger) : Prop where
  balances : ∀ q ∈ e.questions, after.no q = before.no q ∧ after.yes q = before.yes q
  credited : e.credited after = e.credited before

namespace Untouched

variable {e : Event} {before mid after : Ledger}

theorem refl (e : Event) (ledger : Ledger) : Untouched e ledger ledger :=
  ⟨fun _ _ => ⟨rfl, rfl⟩, rfl⟩

theorem trans (h : Untouched e before mid) (h' : Untouched e mid after) :
    Untouched e before after where
  balances := fun q hq =>
    ⟨(h'.balances q hq).1.trans (h.balances q hq).1, (h'.balances q hq).2.trans (h.balances q hq).2⟩
  credited := h'.credited.trans h.credited

theorem pairs (h : Untouched e before after) : after.pairs e.legs = before.pairs e.legs := by
  apply List.map_congr_left
  intro l hl
  obtain ⟨hn, hy⟩ := h.balances l.questionId (e.mem_questions hl)
  rw [hn, hy]

theorem plan (h : Untouched e before after) (floor : Nat) :
    e.plan after floor = e.plan before floor := by
  rw [Event.plan, h.pairs, Event.plan]

theorem value (h : Untouched e before after) : e.value after = e.value before := by
  have hq (q : B256) (hq : q ∈ e.outcomes) := h.balances q (List.mem_toFinset.mp hq)
  have hno : e.totalNo after = e.totalNo before :=
    Finset.sum_congr rfl (fun q hmem => (hq q hmem).1)
  have hdepth : e.depth after = e.depth before := by
    unfold Event.depth CompleteSet.depth
    apply Finset.sup_congr rfl
    intro q hmem
    simp only [Event.position, (hq q hmem).1, (hq q hmem).2]
  show e.totalNo after - e.depth after = e.totalNo before - e.depth before
  rw [hno, hdepth]

end Untouched

/-- A run on one event leaves every event in another market untouched. -/
theorem harvest_untouched {registry : List ConvertLeg} {e f : Event} (hl : Listed registry e)
    (hef : Apart e f) {first last : Ledger} {ops : List Op}
    (h : Harvest registry e first ops last) : Untouched f first last := by
  obtain ⟨hq, hm⟩ := harvest_frame hl h
  constructor
  · intro q hin
    exact hq q (hef.questions hin)
  · unfold Event.credited
    cases hlegs : f.legs with
    | nil => rfl
    | cons k ks =>
      apply hm
      intro l hmem
      exact hef l hmem k (by rw [hlegs]; exact List.mem_cons_self)

/-! ## Runs over the portfolio -/

abbrev Reap (P : Portfolio) : Ledger → List Op → Ledger → Prop :=
  Runs.Certified (exec P.legs)
    (fun ledger op => ∃ e ∈ P.events, OnEvent e op ∧ op.depth ≤ e.depth ledger)

theorem reap_of_harvest {P : Portfolio} {e : Event} (he : e ∈ P.events) {first last : Ledger}
    {ops : List Op} (h : Harvest P.legs e first ops last) : Reap P first ops last :=
  h.mono (fun _ _ hok => ⟨e, he, hok⟩)

/-- Freed plus freeable is the same in every ledger of a certified run, event by event. -/
theorem reap_balance {P : Portfolio} {first last : Ledger} {ops : List Op}
    (h : Reap P first ops last) {f : Event} (hf : f ∈ P.events) :
    f.value last + f.credited last = f.value first + f.credited first := by
  apply h.invariant (p := fun ledger =>
    f.value ledger + f.credited ledger = f.value first + f.credited first) _ rfl
  intro ledger op next ⟨e, he, hop, hdepth⟩ hexec hinv
  rw [← hinv]
  have hlisted := P.listed he
  by_cases hef : e = f
  · subst hef
    have hvalue := step_value hlisted hop hdepth hexec
    obtain ⟨_, _, hcredit⟩ := exec_frame hlisted hop hexec
    omega
  · have hsame := harvest_untouched hlisted (P.apart he hf hef) (.single ⟨hop, hdepth⟩ hexec)
    rw [hsame.value, hsame.credited]

/-- What running the plans of `es`, all made at `before`, leaves behind. -/
structure Reaped (es : List Event) (floor : Nat) (before after : Ledger) : Prop where
  credited : ∀ e ∈ es, e.credited after = e.credited before + planCredit (e.plan before floor)
  noMerges : ∀ e ∈ es, (e.plan after floor).merges = []
  noTiers : ∀ e ∈ es, (e.plan after floor).tiers = []
  others : ∀ f, (∀ e ∈ es, Apart e f) → Untouched f before after

/-- Plans made at one ledger execute one after the other: each leaves the balances
the next ones were made for. -/
private theorem reap_events (P : Portfolio) (floor : Nat) (es : List Event)
    (hsub : ∀ e ∈ es, e ∈ P.events) (hp : es.Pairwise Apart) (ledger : Ledger) :
    ∃ after, Reap P ledger (es.flatMap (fun e => planOps (e.plan ledger floor))) after ∧
      Reaped es floor ledger after := by
  induction es generalizing ledger with
  | nil =>
    refine ⟨ledger, .nil ledger, ?_, ?_, ?_, ?_⟩
    · exact fun e he => nomatch he
    · exact fun e he => nomatch he
    · exact fun e he => nomatch he
    · exact fun f _ => Untouched.refl f ledger
  | cons e es ih =>
    obtain ⟨hfirst, hrest⟩ := List.pairwise_cons.mp hp
    have he := hsub e List.mem_cons_self
    have hlisted := P.listed he
    obtain ⟨mid, hrun, hm, ht⟩ := harvest_plan hlisted ledger floor
    have hmid (f : Event) (hf : Apart e f) : Untouched f ledger mid :=
      harvest_untouched hlisted hf hrun
    obtain ⟨after, htail, hdone⟩ := ih (fun f hf => hsub f (List.mem_cons_of_mem e hf)) hrest mid
    have hkept : Untouched e mid after := hdone.others e (fun f hf => (hfirst f hf).symm)
    have hplans : es.flatMap (fun f => planOps (f.plan mid floor)) =
        es.flatMap (fun f => planOps (f.plan ledger floor)) := by
      apply List.flatMap_congr
      intro f hf
      rw [(hmid f (hfirst f hf)).plan]
    refine ⟨after, ?_, ?_, ?_, ?_, ?_⟩
    · rw [List.flatMap_cons, ← hplans]
      exact (reap_of_harvest he hrun).append htail
    · intro f hf
      rcases List.mem_cons.mp hf with rfl | hf
      · rw [hkept.credited, harvest_credited hlisted hrun, credits_planOps]
      · have hsame := hmid f (hfirst f hf)
        rw [hdone.credited f hf, hsame.credited, hsame.plan]
    · intro f hf
      rcases List.mem_cons.mp hf with rfl | hf
      · rw [hkept.plan, hm]
      · exact hdone.noMerges f hf
    · intro f hf
      rcases List.mem_cons.mp hf with rfl | hf
      · rw [hkept.plan, ht]
      · exact hdone.noTiers f hf
    · intro f hf
      exact (hmid f (hf e List.mem_cons_self)).trans
        (hdone.others f (fun g hg => hf g (List.mem_cons_of_mem e hg)))

theorem reap_plans (P : Portfolio) (ledger : Ledger) (floor : Nat) :
    ∃ after, Reap P ledger (P.events.flatMap (fun e => planOps (e.plan ledger floor))) after ∧
      Reaped P.events floor ledger after :=
  reap_events P floor P.events (fun _ he => he) P.differentMarkets ledger

/-- A plan never credits more than the event's value, so its sum never wraps. -/
theorem planCredit_le_value {registry : List ConvertLeg} {e : Event} (hl : Listed registry e)
    (ledger : Ledger) (floor : Nat) : planCredit (e.plan ledger floor) ≤ e.value ledger := by
  obtain ⟨after, hrun, _⟩ := harvest_plan hl ledger floor
  have h := harvest_value hl hrun
  rw [credits_planOps] at h
  omega

theorem proceeds_eq_planCredit {registry : List ConvertLeg} {e : Event} (hl : Listed registry e)
    (ledger : Ledger) (floor : Nat) (hlt : e.totalNo ledger < wordSize) :
    (e.plan ledger floor).proceeds = planCredit (e.plan ledger floor) := by
  rw [proceeds_eq_mod]
  apply Nat.mod_eq_of_lt
  exact lt_of_le_of_lt ((planCredit_le_value hl ledger floor).trans (value_le_totalNo e ledger)) hlt

end Eggplant.Convert
