import Eggplant.Sweep.Engine

/-!
# Sweeping until nothing is left

Against a relayer that accepts and sources that tell the truth a sweep frees everything
its events can free, whatever ledger it starts from; so it also completes a sweep that was
interrupted anywhere. The next sweep then submits nothing.
-/
namespace Eggplant.Sweep

set_option autoImplicit false

open Eggplant.Lib.Words Eggplant.Convert
open Eggplant.Redeem (readers)

/-! ## A relayer and a node that answer -/

structure Accepts (env : Env) : Prop where
  answers : ∀ n, ∃ txId, env.answer n = .ok txId
  balances : ∀ n, env.balanceError n = none
  snapshots : ∀ n, ∃ snapshot, env.wrapSnapshot n = .ok snapshot

section Accepts
variable {env : Env} (haccepts : Accepts env)
include haccepts

theorem submitRetry_accepts (retries : Nat) (w : World) (submission : Submission) :
    ∃ txId, (submitAndSettleWithBusyRetry env retries w submission).1 = .ok txId := by
  obtain ⟨txId, htx⟩ := haccepts.answers w.log.length
  have hsubmit : (submitAndSettle env w submission).1 = .ok txId := htx
  refine ⟨txId, ?_⟩
  cases retries with
  | zero => exact hsubmit
  | succ retries =>
    rw [submitAndSettleWithBusyRetry]
    cases hres : submitAndSettle env w submission with
    | mk answer next =>
      rw [hres] at hsubmit
      cases hsubmit
      rfl

theorem submitChunks_accepts (retries : Nat) (calls : List DepositWalletCall)
    (ranges : List CallRange) (w : World) (last : String) :
    ∃ txId, (submitChunks env retries calls ranges w last).1 = .ok txId := by
  induction ranges generalizing w last with
  | nil => exact ⟨last, rfl⟩
  | cons range ranges ih =>
    obtain ⟨txId, htx⟩ := submitRetry_accepts haccepts retries w (.cycle (range.slice calls))
    rw [submitChunks]
    cases hres : submitAndSettleWithBusyRetry env retries w (.cycle (range.slice calls)) with
    | mk answer next =>
      rw [hres] at htx
      cases htx
      exact ih next txId

theorem readBalancesMulti_accepts (jobs : List ConvertJob) (w : World) :
    ∃ balances, (readBalancesMulti env jobs w).1 = .ok balances := by
  unfold readBalancesMulti
  simp only [haccepts.balances]
  split
  next => exact ⟨_, rfl⟩
  next => exact ⟨_, unpackMulti_batch _ jobs⟩

theorem planJobs_accepts (jobs : List ConvertJob) (floor : Nat) (w : World) :
    ∃ planned, (planJobs env jobs floor w).1 = .ok planned := by
  obtain ⟨balances, hbalances⟩ := readBalancesMulti_accepts haccepts jobs w
  obtain ⟨snapshot, hsnapshot⟩ := haccepts.snapshots w.wrapReads
  unfold planJobs
  cases hres : readBalancesMulti env jobs w with
  | mk answer next =>
    rw [hres] at hbalances
    cases hbalances
    simp only [hsnapshot]
    exact ⟨_, rfl⟩

/-- A cycle that nothing rejects succeeds. -/
theorem processJob_accepts {P : Portfolio} (hshows : Shows P env) {e : Event} (he : e ∈ P.events)
    {job : ConvertJob} (hjob : job.legs = e.legs) (delays : ConvertDelays) {w : World}
    (hbal : ∀ l ∈ e.legs, w.ledger.no l.questionId < wordSize) :
    (processJob env job delays w).1.isOk = true := by
  have hone := hshows.only he
  obtain ⟨⟨plans, snapshot⟩, hplanned⟩ :=
    planJobs_accepts haccepts [job] delays.singleLegMinQtyRaw w
  have hplans := planJobs_ok env hone.reads hone.yes (jobsOf_only he hjob) hplanned
  obtain ⟨calls, _, hcalls, _⟩ := planCalls_reap (P.only he) w.ledger delays.singleLegMinQtyRaw
    fun f hf => by
      obtain rfl : f = e := List.mem_singleton.mp hf
      exact hbal
  have hcalls : planCalls plans = .ok calls := by
    rw [hplans]
    exact hcalls
  have hround : ∃ detail, (processRound env [job] delays w).1 = .ok detail := by
    unfold processRound
    cases hres : planJobs env [job] delays.singleLegMinQtyRaw w with
    | mk planned next =>
      rw [hres] at hplanned
      cases hplanned
      simp only [hcalls]
      split
      next => split <;> exact ⟨_, rfl⟩
      next =>
        obtain ⟨txId, htx⟩ := submitChunks_accepts haccepts delays.walletBusyMaxRetries
          (calls.map (·.call))
          (gasChunks calls delays.maxCallsPerSubmission delays.maxGasPerSubmission) next ""
        cases hsubmit : submitChunks env delays.walletBusyMaxRetries (calls.map (·.call))
            (gasChunks calls delays.maxCallsPerSubmission delays.maxGasPerSubmission) next "" with
        | mk answer last =>
          rw [hsubmit] at htx
          cases htx
          exact ⟨_, rfl⟩
  obtain ⟨detail, hdetail⟩ := hround
  rw [processJob, processJobs, processRounds]
  cases hres : processRound env [job] delays w with
  | mk answer next =>
    rw [hres] at hdetail
    cases hdetail
    rfl

/-- Every event of an accepted sweep runs through. -/
theorem sweepEvents_accepts {P : Portfolio} (hshows : Shows P env) (now : Nat)
    (delays : ConvertDelays) {start : Ledger}
    (hbal : ∀ l ∈ P.legs, start.no l.questionId < wordSize)
    {rows : List (HeldEvent × SweepReport)}
    (hrows : ∀ row ∈ rows, ∃ e ∈ P.events, row.1.legs = e.legs) (held : Nat) :
    ∀ o ∈ (rows.foldl (sweepEvent env now delays)
      { summary := { heldEvents := held }, outcomes := [], world := World.init start }).outcomes,
      o.2.isOk = true := by
  induction rows using List.reverseRecOn with
  | nil => nofun
  | append_singleton rows row ih =>
    obtain ⟨hbefore, hlast⟩ := List.forall_mem_append.mp hrows
    obtain ⟨e, he, hlegs⟩ := hlast row (List.mem_singleton.mpr rfl)
    have hinv := swept_loop hshows now delays hbal hbefore held
    have hdone := ih hbefore
    rw [List.foldl_append, List.foldl_cons, List.foldl_nil]
    generalize rows.foldl (sweepEvent env now delays) _ = acc at hinv hdone ⊢
    rcases sweepEvent_cases env now delays acc row with ⟨_, hstep⟩ | ⟨_, hstep⟩
    · rw [hstep]
      exact hdone
    · rw [hstep]
      have hfits : ∀ l ∈ e.legs, acc.world.ledger.no l.questionId < wordSize := by
        intro l hl
        exact lt_of_le_of_lt (hinv.reach.no_le l.questionId)
          (hbal l (List.mem_flatMap.mpr ⟨e, he, hl⟩))
      have hjob : (sweepJob row.1 now).legs = e.legs := hlegs
      have hok := processJob_accepts haccepts hshows he hjob delays hfits
      exact List.forall_mem_append.mpr ⟨hdone, List.forall_mem_singleton.mpr hok⟩

end Accepts

/-! ## Sources that tell the truth -/

/-- Rows and events are those of the wallet: each row of an event's token carries the
event's name, and Gamma knows each event by its own name alone. -/
structure Truthful (P : Portfolio) (name : Event → String) (scan : Scan) (bal : Nat → Nat)
    (positions : List HeldPosition) : Prop where
  rows : ∀ e ∈ P.events, RowsReport scan.parse e.legs bal (positions.map (·.toPosition))
  slug : ∀ e ∈ P.events, ∀ t ∈ batchTokenIds e.legs, ∀ p ∈ positions,
    scan.parse.u256 p.asset = some t → p.negativeRisk = true ∧ p.eventSlug = name e
  named : ∀ e ∈ P.events, name e ≠ ""
  resolves : ∀ e ∈ P.events, ∃ he, resolveEvent scan (name e) = some he ∧ he.legs = e.legs
  honest : ∀ slug he, resolveEvent scan slug = some he →
    ∃ e ∈ P.events, he.legs = e.legs ∧ slug = name e
  tokens : ∀ e ∈ P.events, (batchTokenIds e.legs).Nodup

/-- The options ask for the event. -/
def Selected (opts : SweepOptions) (name : Event → String) (e : Event) : Prop :=
  opts.onlySlug.all (· == name e) = true

theorem legPairs_eq {P : Portfolio} {env : Env} (hshows : Shows P env) (ledger : Ledger) {e : Event}
    (he : e ∈ P.events) : e.legs.map (legPair (env.balanceOf ledger)) = ledger.pairs e.legs :=
  legPair_reads env hshows.reads hshows.yes ledger he

section Truthful
variable {P : Portfolio} {name : Event → String} {scan : Scan} {env : Env} {ledger : Ledger}
  {positions : List HeldPosition}
  (htrue : Truthful P name scan (env.balanceOf ledger) positions) (hshows : Shows P env)
  {opts : SweepOptions} (hfloor : opts.delays.singleLegMinQtyRaw < 2 ^ 128)
include htrue

/-- What is discovered are the asked-for events that have a row. -/
theorem Truthful.mem_discovered {he : HeldEvent} :
    he ∈ (heldSlugs opts positions).filterMap (resolveEvent scan) ↔
      ∃ e ∈ P.events, resolveEvent scan (name e) = some he ∧ he.legs = e.legs ∧
        Selected opts name e ∧ name e ∈ heldSlugs opts positions := by
  rw [List.mem_filterMap]
  constructor
  · intro h
    obtain ⟨slug, hslug, hres⟩ := h
    obtain ⟨e, hmem, hlegs, rfl⟩ := htrue.honest slug he hres
    obtain ⟨p, _, hwanted, hp⟩ := mem_heldSlugs.mp hslug
    rw [wanted, Bool.and_eq_true, hp] at hwanted
    exact ⟨e, hmem, hres, hlegs, hwanted.2, hslug⟩
  · intro h
    obtain ⟨e, _, hres, _, _, hslug⟩ := h
    exact ⟨name e, hslug, hres⟩

include hshows

/-- No row of the asked-for event: it holds nothing. -/
theorem Truthful.idle_unlisted {e : Event} (he : e ∈ P.events) (hsel : Selected opts name e)
    (hslug : name e ∉ heldSlugs opts positions) (floor : Nat) : e.Idle floor ledger := by
  have hzero : ∀ t ∈ batchTokenIds e.legs, env.balanceOf ledger t = 0 := by
    intro t ht
    by_contra hheld
    have hsizes := (htrue.rows e he).held t ht hheld
    cases hrow : rowsOfToken scan.parse t (positions.map (·.toPosition)) with
    | nil =>
      rw [hrow] at hsizes
      cases hsizes
    | cons row rest =>
      have hmem : row ∈ rowsOfToken scan.parse t (positions.map (·.toPosition)) := by
        rw [hrow]
        exact List.mem_cons_self
      obtain ⟨hin, hasset⟩ := List.mem_filter.mp hmem
      obtain ⟨p, hp, rfl⟩ := List.mem_map.mp hin
      obtain ⟨hrisk, hname⟩ := htrue.slug e he t ht p hp (of_decide_eq_true hasset)
      refine hslug (mem_heldSlugs.mpr ⟨p, hp, ?_, hname⟩)
      have hsel : opts.onlySlug.all (· == name e) = true := hsel
      rw [wanted, hrisk, hname, hsel, bne_iff_ne.mpr (htrue.named e he)]
      rfl
  have hpairs : ledger.pairs e.legs = e.legs.map fun _ => (0, 0) := by
    rw [← legPairs_eq hshows ledger he]
    apply List.map_congr_left
    intro l hl
    rw [legPair, hzero _ (noTokenId_mem hl)]
    cases hy : l.yesTokenId with
    | none => rfl
    | some y => rw [Option.map_some, Option.getD_some, hzero y (yesTokenId_mem hl hy)]
  have hnone (legs : List ConvertLeg) :
      Convert.classifyEvent legs (legs.map fun _ => (0, 0)) = ([], []) := by
    unfold Convert.classifyEvent
    induction legs with
    | nil => rfl
    | cons l ls ih => exact ih
  have hplan : e.plan ledger floor = planEvent [] [] e.legs.length := by
    rw [Event.plan, planEventFromBalances, hpairs, hnone]
    rfl
  rw [Event.Idle, hplan]
  exact ⟨rfl, rfl⟩

include hfloor

/-- The scan calls an event actionable exactly where there is something to plan. -/
theorem Truthful.actionable_iff {e : Event} (he : e ∈ P.events) :
    (classOf scan.parse e.legs positions opts.delays).actionable = false ↔
      e.Idle opts.delays.singleLegMinQtyRaw ledger := by
  have hsizes := legSizes_report (htrue.rows e he) (htrue.tokens e he)
  have hclamp : singleLegMinQty opts.delays = toShares opts.delays.singleLegMinQtyRaw := by
    rw [singleLegMinQty, Nat.min_eq_left (by omega)]
  rw [legPairs_eq hshows ledger he] at hsizes
  rw [classOf, hsizes, hclamp]
  have hmerges : (classifyEvent e.legs ((ledger.pairs e.legs).map (Prod.map toShares toShares))
      (toShares opts.delays.singleLegMinQtyRaw)).mergeable = false ↔
      (e.plan ledger opts.delays.singleLegMinQtyRaw).merges = [] := by
    rw [classifyEvent, tally_eq, decide_eq_false_iff_not, Nat.not_lt, Nat.le_zero]
    exact List.length_eq_zero_iff
  have htiers := not_congr (convertible_iff e.legs (ledger.pairs e.legs)
    opts.delays.singleLegMinQtyRaw maxLegsPerConvert)
  rw [Bool.not_eq_true, not_not] at htiers
  rw [EventClassification.actionable, Bool.or_eq_false_iff, hmerges, htiers]
  rfl

end Truthful

section Publish
variable {P : Portfolio} {name : Event → String} {bal : Nat → Nat}

theorem batchTokenIds_legs (P : Portfolio) :
    batchTokenIds P.legs = P.events.flatMap fun e => batchTokenIds e.legs := List.flatMap_assoc

theorem publishRows_positions : (publishRows name P.events bal).map (·.toPosition) =
    (batchTokenIds P.legs).map fun t => ⟨t.repr, toShares (bal t), "", "", true⟩ := by
  rw [publishRows, batchTokenIds_legs, List.map_flatMap, List.map_flatMap]
  apply List.flatMap_congr
  intro e _
  rw [List.map_map]
  rfl

theorem rowsOfToken_publish (htokens : (batchTokenIds P.legs).Nodup) {t : Nat}
    (ht : t ∈ batchTokenIds P.legs) :
    rowsOfToken readers t ((publishRows name P.events bal).map (·.toPosition)) =
      [⟨t.repr, toShares (bal t), "", "", true⟩] := by
  have hasset : ((fun p : Position => decide (readers.u256 p.asset = some t)) ∘
      fun t' : Nat => ⟨t'.repr, toShares (bal t'), "", "", true⟩) = fun t' => decide (t' = t) := by
    funext t'
    have hread : readers.u256 t'.repr = some t' := Lib.Text.readDec_repr t'
    simp only [Function.comp_apply, hread, Option.some.injEq]
  rw [rowsOfToken, publishRows_positions, List.filter_map, hasset, List.filter_eq,
    List.count_eq_one_of_mem htokens ht]
  rfl

theorem event_of_token (htokens : (batchTokenIds P.legs).Nodup) {e f : Event} (he : e ∈ P.events)
    (hf : f ∈ P.events) {t : Nat} (ht : t ∈ batchTokenIds e.legs) (ht' : t ∈ batchTokenIds f.legs) :
    e = f := by
  rw [batchTokenIds_legs] at htokens
  have : Std.Symm fun e f : Event => List.Disjoint (batchTokenIds e.legs) (batchTokenIds f.legs) :=
    ⟨fun _ _ h => h.symm⟩
  by_contra hne
  exact (List.nodup_flatMap.mp htokens).2.forall he hf hne ht ht'

/-- What the services publish of a portfolio with distinct names and tokens is true. -/
theorem truthful_publish (hyes : ∀ l ∈ P.legs, l.yesTokenId.isSome = true)
    (hname : ∀ e ∈ P.events, ∀ f ∈ P.events, name f = name e → f = e)
    (hnamed : ∀ e ∈ P.events, name e ≠ "") (hlegs : ∀ e ∈ P.events, 2 ≤ e.legs.length)
    (htokens : (batchTokenIds P.legs).Nodup) :
    Truthful P name (publish name P.events bal) bal (publishRows name P.events bal) := by
  have hyes' {e : Event} (he : e ∈ P.events) : ∀ l ∈ e.legs, l.yesTokenId.isSome = true :=
    fun l hl => hyes l (List.mem_flatMap.mpr ⟨e, he, hl⟩)
  have htoken {e : Event} (he : e ∈ P.events) {t : Nat} (ht : t ∈ batchTokenIds e.legs) :
      t ∈ batchTokenIds P.legs := by
    rw [batchTokenIds_legs]
    exact List.mem_flatMap.mpr ⟨e, he, ht⟩
  constructor
  case rows =>
    intro e he
    constructor
    case held =>
      intro t ht _
      exact congrArg _ (rowsOfToken_publish htokens (htoken he ht))
    case unheld =>
      intro t ht hzero p hp
      have hrows : rowsOfToken readers t
          ((publishRows name P.events bal).map (·.toPosition)) = _ :=
        rowsOfToken_publish htokens (htoken he ht)
      obtain rfl := List.mem_singleton.mp (hrows ▸ hp)
      exact (congrArg toShares hzero).trans toShares_zero
  case slug =>
    intro e he t ht p hp hasset
    obtain ⟨f, hf, hp⟩ := List.mem_flatMap.mp hp
    obtain ⟨t', ht', rfl⟩ := List.mem_map.mp hp
    obtain rfl : t' = t := Option.some.inj ((Lib.Text.readDec_repr t').symm.trans hasset)
    obtain rfl := event_of_token htokens he hf ht ht'
    exact ⟨rfl, rfl⟩
  case named => exact hnamed
  case resolves =>
    intro e he
    exact ⟨_, resolveEvent_publish_self he (hname e he) (hyes' he) (hlegs e he), rfl⟩
  case honest =>
    intro slug he h
    obtain ⟨e, hin, rfl, rfl⟩ := resolveEvent_publish (fun e he => hyes' he) h
    exact ⟨e, hin, rfl, rfl⟩
  case tokens =>
    intro e he
    rw [batchTokenIds_legs] at htokens
    exact (List.nodup_flatMap.mp htokens).1 e he

end Publish

/-! ## One sweep, and the next -/

/-- Where nothing is actionable nothing is submitted. -/
theorem sweepEvents_quiet (env : Env) (now : Nat) (delays : ConvertDelays)
    {rows : List (HeldEvent × SweepReport)}
    (hquiet : ∀ row ∈ rows, row.2.classification.actionable = false) (acc : Progress) :
    rows.foldl (sweepEvent env now delays) acc = acc := by
  induction rows with
  | nil => rfl
  | cons row rows ih =>
    obtain ⟨hrow, hrest⟩ := List.forall_mem_cons.mp hquiet
    rw [List.foldl_cons, sweepEvent, if_pos hrow, ih hrest]

theorem sweepAll_eq {env : Env} {scan : Scan} {opts : SweepOptions} {now : Nat} {w : World}
    {positions : List HeldPosition} (hlist : scan.allPositions opts.minShares = .ok positions) :
    let events := (heldSlugs opts positions).filterMap (resolveEvent scan)
    sweepAll env scan opts now w = .ok ((events.map (reported scan.parse positions opts.delays)).foldl
      (sweepEvent env now opts.delays)
      { summary := { heldEvents := events.length }, outcomes := [], world := w }) := by
  intro events
  rw [sweepAll, discover_ok hlist, ← classify_zip]
  rfl

/-- An idle event has freed all its value. -/
theorem value_of_idle {e : Event} {floor : Nat} {ledger : Ledger}
    (hcid : ∀ l ∈ e.legs, l.conditionId.isSome = true) (h : e.Idle floor ledger) :
    e.value ledger = 0 := by
  rw [← planCredit_eq_value e ledger floor hcid, planCredit, h.1, h.2]
  rfl

section Sweeps
variable {P : Portfolio} {name : Event → String} {opts : SweepOptions}
  (hfloor : opts.delays.singleLegMinQtyRaw < 2 ^ 128)
include hfloor

/-- With every asked-for event idle a sweep has nothing to do. -/
theorem sweepAll_idle {env : Env} (hshows : Shows P env) {scan : Scan} {ledger : Ledger}
    {positions : List HeldPosition} (hlist : scan.allPositions opts.minShares = .ok positions)
    (htrue : Truthful P name scan (env.balanceOf ledger) positions)
    (hidle : ∀ e ∈ P.events, Selected opts name e →
      e.Idle opts.delays.singleLegMinQtyRaw ledger) (now : Nat) (w : World) :
    ∃ held, sweepAll env scan opts now w =
      .ok { summary := { heldEvents := held }, outcomes := [], world := w } := by
  refine ⟨_, (sweepAll_eq hlist).trans (congrArg Except.ok (sweepEvents_quiet env now _ ?_ _))⟩
  intro row hrow
  obtain ⟨he, hmem, rfl⟩ := List.mem_map.mp hrow
  obtain ⟨e, hin, _, hlegs, hsel, _⟩ := htrue.mem_discovered.mp hmem
  show (classOf scan.parse he.legs positions opts.delays).actionable = false
  rw [hlegs]
  exact (htrue.actionable_iff hshows hfloor hin).mpr (hidle e hin hsel)

/-- After a sweep that nothing rejected every asked-for event is idle, and the others are
as they were. -/
theorem sweepAll_accepted {env : Env} (hshows : Shows P env) (haccepts : Accepts env) {scan : Scan}
    {start : Ledger} {positions : List HeldPosition}
    (hlist : scan.allPositions opts.minShares = .ok positions)
    (htrue : Truthful P name scan (env.balanceOf start) positions)
    (hbal : ∀ l ∈ P.legs, start.no l.questionId < wordSize) (now : Nat) :
    ∃ run, sweepAll env scan opts now (World.init start) = .ok run ∧ run.summary.failed = 0 ∧
      Reachable P start run.world.ledger ∧
      (∀ e ∈ P.events, Selected opts name e →
        e.Idle opts.delays.singleLegMinQtyRaw run.world.ledger) ∧
      ∀ e ∈ P.events, ¬ Selected opts name e → Untouched e start run.world.ledger := by
  have hrun : sweepAll env scan opts now (World.init start) = _ := sweepAll_eq hlist
  generalize hevents : (heldSlugs opts positions).filterMap (resolveEvent scan) = events at hrun
  have hfound {he : HeldEvent} : he ∈ events ↔ ∃ e ∈ P.events, resolveEvent scan (name e) = some he ∧
      he.legs = e.legs ∧ Selected opts name e ∧ name e ∈ heldSlugs opts positions := by
    rw [← hevents]
    exact htrue.mem_discovered
  have hrows : ∀ row ∈ events.map (reported scan.parse positions opts.delays),
      ∃ e ∈ P.events, row.1.legs = e.legs := by
    intro row hrow
    obtain ⟨he, hmem, rfl⟩ := List.mem_map.mp hrow
    obtain ⟨e, hin, _, hlegs, _⟩ := hfound.mp hmem
    exact ⟨e, hin, hlegs⟩
  have hinv := swept_loop hshows now opts.delays hbal hrows events.length
  have hok := sweepEvents_accepts haccepts hshows now opts.delays hbal hrows events.length
  refine ⟨_, hrun, ?_⟩
  generalize List.foldl (sweepEvent env now opts.delays) _ _ = run at hinv hok ⊢
  have hran {he : HeldEvent} : (∃ o ∈ run.outcomes, o.1 = he) ↔
      he ∈ events ∧ (classOf scan.parse he.legs positions opts.delays).actionable = true := by
    rw [← List.mem_map (f := Prod.fst), hinv.ran, List.filter_map, List.map_map]
    simp [reported]
  refine ⟨?_, hinv.reach, ?_, ?_⟩
  · rw [hinv.failed, List.countP_eq_zero]
    intro o ho
    simp [hok o ho]
  · intro e he hsel
    by_cases hself : ∃ o ∈ run.outcomes, o.1.legs = e.legs
    · obtain ⟨o, ho, hlegs⟩ := hself
      exact hinv.idle e he o ho hlegs (hok o ho)
    · have hnone : ∀ o ∈ run.outcomes, o.1.legs ≠ e.legs := fun o ho h => hself ⟨o, ho, h⟩
      refine (hinv.untouched e he hnone).idle ?_
      by_cases hslug : name e ∈ heldSlugs opts positions
      · obtain ⟨held, hres, hlegs⟩ := htrue.resolves e he
        have hmem : held ∈ events := hfound.mpr ⟨e, he, hres, hlegs, hsel, hslug⟩
        rw [← htrue.actionable_iff hshows hfloor he, ← hlegs, Bool.eq_false_iff]
        intro hact
        obtain ⟨o, ho, rfl⟩ := hran.mpr ⟨hmem, hact⟩
        exact hnone o ho hlegs
      · exact htrue.idle_unlisted hshows he hsel hslug _
  · intro e he hunsel
    refine hinv.untouched e he fun o ho hlegs => hunsel ?_
    obtain ⟨f, hf, _, hflegs, hfsel, _⟩ := hfound.mp (hran.mp ⟨o, ho, rfl⟩).1
    rwa [event_eq (hlegs.symm.trans hflegs)]

end Sweeps

def steadyEnv : Env := { stubbornEnv with answer := fun _ => .ok "tx" }

theorem steadyEnv_shows : Shows twoMarkets steadyEnv :=
  ⟨stubbornEnv_shows.listed, stubbornEnv_shows.reads, stubbornEnv_shows.yes⟩

theorem twoMarketsScan_truthful (ledger : Ledger) :
    Truthful twoMarkets eventName (twoMarketsScan ledger) (steadyEnv.balanceOf ledger)
      (publishRows eventName twoMarkets.events (tokenBalance twoMarkets.legs ledger)) := by
  refine truthful_publish (by decide) ?_ (by decide) (by decide) (by decide)
  intro e he f hf h
  rcases List.mem_pair.mp he with rfl | rfl <;> rcases List.mem_pair.mp hf with rfl | rfl
  · rfl
  · exact absurd h (by decide)
  · exact absurd h (by decide)
  · rfl

end Eggplant.Sweep
