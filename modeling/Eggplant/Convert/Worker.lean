import Eggplant.Convert.Engine

/-!
# The convert worker

`convert_worker` as a step relation: the channel, the two waits, the drain, the
cycle and the reports are separate steps, and jobs may arrive between any two of
them. What a cycle returns is arbitrary. The histories `queued` and `cycles` only
record what happened.
-/
namespace Eggplant.Convert

set_option autoImplicit false

structure ConvertResult where
  slug : String
  amountRaw : Nat
  nLegs : Nat
  success : Bool
  quotaBlocked : Bool
  attempts : Nat
  detail : String
  deriving DecidableEq

/-- Remaining wait of the youngest job; zero for no jobs. -/
def fillResidual (batch : List ConvertJob) (now fillDelay : Nat) : Nat :=
  (batch.map (fun j => fillDelay - (now - j.queuedAt))).foldr max 0

def dedupFrom : List String → List ConvertJob → List ConvertJob
  | _, [] => []
  | seen, j :: js => if j.slug ∈ seen then dedupFrom seen js else j :: dedupFrom (j.slug :: seen) js

def dedupBySlug (batch : List ConvertJob) : List ConvertJob := dedupFrom [] batch

/-- The result sent for a job of a cycle with this outcome. -/
def resultOf (outcome : Except Error String) (job : ConvertJob) : ConvertResult :=
  match outcome with
  | .ok detail =>
      { slug := job.slug, amountRaw := job.amountRaw, nLegs := job.legs.length, success := true,
        quotaBlocked := false, attempts := job.attempts, detail }
  | .error (.relayerQuotaExhausted _) =>
      { slug := job.slug, amountRaw := job.amountRaw, nLegs := job.legs.length, success := false,
        quotaBlocked := true, attempts := job.attempts, detail := "quota exhausted" }
  | .error e =>
      { slug := job.slug, amountRaw := job.amountRaw, nLegs := job.legs.length, success := false,
        quotaBlocked := false, attempts := job.attempts, detail := e.display }

inductive Phase where
  | receiving
  | fillWait (batch : List ConvertJob) (wake : Nat)
  | draining (batch : List ConvertJob)
  | topUp (batch : List ConvertJob) (wake : Nat)
  | running (batch uniques : List ConvertJob)
  | reporting (outcome : Except Error String) (left : List ConvertJob)
  | backoff (wake : Nat)
  | stopped

/-- One finished cycle: the jobs consumed, those `process_jobs` ran on, what it returned. -/
structure Cycle where
  batch : List ConvertJob
  uniques : List ConvertJob
  outcome : Except Error String

structure Worker where
  clock : Nat
  channel : List ConvertJob
  sendersAlive : Bool
  phase : Phase
  results : List ConvertResult
  queued : List ConvertJob
  cycles : List Cycle

def Worker.init : Worker where
  clock := 0
  channel := []
  sendersAlive := true
  phase := .receiving
  results := []
  queued := []
  cycles := []

/-- What happens around the worker: time passes, jobs arrive, the senders go away. -/
inductive Outside : Worker → Worker → Prop where
  | tick (w : Worker) (elapsed : Nat) : Outside w { w with clock := w.clock + elapsed }
  | send (w : Worker) (job : ConvertJob) (halive : w.sendersAlive = true) :
      Outside w { w with channel := w.channel ++ [job], queued := w.queued ++ [job] }
  | dropSenders (w : Worker) : Outside w { w with sendersAlive := false }

section Steps
variable (delays : ConvertDelays)

/-- The phase after the last report: a failed cycle is followed by the backoff. -/
def afterReports (now : Nat) : Except Error String → Phase
  | .ok _ => .receiving
  | .error _ => .backoff (now + delays.retryBackoff)

inductive Work : Worker → Worker → Prop where
  | receive (w : Worker) (first : ConvertJob) (rest : List ConvertJob)
      (hphase : w.phase = .receiving) (hchannel : w.channel = first :: rest) :
      Work w { w with channel := rest,
                      phase := .fillWait [first]
                        (w.clock + fillResidual [first] w.clock delays.fillToConvert) }
  | stop (w : Worker) (hphase : w.phase = .receiving) (hchannel : w.channel = [])
      (hdropped : w.sendersAlive = false) : Work w { w with phase := .stopped }
  | wake (w : Worker) (batch : List ConvertJob) (wake : Nat)
      (hphase : w.phase = .fillWait batch wake) (hwake : wake ≤ w.clock) :
      Work w { w with phase := .draining batch }
  | drain (w : Worker) (batch : List ConvertJob) (job : ConvertJob) (rest : List ConvertJob)
      (hphase : w.phase = .draining batch) (hchannel : w.channel = job :: rest) :
      Work w { w with channel := rest, phase := .draining (batch ++ [job]) }
  | drained (w : Worker) (batch : List ConvertJob) (hphase : w.phase = .draining batch)
      (hchannel : w.channel = []) :
      Work w { w with phase := .topUp batch
                        (w.clock + fillResidual batch w.clock delays.fillToConvert) }
  | start (w : Worker) (batch : List ConvertJob) (wake : Nat)
      (hphase : w.phase = .topUp batch wake) (hwake : wake ≤ w.clock) :
      Work w { w with phase := .running batch (dedupBySlug batch) }
  | finish (w : Worker) (batch uniques : List ConvertJob) (outcome : Except Error String)
      (hphase : w.phase = .running batch uniques) :
      Work w { w with phase := .reporting outcome batch,
                      cycles := w.cycles ++ [{ batch, uniques, outcome }] }
  | report (w : Worker) (outcome : Except Error String) (job : ConvertJob) (left : List ConvertJob)
      (hphase : w.phase = .reporting outcome (job :: left)) :
      Work w { w with phase := .reporting outcome left, results := w.results ++ [resultOf outcome job] }
  | reported (w : Worker) (outcome : Except Error String) (hphase : w.phase = .reporting outcome []) :
      Work w { w with phase := afterReports delays w.clock outcome }
  | resume (w : Worker) (wake : Nat) (hphase : w.phase = .backoff wake) (hwake : wake ≤ w.clock) :
      Work w { w with phase := .receiving }

def Step (w w' : Worker) : Prop := Outside w w' ∨ Work delays w w'

abbrev Runs : Worker → Worker → Prop := Relation.ReflTransGen (Step delays)

end Steps

/-! ## One job per slug -/

private theorem mem_dedupFrom (seen : List String) (batch : List ConvertJob) {j : ConvertJob}
    (h : j ∈ dedupFrom seen batch) : j ∈ batch ∧ j.slug ∉ seen := by
  induction batch generalizing seen with
  | nil => cases h
  | cons k ks ih =>
    rw [dedupFrom] at h
    by_cases hk : k.slug ∈ seen
    · rw [if_pos hk] at h
      obtain ⟨hmem, hnew⟩ := ih seen h
      exact ⟨List.mem_cons_of_mem k hmem, hnew⟩
    · rw [if_neg hk] at h
      rcases List.mem_cons.mp h with rfl | h
      · exact ⟨List.mem_cons_self, hk⟩
      · obtain ⟨hmem, hnew⟩ := ih (k.slug :: seen) h
        exact ⟨List.mem_cons_of_mem k hmem, fun hs => hnew (List.mem_cons_of_mem k.slug hs)⟩

private theorem dedupFrom_slugs (seen : List String) (batch : List ConvertJob) :
    ((dedupFrom seen batch).map (·.slug)).Nodup ∧
      ∀ j ∈ batch, j.slug ∉ seen → j.slug ∈ (dedupFrom seen batch).map (·.slug) := by
  induction batch generalizing seen with
  | nil => exact ⟨List.nodup_nil, fun j hj => nomatch hj⟩
  | cons k ks ih =>
    rw [dedupFrom]
    by_cases hk : k.slug ∈ seen
    · rw [if_pos hk]
      obtain ⟨hnodup, hcover⟩ := ih seen
      refine ⟨hnodup, ?_⟩
      intro j hj hnew
      rcases List.mem_cons.mp hj with rfl | hj
      · exact absurd hk hnew
      · exact hcover j hj hnew
    · rw [if_neg hk, List.map_cons]
      obtain ⟨hnodup, hcover⟩ := ih (k.slug :: seen)
      constructor
      · refine List.nodup_cons.mpr ⟨?_, hnodup⟩
        intro hin
        obtain ⟨j, hj, hslug⟩ := List.mem_map.mp hin
        exact (mem_dedupFrom _ _ hj).2 (hslug ▸ List.mem_cons_self)
      · intro j hj hnew
        rcases List.mem_cons.mp hj with rfl | hj
        · exact List.mem_cons_self
        · by_cases hsame : j.slug = k.slug
          · rw [hsame]
            exact List.mem_cons_self
          · have hnew' : j.slug ∉ k.slug :: seen := by
              rw [List.mem_cons, not_or]
              exact ⟨hsame, hnew⟩
            exact List.mem_cons_of_mem _ (hcover j hj hnew')

/-- Every slug of the batch, once, each by a job of the batch. -/
structure OnePerSlug (batch uniques : List ConvertJob) : Prop where
  fromBatch : ∀ j ∈ uniques, j ∈ batch
  distinct : (uniques.map (·.slug)).Nodup
  covers : ∀ j ∈ batch, j.slug ∈ uniques.map (·.slug)

theorem dedupBySlug_onePerSlug (batch : List ConvertJob) : OnePerSlug batch (dedupBySlug batch) where
  fromBatch := fun _ hj => (mem_dedupFrom [] batch hj).1
  distinct := (dedupFrom_slugs [] batch).1
  covers := fun j hj => (dedupFrom_slugs [] batch).2 j hj List.not_mem_nil

/-! ## Accounting -/

/-- Consumed jobs whose cycle has not returned yet. -/
def Phase.collecting : Phase → List ConvertJob
  | .fillWait batch _ => batch
  | .draining batch => batch
  | .topUp batch _ => batch
  | .running batch _ => batch
  | _ => []

/-- Results of the last cycle still to be sent. -/
def Phase.unsent : Phase → List ConvertResult
  | .reporting outcome left => left.map (resultOf outcome)
  | _ => []

def Cycle.results (c : Cycle) : List ConvertResult := c.batch.map (resultOf c.outcome)

structure Accounted (w : Worker) : Prop where
  jobs : w.queued = w.cycles.flatMap Cycle.batch ++ w.phase.collecting ++ w.channel
  results : w.results ++ w.phase.unsent = w.cycles.flatMap Cycle.results
  uniques : ∀ c ∈ w.cycles, OnePerSlug c.batch c.uniques
  running : ∀ batch uniques, w.phase = .running batch uniques → OnePerSlug batch uniques
  stopped : w.phase = .stopped → w.channel = [] ∧ w.sendersAlive = false

theorem accounted_init : Accounted Worker.init where
  jobs := rfl
  results := rfl
  uniques := fun _ hc => nomatch hc
  running := nofun
  stopped := nofun

theorem outside_accounted {w w' : Worker} (h : Outside w w') (ha : Accounted w) : Accounted w' := by
  cases h with
  | tick elapsed => exact ⟨ha.jobs, ha.results, ha.uniques, ha.running, ha.stopped⟩
  | send job halive =>
    refine ⟨?_, ha.results, ha.uniques, ha.running, ?_⟩
    · rw [ha.jobs, List.append_assoc]
    · -- a stopped worker has no senders left
      intro hstop
      have hdropped := (ha.stopped hstop).2
      rw [halive] at hdropped
      cases hdropped
  | dropSenders => exact ⟨ha.jobs, ha.results, ha.uniques, ha.running, fun h => ⟨(ha.stopped h).1, rfl⟩⟩

theorem work_accounted {delays : ConvertDelays} {w w' : Worker} (h : Work delays w w')
    (ha : Accounted w) : Accounted w' := by
  obtain ⟨hjobs, hresults, huniques, hrunning, _⟩ := ha
  cases h with
  | receive first rest hphase hchannel =>
    rw [hphase] at hjobs hresults
    rw [hchannel] at hjobs
    exact ⟨by simpa [Phase.collecting] using hjobs, hresults, huniques, nofun,
      nofun⟩
  | stop hphase hchannel hdropped =>
    rw [hphase] at hjobs hresults
    exact ⟨hjobs, hresults, huniques, nofun, fun _ => ⟨hchannel, hdropped⟩⟩
  | wake batch wake hphase hwake =>
    rw [hphase] at hjobs hresults
    exact ⟨hjobs, hresults, huniques, nofun, nofun⟩
  | drain batch job rest hphase hchannel =>
    rw [hphase] at hjobs hresults
    rw [hchannel] at hjobs
    exact ⟨by simpa [Phase.collecting] using hjobs, hresults, huniques, nofun,
      nofun⟩
  | drained batch hphase hchannel =>
    rw [hphase] at hjobs hresults
    exact ⟨hjobs, hresults, huniques, nofun, nofun⟩
  | start batch wake hphase hwake =>
    rw [hphase] at hjobs hresults
    refine ⟨hjobs, hresults, huniques, ?_, nofun⟩
    intro _ _ h
    cases h
    exact dedupBySlug_onePerSlug batch
  | finish batch uniques outcome hphase =>
    have hone := hrunning batch uniques hphase
    rw [hphase] at hjobs hresults
    refine ⟨?_, ?_, ?_, nofun, nofun⟩
    · rw [hjobs]
      simp [Phase.collecting]
    · simp only [Phase.unsent, List.append_nil] at hresults
      simp [Phase.unsent, hresults, Cycle.results]
    · intro c hc
      rcases List.mem_append.mp hc with hc | hc
      · exact huniques c hc
      · obtain rfl := List.mem_singleton.mp hc
        exact hone
  | report outcome job left hphase =>
    rw [hphase] at hjobs hresults
    refine ⟨hjobs, ?_, huniques, nofun, nofun⟩
    simpa [Phase.unsent] using hresults
  | reported outcome hphase =>
    rw [hphase] at hjobs hresults
    cases outcome with
    | ok detail =>
      exact ⟨hjobs, hresults, huniques, nofun, nofun⟩
    | error e =>
      exact ⟨hjobs, hresults, huniques, nofun, nofun⟩
  | resume wake hphase hwake =>
    rw [hphase] at hjobs hresults
    exact ⟨hjobs, hresults, huniques, nofun, nofun⟩

theorem runs_accounted {delays : ConvertDelays} {w : Worker} (h : Runs delays Worker.init w) :
    Accounted w := by
  induction h with
  | refl => exact accounted_init
  | tail _ step ih =>
    rcases step with hout | hwork
    · exact outside_accounted hout ih
    · exact work_accounted hwork ih

/-! ## Reaching the end -/

/-- Bounds the worker's own steps once no more jobs can arrive. -/
def Phase.remaining : Phase → Nat
  | .stopped => 0
  | .receiving => 1
  | .backoff _ => 2
  | .reporting _ left => left.length + 3
  | .running batch _ => batch.length + 4
  | .topUp batch _ => batch.length + 5
  | .draining batch => batch.length + 6
  | .fillWait batch _ => batch.length + 7

def Worker.remaining (w : Worker) : Nat := w.phase.remaining + 8 * w.channel.length

theorem work_remaining {delays : ConvertDelays} {w w' : Worker} (h : Work delays w w') :
    w'.remaining < w.remaining ∧ w'.sendersAlive = w.sendersAlive ∧ w'.queued = w.queued := by
  cases h with
  | receive first rest hphase hchannel =>
    refine ⟨?_, rfl, rfl⟩
    simp only [Worker.remaining, hphase, hchannel, Phase.remaining, List.length_cons, List.length_nil]
    omega
  | stop hphase hchannel hdropped =>
    refine ⟨?_, rfl, rfl⟩
    simp only [Worker.remaining, hphase, Phase.remaining]
    omega
  | wake batch wake hphase hwake =>
    refine ⟨?_, rfl, rfl⟩
    simp only [Worker.remaining, hphase, Phase.remaining]
    omega
  | drain batch job rest hphase hchannel =>
    refine ⟨?_, rfl, rfl⟩
    simp only [Worker.remaining, hphase, hchannel, Phase.remaining, List.length_append,
      List.length_cons, List.length_nil]
    omega
  | drained batch hphase hchannel =>
    refine ⟨?_, rfl, rfl⟩
    simp only [Worker.remaining, hphase, Phase.remaining]
    omega
  | start batch wake hphase hwake =>
    refine ⟨?_, rfl, rfl⟩
    simp only [Worker.remaining, hphase, Phase.remaining]
    omega
  | finish batch uniques outcome hphase =>
    refine ⟨?_, rfl, rfl⟩
    simp only [Worker.remaining, hphase, Phase.remaining]
    omega
  | report outcome job left hphase =>
    refine ⟨?_, rfl, rfl⟩
    simp only [Worker.remaining, hphase, Phase.remaining, List.length_cons]
    omega
  | reported outcome hphase =>
    refine ⟨?_, rfl, rfl⟩
    cases outcome with
    | ok detail =>
      simp only [Worker.remaining, hphase, afterReports, Phase.remaining, List.length_nil]
      omega
    | error e =>
      simp only [Worker.remaining, hphase, afterReports, Phase.remaining, List.length_nil]
      omega
  | resume wake hphase hwake =>
    refine ⟨?_, rfl, rfl⟩
    simp only [Worker.remaining, hphase, Phase.remaining]
    omega

/-- Once the senders are gone the worker can always go on, if need be after a wait. -/
theorem work_enabled (delays : ConvertDelays) {w : Worker} (hdropped : w.sendersAlive = false)
    (hrun : w.phase ≠ .stopped) :
    ∃ elapsed w', Work delays { w with clock := w.clock + elapsed } w' := by
  cases hphase : w.phase with
  | receiving =>
    cases hchannel : w.channel with
    | nil => exact ⟨0, _, .stop _ rfl rfl hdropped⟩
    | cons first rest => exact ⟨0, _, .receive _ first rest rfl rfl⟩
  | fillWait batch wake => exact ⟨wake, _, .wake _ batch wake rfl (Nat.le_add_left _ _)⟩
  | draining batch =>
    cases hchannel : w.channel with
    | nil => exact ⟨0, _, .drained _ batch rfl rfl⟩
    | cons job rest => exact ⟨0, _, .drain _ batch job rest rfl rfl⟩
  | topUp batch wake => exact ⟨wake, _, .start _ batch wake rfl (Nat.le_add_left _ _)⟩
  | running batch uniques => exact ⟨0, _, .finish _ batch uniques (.ok "") rfl⟩
  | reporting outcome left =>
    cases left with
    | nil => exact ⟨0, _, .reported _ outcome rfl⟩
    | cons job left => exact ⟨0, _, .report _ outcome job left rfl⟩
  | backoff wake => exact ⟨wake, _, .resume _ wake rfl (Nat.le_add_left _ _)⟩
  | stopped => exact absurd hphase hrun

/-- Every worker whose senders are gone can run to its end. -/
theorem runs_to_stop (delays : ConvertDelays) (w : Worker) (hdropped : w.sendersAlive = false) :
    ∃ w', Runs delays w w' ∧ w'.phase = .stopped ∧ w'.queued = w.queued := by
  by_cases hstop : w.phase = .stopped
  · exact ⟨w, .refl, hstop, rfl⟩
  · obtain ⟨elapsed, next, hwork⟩ := work_enabled delays hdropped hstop
    obtain ⟨hless, halive, hqueued⟩ := work_remaining hwork
    have hless' : next.remaining < w.remaining := hless
    obtain ⟨last, hrun, hend, hsame⟩ := runs_to_stop delays next (halive.trans hdropped)
    refine ⟨last, ?_, hend, hsame.trans hqueued⟩
    exact .head (Or.inl (.tick w elapsed)) (.head (Or.inr hwork) hrun)
termination_by w.remaining

/-- Runs with the number of steps the worker itself takes. -/
inductive CountedRun (delays : ConvertDelays) : Worker → Nat → Worker → Prop where
  | refl (w : Worker) : CountedRun delays w 0 w
  | outside {w mid last : Worker} {n : Nat} (h : Outside w mid)
      (tail : CountedRun delays mid n last) : CountedRun delays w n last
  | work {w mid last : Worker} {n : Nat} (h : Work delays w mid)
      (tail : CountedRun delays mid n last) : CountedRun delays w (n + 1) last

theorem countedRun_le {delays : ConvertDelays} {w w' : Worker} {n : Nat}
    (h : CountedRun delays w n w') (hdropped : w.sendersAlive = false) : n ≤ w.remaining := by
  induction h with
  | refl => exact Nat.zero_le _
  | outside hout _ ih =>
    cases hout with
    | tick elapsed => exact ih hdropped
    | send job halive =>
      rw [hdropped] at halive
      cases halive
    | dropSenders => exact ih rfl
  | work hwork _ ih =>
    obtain ⟨hless, halive, _⟩ := work_remaining hwork
    have hle := ih (halive.trans hdropped)
    omega

/-! ## One result per job -/

structure Echoes (job : ConvertJob) (result : ConvertResult) : Prop where
  slug : result.slug = job.slug
  amountRaw : result.amountRaw = job.amountRaw
  nLegs : result.nLegs = job.legs.length
  attempts : result.attempts = job.attempts

theorem resultOf_echoes (outcome : Except Error String) (job : ConvertJob) :
    Echoes job (resultOf outcome job) := by
  cases outcome with
  | ok detail => exact ⟨rfl, rfl, rfl, rfl⟩
  | error e => cases e <;> exact ⟨rfl, rfl, rfl, rfl⟩

theorem resultOf_success (outcome : Except Error String) (job : ConvertJob) :
    (resultOf outcome job).success = true ↔ ∃ detail, outcome = .ok detail := by
  cases outcome with
  | ok detail => exact ⟨fun _ => ⟨detail, rfl⟩, fun _ => rfl⟩
  | error e => cases e <;> simp [resultOf]

theorem resultOf_quotaBlocked (outcome : Except Error String) (job : ConvertJob) :
    (resultOf outcome job).quotaBlocked = true ↔
      ∃ secs, outcome = .error (.relayerQuotaExhausted secs) := by
  cases outcome with
  | ok detail => simp [resultOf]
  | error e => cases e <;> simp [resultOf]

private theorem cycles_echo (cycles : List Cycle) :
    List.Forall₂ Echoes (cycles.flatMap Cycle.batch) (cycles.flatMap Cycle.results) := by
  induction cycles with
  | nil => exact .nil
  | cons c cs ih =>
    rw [List.flatMap_cons, List.flatMap_cons]
    refine List.rel_append ?_ ih
    rw [Cycle.results, List.forall₂_map_right_iff]
    exact List.forall₂_same.mpr (fun job _ => resultOf_echoes c.outcome job)

/-- Results sent so far echo the first jobs queued, one for one and in order. -/
theorem accounted_echo {w : Worker} (ha : Accounted w) :
    List.Forall₂ Echoes (w.queued.take w.results.length) w.results := by
  have hall := cycles_echo w.cycles
  rw [← ha.results] at hall
  have hlen := hall.length_eq
  have hprefix := List.forall₂_take w.results.length hall
  rw [List.take_left] at hprefix
  have hle : w.results.length ≤ (w.cycles.flatMap Cycle.batch).length := by
    rw [hlen, List.length_append]
    omega
  rwa [ha.jobs, List.append_assoc, List.take_append_of_le_length hle]

/-- Every reachable worker: each consumed job is in one cycle, in queue order, and
gets that cycle's result; each cycle runs one job a slug; a stopped worker has
answered every job; and without senders it stops within a bounded number of steps. -/
theorem worker_accounts_for_jobs (delays : ConvertDelays) (w : Worker)
    (h : Runs delays Worker.init w) :
    w.queued = w.cycles.flatMap Cycle.batch ++ w.phase.collecting ++ w.channel ∧
    w.results ++ w.phase.unsent = w.cycles.flatMap Cycle.results ∧
    List.Forall₂ Echoes (w.queued.take w.results.length) w.results ∧
    (∀ c ∈ w.cycles, ∀ r ∈ c.results,
      (r.success = true ↔ ∃ detail, c.outcome = .ok detail) ∧
      (r.quotaBlocked = true ↔ ∃ secs, c.outcome = .error (.relayerQuotaExhausted secs))) ∧
    (∀ c ∈ w.cycles, OnePerSlug c.batch c.uniques) ∧
    (∀ batch uniques, w.phase = .running batch uniques → OnePerSlug batch uniques) ∧
    (w.phase = .stopped → List.Forall₂ Echoes w.queued w.results) ∧
    (w.sendersAlive = false →
      (∃ w', Runs delays w w' ∧ w'.phase = .stopped ∧ w'.queued = w.queued) ∧
      ∀ n w', CountedRun delays w n w' → n ≤ w.remaining) := by
  have ha := runs_accounted h
  have hecho := accounted_echo ha
  refine ⟨ha.jobs, ha.results, hecho, ?_, ha.uniques, ha.running, ?_, ?_⟩
  · intro c _ r hr
    obtain ⟨job, _, rfl⟩ := List.mem_map.mp hr
    exact ⟨resultOf_success c.outcome job, resultOf_quotaBlocked c.outcome job⟩
  · intro hstop
    have hjobs := ha.jobs
    have hresults := ha.results
    rw [hstop, (ha.stopped hstop).1] at hjobs
    rw [hstop] at hresults
    simp only [Phase.collecting, Phase.unsent, List.append_nil] at hjobs hresults
    rw [hjobs, hresults]
    exact cycles_echo w.cycles
  · intro hdropped
    exact ⟨runs_to_stop delays w hdropped, fun n w' hrun => countedRun_le hrun hdropped⟩

/-- Two jobs of one event, queued before the senders went away: both are answered. -/
theorem worker_accounts_for_jobs_twice :
    let job : ConvertJob := ⟨"event", [], 7, 1, 0⟩
    let w : Worker := { Worker.init with
      channel := [job, job], queued := [job, job], sendersAlive := false }
    ∃ w', Runs {} w w' ∧ w'.phase = .stopped ∧ w'.results.map (·.slug) = ["event", "event"] := by
  intro job w
  have hinit : Runs {} Worker.init w :=
    .head (Or.inl (Outside.send Worker.init job rfl))
      (.head (Or.inl (Outside.send _ job rfl)) (.head (Or.inl (Outside.dropSenders _)) .refl))
  obtain ⟨_, _, _, _, _, _, _, hends⟩ := worker_accounts_for_jobs {} w hinit
  obtain ⟨⟨w', hrun, hstop, hqueued⟩, _⟩ := hends rfl
  obtain ⟨_, _, _, _, _, _, hall, _⟩ := worker_accounts_for_jobs {} w' (hinit.trans hrun)
  have hecho := hall hstop
  rw [hqueued] at hecho
  obtain ⟨r₁, rest, h₁, htail, hr⟩ := List.forall₂_cons_left_iff.mp hecho
  obtain ⟨r₂, rest', h₂, hnil, rfl⟩ := List.forall₂_cons_left_iff.mp htail
  refine ⟨w', hrun, hstop, ?_⟩
  rw [hr, List.forall₂_nil_left_iff.mp hnil, List.map_cons, List.map_cons, List.map_nil, h₁.slug,
    h₂.slug]

end Eggplant.Convert
