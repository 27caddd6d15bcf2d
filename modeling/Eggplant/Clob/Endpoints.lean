import Eggplant.Clob.Cancel

/-!
# One DELETE or many

An urgent cancel goes through the endpoint the poster is set to: one request for all ids,
or one request an id. A venue that answers for each id on its own is split the same way by
either, and by the chunked pass; a singular request that fails only keeps its own id.
-/
namespace Eggplant.Clob

set_option autoImplicit false

open Eggplant.Lib

inductive CancelEndpoint where
  | orders
  | order
  deriving DecidableEq

def CancelEndpoint.flipped : CancelEndpoint → CancelEndpoint
  | orders => order
  | order => orders

/-- `cancel_for_reprice`, given how the requests end. An empty pull is sent batched. -/
def cancelForReprice (endpoint : CancelEndpoint) (cancelOrders : List String → CancelResult)
    (cancelSingle : String → CancelResult) (orderIds : List String) : CancelResult :=
  if endpoint = .orders ∨ orderIds = [] then cancelOrders orderIds
  else cancelSingly (orderIds.map fun id => (id, cancelSingle id))

/-! ## A venue that answers id by id -/

inductive Verdict where
  | canceled
  | kept (reason : String)
  | silent

/-- The id is gone by the venue's own word. -/
def Verdict.gone : Verdict → Bool
  | canceled => true
  | kept reason => cancelReasonIsTerminal reason
  | silent => false

def Verdict.reason : Verdict → Option String
  | kept reason => some reason
  | _ => none

/-- The answer to a request for some ids. -/
def answerFor (verdict : String → Verdict) (ids : List String) : CancelOrdersResponse where
  canceled := ids.filter fun id => match verdict id with
    | .canceled => true
    | _ => false
  notCanceled := fun id => if id ∈ ids then (verdict id).reason else none

theorem mem_answerFor_canceled {verdict : String → Verdict} {ids : List String} {id : String} :
    id ∈ (answerFor verdict ids).canceled ↔ id ∈ ids ∧ verdict id = .canceled := by
  rw [answerFor, List.mem_filter]
  cases verdict id <;> simp

theorem answerFor_notCanceled {verdict : String → Verdict} {ids : List String} {id reason : String} :
    (answerFor verdict ids).notCanceled id = some reason ↔
      id ∈ ids ∧ verdict id = .kept reason := by
  by_cases hmem : id ∈ ids
  · cases hv : verdict id <;> simp [answerFor, hmem, hv, Verdict.reason]
  · simp [answerFor, hmem]

/-! ## Answers that agree about an id -/

/-- No answer says otherwise than `gone` about the id, and one says so where it is. -/
structure AgreeOn (responses : List CancelOrdersResponse) (id : String) (gone : Bool) : Prop where
  canceled : ∀ r ∈ responses, id ∈ r.canceled → gone = true
  reason : ∀ r ∈ responses, ∀ reason, r.notCanceled id = some reason →
    cancelReasonIsTerminal reason = gone
  told : gone = true → ∃ r ∈ responses, id ∈ r.canceled ∨ r.notCanceled id ≠ none

theorem AgreeOn.mergeAnswers_gone {responses : List CancelOrdersResponse} {id : String} {gone : Bool}
    (h : AgreeOn responses id gone) : (mergeAnswers responses).gone id = gone := by
  have hlast {reason : String} (hreason : lastReason responses id = some reason) :
      cancelReasonIsTerminal reason = gone := by
    obtain ⟨r, hr, hown⟩ := List.exists_of_findSome?_eq_some hreason
    exact h.reason r (List.mem_reverse.mp hr) reason hown
  rw [Bool.eq_iff_iff, Clob.mergeAnswers_gone]
  constructor
  · rintro (⟨r, hr, hmem⟩ | ⟨reason, hreason, hterminal⟩)
    · exact h.canceled r hr hmem
    · rw [← hlast hreason, hterminal]
  · intro hgone
    obtain ⟨r, hr, hmem | hown⟩ := h.told hgone
    · exact .inl ⟨r, hr, hmem⟩
    · right
      cases hreason : lastReason responses id with
      | none => exact absurd (List.findSome?_eq_none_iff.mp hreason r (List.mem_reverse.mpr hr)) hown
      | some reason => exact ⟨reason, rfl, (hlast hreason).trans hgone⟩

section Venue
variable (verdict : String → Verdict)

/-- Requests that cover an id between them agree with the venue's verdict. -/
theorem agreeOn_answers {chunks : List (List String)} {id : String}
    (hid : ∃ chunk ∈ chunks, id ∈ chunk) :
    AgreeOn (chunks.map (answerFor verdict)) id (verdict id).gone := by
  constructor
  case canceled =>
    intro r hr hmem
    obtain ⟨chunk, _, rfl⟩ := List.mem_map.mp hr
    rw [(mem_answerFor_canceled.mp hmem).2]
    rfl
  case reason =>
    intro r hr reason hreason
    obtain ⟨chunk, _, rfl⟩ := List.mem_map.mp hr
    rw [(answerFor_notCanceled.mp hreason).2]
    rfl
  case told =>
    intro hgone
    obtain ⟨chunk, hchunk, hmem⟩ := hid
    refine ⟨_, List.mem_map_of_mem hchunk, ?_⟩
    cases hv : verdict id with
    | canceled => exact .inl (mem_answerFor_canceled.mpr ⟨hmem, hv⟩)
    | kept reason =>
      have hown := answerFor_notCanceled.mpr ⟨hmem, hv⟩
      exact .inr (by rw [hown]; exact Option.some_ne_none reason)
    | silent =>
      rw [hv] at hgone
      cases hgone

/-- A singular request: it fails, or the venue answers for its id. -/
def singleAnswer (fails : String → Option Error) (id : String) : CancelResult :=
  match fails id with
  | some e => .error e
  | none => .ok (answerFor verdict [id])

theorem report_singleAnswer (fails : String → Option Error) (id : String) :
    report (id, singleAnswer verdict fails id) =
      match fails id with
      | some e => ⟨[], Table.single id e.display⟩
      | none => answerFor verdict [id] := by
  unfold singleAnswer
  cases fails id <;> rfl

/-- The fan-out's answers agree with the venue, an id whose request failed being kept. -/
theorem agreeOn_reports {fails : String → Option Error}
    (hfails : ∀ id e, fails id = some e → cancelReasonIsTerminal e.display = false)
    {ids : List String} {id : String} (hid : id ∈ ids) :
    AgreeOn ((ids.map fun id => (id, singleAnswer verdict fails id)).map report) id
      ((verdict id).gone && (fails id).isNone) := by
  rw [List.map_map]
  constructor
  case canceled =>
    intro r hr hmem
    obtain ⟨other, _, rfl⟩ := List.mem_map.mp hr
    rw [Function.comp_apply, report_singleAnswer] at hmem
    cases hother : fails other with
    | some e =>
      rw [hother] at hmem
      cases hmem
    | none =>
      simp only [hother] at hmem
      obtain ⟨hsame, hv⟩ := mem_answerFor_canceled.mp hmem
      rw [List.mem_singleton.mp hsame] at hv ⊢
      rw [hv, hother]
      rfl
  case reason =>
    intro r hr reason hreason
    obtain ⟨other, _, rfl⟩ := List.mem_map.mp hr
    rw [Function.comp_apply, report_singleAnswer] at hreason
    cases hother : fails other with
    | some e =>
      simp only [hother] at hreason
      obtain ⟨rfl, rfl⟩ := Table.single_eq_some.mp hreason
      rw [hother, hfails id e hother, Option.isNone_some, Bool.and_false]
    | none =>
      simp only [hother] at hreason
      obtain ⟨hsame, hv⟩ := answerFor_notCanceled.mp hreason
      rw [List.mem_singleton.mp hsame] at hv ⊢
      rw [hv, hother, Option.isNone_none, Bool.and_true]
      rfl
  case told =>
    intro hgone
    obtain ⟨hgone, hfails⟩ := Bool.and_eq_true_iff.mp hgone
    have hnone := Option.isNone_iff_eq_none.mp hfails
    refine ⟨_, List.mem_map_of_mem hid, ?_⟩
    rw [Function.comp_apply, report_singleAnswer, hnone]
    cases hv : verdict id with
    | canceled => exact .inl (mem_answerFor_canceled.mpr ⟨List.mem_singleton_self id, hv⟩)
    | kept reason =>
      have hown := answerFor_notCanceled.mpr ⟨List.mem_singleton_self id, hv⟩
      exact .inr (by rw [hown]; exact Option.some_ne_none reason)
    | silent =>
      rw [hv] at hgone
      cases hgone

end Venue

/-! ## The two endpoints -/

/-- Splits a batch by a predicate on its ids. -/
def splitBy {T : Type} (batch : List T) (getId : T → String) (done : String → Bool) :
    List T × List T :=
  (batch.filter fun item => done (getId item), batch.filter fun item => !done (getId item))

section Split
variable {T : Type} {batch : List T} {getId : T → String} {done : String → Bool}

theorem splitBy_congr {done' : String → Bool} (h : ∀ id ∈ batch.map getId, done id = done' id) :
    splitBy batch getId done = splitBy batch getId done' := by
  have hall : ∀ item ∈ batch, done (getId item) = done' (getId item) :=
    fun item hitem => h _ (List.mem_map_of_mem hitem)
  rw [splitBy, splitBy, List.filter_congr hall,
    List.filter_congr fun item hitem => congrArg not (hall item hitem)]

theorem partitionCancels_of_agree {responses : List CancelOrdersResponse}
    (h : ∀ id ∈ batch.map getId, AgreeOn responses id (done id)) :
    partitionCancels batch (.ok (mergeAnswers responses)) getId = splitBy batch getId done := by
  rw [partitionCancels_ok]
  exact splitBy_congr fun id hid => (h id hid).mergeAnswers_gone

/-- With every request failed nothing is done. -/
theorem splitBy_none (h : ∀ id ∈ batch.map getId, done id = false) :
    splitBy batch getId done = ([], batch) := by
  have hsame : splitBy batch getId done = splitBy batch getId fun _ => false := splitBy_congr h
  rw [hsame]
  simp [splitBy]

end Split

theorem foldSingly_error (acc : SinglyState) (requests : List (String × CancelResult))
    (h : ∀ request ∈ requests, ∃ e, request.2 = .error e) :
    (requests.foldl foldSingly acc).okCount = acc.okCount := by
  induction requests generalizing acc with
  | nil => rfl
  | cons request requests ih =>
    obtain ⟨⟨e, he⟩, hrest⟩ := List.forall_mem_cons.mp h
    obtain ⟨id, outcome⟩ := request
    obtain rfl : outcome = .error e := he
    rw [List.foldl_cons, ih _ hrest]
    rfl

/-- All requests failing is a failure of the fan-out. -/
theorem cancelSingly_error {requests : List (String × CancelResult)} (hne : requests ≠ [])
    (h : ∀ request ∈ requests, ∃ e, request.2 = .error e) :
    ∃ e, cancelSingly requests = .error e := by
  have hcount := foldSingly_error ⟨CancelOrdersResponse.empty, none, 0⟩ requests h
  have hsome : requests.isEmpty = false := by simpa using hne
  rw [cancelSingly, hsome]
  simp only [Bool.false_eq_true, if_false, hcount, if_true]
  exact ⟨_, rfl⟩

/-- Over a venue that answers id by id the batched pull, the chunked pass and the fan-out
split a batch alike: what the venue calls gone is done, everything else is retried. A
singular request that fails, on a text that names no terminal reason, keeps its own id for
a retry and changes nothing else, so without failures the endpoint can be flipped unseen. -/
theorem cancel_endpoints_agree {T : Type} (batch : List T) (getId : T → String)
    (verdict : String → Verdict) (fails : String → Option Error)
    (hfails : ∀ id e, fails id = some e → cancelReasonIsTerminal e.display = false) :
    let ids := batch.map getId
    let whole (ids : List String) : CancelResult := .ok (answerFor verdict ids)
    let pull (endpoint : CancelEndpoint) :=
      partitionCancels batch
        (cancelForReprice endpoint whole (singleAnswer verdict fails) ids) getId
    pull .orders = splitBy batch getId (fun id => (verdict id).gone) ∧
    partitionCancels batch (cancelInBatches (fun _ => whole) ids).2 getId = pull .orders ∧
    pull .order = splitBy batch getId (fun id => (verdict id).gone && (fails id).isNone) ∧
    ((∀ id ∈ ids, fails id = none) → ∀ endpoint : CancelEndpoint,
      pull endpoint.flipped = pull endpoint) := by
  intro ids whole pull
  have hwhole : pull .orders = splitBy batch getId fun id => (verdict id).gone := by
    have hone : (mergeAnswers [answerFor verdict ids]) = answerFor verdict ids := by
      have hempty : Table.empty.extend (answerFor verdict ids).notCanceled =
          (answerFor verdict ids).notCanceled := by
        funext id
        exact Option.or_none
      show CancelOrdersResponse.mk ([] ++ _) (Table.empty.extend _) = _
      rw [hempty, List.nil_append]
    show partitionCancels batch (.ok (answerFor verdict ids)) getId = _
    rw [← hone]
    refine partitionCancels_of_agree fun id hid => ?_
    have hchunk : ∃ chunk ∈ [ids], id ∈ chunk := ⟨ids, List.mem_singleton_self ids, hid⟩
    exact agreeOn_answers verdict hchunk
  have hsingly : pull .order =
      splitBy batch getId fun id => (verdict id).gone && (fails id).isNone := by
    by_cases hnil : ids = []
    · have hbatch : batch = [] := List.map_eq_nil_iff.mp hnil
      subst hbatch
      rfl
    · show partitionCancels batch (cancelForReprice .order whole _ ids) getId = _
      rw [cancelForReprice, if_neg (by simp [hnil])]
      by_cases hany : ∃ id ∈ ids, fails id = none
      · obtain ⟨id, hid, hnone⟩ := hany
        have hsingle : singleAnswer verdict fails id = .ok (answerFor verdict [id]) := by
          rw [singleAnswer, hnone]
        have hanswered : (id, .ok (answerFor verdict [id])) ∈
            ids.map fun id => (id, singleAnswer verdict fails id) :=
          List.mem_map.mpr ⟨id, hid, by rw [hsingle]⟩
        rw [cancelSingly_ok hanswered]
        exact partitionCancels_of_agree fun id hid => agreeOn_reports verdict hfails hid
      · have hall : ∀ id ∈ ids, ∃ e, fails id = some e := by
          intro id hid
          exact Option.ne_none_iff_exists'.mp fun h => hany ⟨id, hid, h⟩
        have herrors : ∀ request ∈ ids.map fun id => (id, singleAnswer verdict fails id),
            ∃ e, request.2 = .error e := by
          intro request hrequest
          obtain ⟨id, hid, rfl⟩ := List.mem_map.mp hrequest
          obtain ⟨e, he⟩ := hall id hid
          exact ⟨e, by rw [singleAnswer, he]⟩
        obtain ⟨e, he⟩ := cancelSingly_error (by simpa using hnil) herrors
        rw [he, partitionCancels_error, splitBy_none]
        intro id hid
        obtain ⟨e, he⟩ := hall id hid
        rw [he, Option.isNone_some, Bool.and_false]
  refine ⟨hwhole, ?_, hsingly, ?_⟩
  · have hsent : (batches cancelBatchSize ids).mapIdx (fun _ => whole) =
        ((batches cancelBatchSize ids).map (answerFor verdict)).map .ok := by
      rw [List.map_map, List.mapIdx_eq_zipIdx_map]
      conv_rhs => rw [← List.zipIdx_map_fst 0 (batches cancelBatchSize ids), List.map_map]
      rfl
    rw [pass_ok (fun _ => whole) ids hsent, hwhole]
    refine partitionCancels_of_agree fun id hid => agreeOn_answers verdict ?_
    have hflat : (batches cancelBatchSize ids).flatten = ids := batches_flatten (by decide) ids
    have hmem : id ∈ (batches cancelBatchSize ids).flatten := by
      rw [hflat]
      exact hid
    exact List.mem_flatten.mp hmem
  · intro hnone
    have hsame : pull .order = pull .orders := by
      rw [hsingly, hwhole]
      refine splitBy_congr fun id hid => ?_
      rw [hnone id hid, Option.isNone_none, Bool.and_true]
    intro endpoint
    cases endpoint with
    | orders => exact hsame
    | order => exact hsame.symm

/-- A filled, a resting and a canceled order, and one whose request times out. -/
theorem cancel_endpoints_agree_four :
    let verdict (id : String) : Verdict :=
      if id = "a" then .kept "order already filled" else if id = "b" then .kept "please retry"
      else .canceled
    let fails (id : String) : Option Error :=
      if id = "d" then some (.invalidData "DELETE timed out") else none
    let batch := ["a", "b", "c", "d"]
    let pull (endpoint : CancelEndpoint) := partitionCancels batch (cancelForReprice endpoint
      (fun ids => .ok (answerFor verdict ids)) (singleAnswer verdict fails) (batch.map id)) id
    pull .orders = (["a", "c", "d"], ["b"]) ∧ pull .order = (["a", "c"], ["b", "d"]) := by
  intro verdict fails batch pull
  obtain ⟨horders, _, horder, _⟩ := cancel_endpoints_agree batch id verdict fails (by
    intro id e h
    obtain ⟨_, rfl⟩ : id = "d" ∧ Error.invalidData "DELETE timed out" = e := by
      simpa [fails] using h
    decide +kernel)
  exact ⟨horders.trans (by decide +kernel), horder.trans (by decide +kernel)⟩

end Eggplant.Clob
