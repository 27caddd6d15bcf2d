import Eggplant.Error
import Eggplant.Lib.Batches
import Eggplant.Lib.Table

/-!
# Cancels and their bookkeeping

A cancel answer lists the ids that are gone and, for the others, a reason. The
singular fan-out and the batched pass both merge many answers into one, and
`partitionCancels` splits a batch by the merged answer.
-/
namespace Eggplant.Clob

set_option autoImplicit false

open Eggplant.Lib

structure CancelOrdersResponse where
  canceled : List String
  notCanceled : Table String String

namespace CancelOrdersResponse

def empty : CancelOrdersResponse := ⟨[], Table.empty⟩

/-- Both fields are extended by another response's. -/
def absorb (merged resp : CancelOrdersResponse) : CancelOrdersResponse :=
  ⟨merged.canceled ++ resp.canceled, merged.notCanceled.extend resp.notCanceled⟩

end CancelOrdersResponse

abbrev CancelResult := Except Error CancelOrdersResponse

/-- Max order ids per `DELETE /orders` payload. -/
def cancelBatchSize : Nat := 1000

/-! ## The answer to a DELETE -/

/-- What the HTTP stack hands over, with the body as (lossy) text. -/
structure HttpAnswer where
  status : Nat
  body : String

/-- How the HTTP library prints a status and what the JSON library makes of a body. -/
structure HttpLibrary where
  statusText : Nat → String
  parseCancel : String → Except String CancelOrdersResponse

/-- `send_delete`, from the answer on. -/
def readDelete (lib : HttpLibrary) (answer : HttpAnswer) : CancelResult :=
  if answer.status = 429 then .error (.rateLimit none)
  else if ¬ (200 ≤ answer.status ∧ answer.status < 300) then
    .error (.invalidData ("CLOB cancel API " ++ lib.statusText answer.status ++ ": " ++ answer.body))
  else
    match lib.parseCancel answer.body with
    | .ok resp => .ok resp
    | .error e => .error (.invalidData ("cancel response parse failed: " ++ e))

/-! ## Singular cancels -/

structure SinglyState where
  merged : CancelOrdersResponse
  firstErr : Option Error
  okCount : Nat

/-- One turn of the merge loop, for an id and the outcome of its own request. -/
def foldSingly (acc : SinglyState) (request : String × CancelResult) : SinglyState :=
  match request with
  | (_, .ok resp) => { acc with merged := acc.merged.absorb resp, okCount := acc.okCount + 1 }
  | (id, .error e) =>
      { acc with
        merged := { acc.merged with notCanceled := acc.merged.notCanceled.insert id e.display }
        firstErr := acc.firstErr.or (some e) }

/-- `cancel_singly`, given every id with the outcome of its request. -/
def cancelSingly (requests : List (String × CancelResult)) : CancelResult :=
  if requests.isEmpty then .ok CancelOrdersResponse.empty
  else
    let acc := requests.foldl foldSingly ⟨CancelOrdersResponse.empty, none, 0⟩
    if acc.okCount = 0 then
      .error (acc.firstErr.getD (.invalidData "all singular cancels failed"))
    else .ok acc.merged

/-! ## Batched cancels -/

/-- The loop over the chunks: the chunks sent, and the merged answer or the first error.
`cancelOrders k` is the outcome of the `k`-th request from here. -/
def sendChunks (cancelOrders : Nat → List String → CancelResult) (merged : CancelOrdersResponse) :
    List (List String) → List (List String) × CancelResult
  | [] => ([], .ok merged)
  | chunk :: rest =>
      match cancelOrders 0 chunk with
      | .error e => ([chunk], .error e)
      | .ok resp =>
          let (sent, result) := sendChunks (fun k => cancelOrders (k + 1)) (merged.absorb resp) rest
          (chunk :: sent, result)

def cancelInBatches (cancelOrders : Nat → List String → CancelResult) (ids : List String) :
    List (List String) × CancelResult :=
  sendChunks cancelOrders CancelOrdersResponse.empty (batches cancelBatchSize ids)

/-! ## The partition -/

/-- Substrings that each mean the order is gone. -/
def terminalReasons : List String :=
  ["filled", "not found", "matched", "executed", "complete", "already cancel", "expired"]

def cancelReasonIsTerminal (reason : String) : Bool :=
  terminalReasons.any (fun t => strContains (toAsciiLowercase reason) t)

/-- Text around a terminal reason does not hide it. -/
theorem terminal_of_infix {reason text : String} (h : reason.toList <:+: text.toList)
    (hr : cancelReasonIsTerminal reason = true) : cancelReasonIsTerminal text = true := by
  obtain ⟨t, ht, hcontains⟩ := List.any_eq_true.mp hr
  refine List.any_eq_true.mpr ⟨t, ht, ?_⟩
  rw [strContains_iff, toList_toAsciiLowercase] at hcontains ⊢
  exact hcontains.trans (h.map _)

/-- An HTTP failure whose status line or body has a terminal phrase reads as a gone order. -/
theorem readDelete_terminal {lib : HttpLibrary} {answer : HttpAnswer} (hlimit : answer.status ≠ 429)
    (hfail : ¬ (200 ≤ answer.status ∧ answer.status < 300))
    (hphrase : cancelReasonIsTerminal (lib.statusText answer.status) = true ∨
      cancelReasonIsTerminal answer.body = true) :
    ∃ e, readDelete lib answer = .error e ∧ cancelReasonIsTerminal e.display = true := by
  refine ⟨_, by rw [readDelete, if_neg hlimit, if_pos hfail], ?_⟩
  show cancelReasonIsTerminal
    ("CLOB cancel API " ++ lib.statusText answer.status ++ ": " ++ answer.body) = true
  cases hphrase with
  | inl hstatus =>
    refine terminal_of_infix ?_ hstatus
    simp only [String.toList_append, List.append_assoc]
    exact ⟨_, _, List.append_assoc _ _ _⟩
  | inr hbody =>
    refine terminal_of_infix ?_ hbody
    rw [String.toList_append]
    exact (List.suffix_append _ _).isInfix

def CancelOrdersResponse.gone (resp : CancelOrdersResponse) (id : String) : Bool :=
  resp.canceled.any (fun c => c == id) || (resp.notCanceled id).any cancelReasonIsTerminal

def partitionItem {T : Type} (resp : CancelOrdersResponse) (getId : T → String)
    (acc : List T × List T) (item : T) : List T × List T :=
  if resp.gone (getId item) then (acc.1 ++ [item], acc.2) else (acc.1, acc.2 ++ [item])

/-- The items of a batch that are done, and those to retry. -/
def partitionCancels {T : Type} (batch : List T) (result : CancelResult) (getId : T → String) :
    List T × List T :=
  match result with
  | .error _ => ([], batch)
  | .ok resp => batch.foldl (partitionItem resp getId) ([], [])

/-! ## The partition keeps the batch -/

section Partition
variable {T : Type} (batch : List T) (resp : CancelOrdersResponse) (getId : T → String)

theorem foldl_partitionItem (acc : List T × List T) :
    batch.foldl (partitionItem resp getId) acc =
      (acc.1 ++ batch.filter (fun item => resp.gone (getId item)),
        acc.2 ++ batch.filter (fun item => !resp.gone (getId item))) := by
  induction batch generalizing acc with
  | nil => simp
  | cons item batch ih =>
    rw [List.foldl_cons, ih, partitionItem]
    cases h : resp.gone (getId item) <;> simp [h]

/-- A successful answer splits the batch by `gone`. -/
theorem partitionCancels_ok : partitionCancels batch (.ok resp) getId =
    (batch.filter (fun item => resp.gone (getId item)),
      batch.filter (fun item => !resp.gone (getId item))) := by
  rw [partitionCancels, foldl_partitionItem, List.nil_append, List.nil_append]

theorem partitionCancels_error (e : Error) :
    partitionCancels batch (.error e) getId = ([], batch) := rfl

/-- No item is lost or doubled, and both lists keep the batch order. -/
theorem partitionCancels_keeps (result : CancelResult) :
    ((partitionCancels batch result getId).1 ++ (partitionCancels batch result getId).2).Perm batch ∧
      (partitionCancels batch result getId).1.Sublist batch ∧
      (partitionCancels batch result getId).2.Sublist batch := by
  cases result with
  | error e => exact ⟨List.Perm.refl batch, List.nil_sublist batch, List.Sublist.refl batch⟩
  | ok resp =>
    rw [partitionCancels_ok]
    exact ⟨List.filter_append_perm _ batch, List.filter_sublist, List.filter_sublist⟩

end Partition

theorem gone_iff {resp : CancelOrdersResponse} {id : String} :
    resp.gone id = true ↔ id ∈ resp.canceled ∨
      ∃ reason, resp.notCanceled id = some reason ∧ cancelReasonIsTerminal reason = true := by
  rw [CancelOrdersResponse.gone, Bool.or_eq_true, List.any_eq_true, Option.any_eq_true]
  simp

/-! ## Merged answers -/

/-- The answers of several requests, in order. -/
def mergeAnswers (responses : List CancelOrdersResponse) : CancelOrdersResponse :=
  responses.foldl CancelOrdersResponse.absorb CancelOrdersResponse.empty

/-- The reason of the last answer that reports one for the id. -/
def lastReason (responses : List CancelOrdersResponse) (id : String) : Option String :=
  responses.reverse.findSome? (fun r => r.notCanceled id)

theorem foldl_absorb (start : CancelOrdersResponse) (responses : List CancelOrdersResponse) :
    responses.foldl CancelOrdersResponse.absorb start =
      ⟨start.canceled ++ responses.flatMap (·.canceled),
        start.notCanceled.extend (Table.merge (responses.map (·.notCanceled)))⟩ := by
  induction responses generalizing start with
  | nil =>
    rw [List.foldl_nil, List.flatMap_nil, List.append_nil]
    rfl
  | cons r responses ih =>
    rw [List.foldl_cons, ih, List.map_cons, Table.merge_cons, ← Table.extend_assoc,
      List.flatMap_cons, ← List.append_assoc]
    rfl

theorem mergeAnswers_canceled (responses : List CancelOrdersResponse) :
    (mergeAnswers responses).canceled = responses.flatMap (·.canceled) := by
  rw [mergeAnswers, foldl_absorb]
  rfl

theorem mergeAnswers_notCanceled (responses : List CancelOrdersResponse) (id : String) :
    (mergeAnswers responses).notCanceled id = lastReason responses id := by
  rw [mergeAnswers, foldl_absorb]
  show (Table.merge (responses.map (·.notCanceled)) id).or none = lastReason responses id
  rw [Option.or_none, Table.merge_apply, ← List.map_reverse, List.findSome?_map]
  rfl

/-- An id is gone when some answer lists it, or its last reason is terminal. -/
theorem mergeAnswers_gone {responses : List CancelOrdersResponse} {id : String} :
    (mergeAnswers responses).gone id = true ↔ (∃ r ∈ responses, id ∈ r.canceled) ∨
      ∃ reason, lastReason responses id = some reason ∧ cancelReasonIsTerminal reason = true := by
  rw [gone_iff, mergeAnswers_canceled, List.mem_flatMap, mergeAnswers_notCanceled]

/-! ## The batched pass -/

/-- Either every request succeeds and all answers are merged, or the pass ends with the
first one that fails. -/
theorem sendChunks_cases (cancelOrders : Nat → List String → CancelResult)
    (merged : CancelOrdersResponse) (chunks : List (List String)) :
    (∃ responses : List CancelOrdersResponse, chunks.mapIdx cancelOrders = responses.map .ok ∧
      sendChunks cancelOrders merged chunks =
        (chunks, .ok (responses.foldl CancelOrdersResponse.absorb merged))) ∨
    ∃ k e, (chunks.mapIdx cancelOrders)[k]? = some (.error e) ∧
      (∀ j < k, ∃ r, (chunks.mapIdx cancelOrders)[j]? = some (.ok r)) ∧
      sendChunks cancelOrders merged chunks = (chunks.take (k + 1), .error e) := by
  induction chunks generalizing cancelOrders merged with
  | nil => exact Or.inl ⟨[], rfl, rfl⟩
  | cons chunk rest ih =>
    rw [List.mapIdx_cons]
    cases hfirst : cancelOrders 0 chunk with
    | error e =>
      right
      refine ⟨0, e, rfl, nofun, ?_⟩
      rw [sendChunks, hfirst]
      rfl
    | ok resp =>
      rcases ih (fun k => cancelOrders (k + 1)) (merged.absorb resp) with
        ⟨responses, hall, hsend⟩ | ⟨k, e, hfail, hbefore, hsend⟩
      · left
        refine ⟨resp :: responses, ?_, ?_⟩
        · rw [List.map_cons, hall]
        · rw [sendChunks, hfirst]
          simp only [hsend, List.foldl_cons]
      · right
        refine ⟨k + 1, e, ?_, ?_, ?_⟩
        · rw [List.getElem?_cons_succ, hfail]
        · intro j hj
          cases j with
          | zero => exact ⟨resp, rfl⟩
          | succ j => exact hbefore j (Nat.lt_of_succ_lt_succ hj)
        · rw [sendChunks, hfirst]
          simp only [hsend, List.take_succ_cons]

theorem ne_error_of_all_ok {outcomes : List CancelResult} {responses : List CancelOrdersResponse}
    (h : outcomes = responses.map .ok) (k : Nat) (e : Error) : outcomes[k]? ≠ some (.error e) := by
  intro hk
  rw [h, List.getElem?_map] at hk
  obtain ⟨r, _, hr⟩ := Option.map_eq_some_iff.mp hk
  cases hr

section Pass
variable (cancelOrders : Nat → List String → CancelResult) (ids : List String)

theorem pass_ok {responses : List CancelOrdersResponse}
    (h : (batches cancelBatchSize ids).mapIdx cancelOrders = responses.map .ok) :
    cancelInBatches cancelOrders ids =
      (batches cancelBatchSize ids, .ok (mergeAnswers responses)) := by
  rcases sendChunks_cases cancelOrders CancelOrdersResponse.empty (batches cancelBatchSize ids) with
    ⟨others, hall, hrun⟩ | ⟨k, e, hfail, _⟩
  · have hsame : others = responses :=
      List.map_injective_iff.mpr (fun _ _ => Except.ok.inj) (hall.symm.trans h)
    rw [← hsame]
    exact hrun
  · exact absurd hfail (ne_error_of_all_ok h k e)

/-- A failed request is the last one, and its error is the result of the pass. -/
theorem pass_failed {k : Nat} {e : Error}
    (h : ((batches cancelBatchSize ids).mapIdx cancelOrders)[k]? = some (.error e)) :
    (cancelInBatches cancelOrders ids).1.length ≤ k + 1 ∧
      ∃ first, (cancelInBatches cancelOrders ids).2 = .error first := by
  rcases sendChunks_cases cancelOrders CancelOrdersResponse.empty (batches cancelBatchSize ids) with
    ⟨responses, hall, _⟩ | ⟨j, first, _, hbefore, hrun⟩
  · exact absurd h (ne_error_of_all_ok hall k e)
  · have hjk : j ≤ k := by
      by_contra hlt
      obtain ⟨r, hr⟩ := hbefore k (Nat.lt_of_not_le hlt)
      rw [h] at hr
      cases hr
    rw [cancelInBatches, hrun, List.length_take]
    exact ⟨by omega, first, rfl⟩

/-- The chunks sent are the first chunks, and all of them unless a request fails. -/
theorem pass_sent :
    (cancelInBatches cancelOrders ids).1 <+: batches cancelBatchSize ids ∧
      ((∀ (k : Nat) (e : Error),
          ((batches cancelBatchSize ids).mapIdx cancelOrders)[k]? ≠ some (.error e)) →
        (cancelInBatches cancelOrders ids).1 = batches cancelBatchSize ids) := by
  rcases sendChunks_cases cancelOrders CancelOrdersResponse.empty (batches cancelBatchSize ids) with
    ⟨responses, _, hrun⟩ | ⟨k, e, hfail, _, hrun⟩
  · rw [cancelInBatches, hrun]
    exact ⟨List.prefix_rfl, fun _ => rfl⟩
  · rw [cancelInBatches, hrun]
    exact ⟨List.take_prefix _ _, fun h => absurd hfail (h k e)⟩

/-- An item is done when every request succeeded and the merged answer calls its id gone. -/
theorem pass_done_iff {T : Type} {batch : List T} (getId : T → String) {item : T}
    (hitem : item ∈ batch) :
    item ∈ (partitionCancels batch (cancelInBatches cancelOrders ids).2 getId).1 ↔
      ∃ responses : List CancelOrdersResponse,
        (batches cancelBatchSize ids).mapIdx cancelOrders = responses.map .ok ∧
        ((∃ r ∈ responses, getId item ∈ r.canceled) ∨
          ∃ reason, lastReason responses (getId item) = some reason ∧
            cancelReasonIsTerminal reason = true) := by
  have hdone (responses : List CancelOrdersResponse) :
      item ∈ (partitionCancels batch (.ok (mergeAnswers responses)) getId).1 ↔
        (∃ r ∈ responses, getId item ∈ r.canceled) ∨
          ∃ reason, lastReason responses (getId item) = some reason ∧
            cancelReasonIsTerminal reason = true := by
    rw [partitionCancels_ok, List.mem_filter, mergeAnswers_gone]
    exact and_iff_right hitem
  constructor
  · intro h
    rcases sendChunks_cases cancelOrders CancelOrdersResponse.empty (batches cancelBatchSize ids) with
      ⟨responses, hall, _⟩ | ⟨k, e, hfail, _, _⟩
    · rw [pass_ok cancelOrders ids hall] at h
      exact ⟨responses, hall, (hdone responses).mp h⟩
    · obtain ⟨_, first, hfirst⟩ := pass_failed cancelOrders ids hfail
      rw [hfirst] at h
      cases h
  · intro h
    obtain ⟨responses, hall, hgone⟩ := h
    rw [pass_ok cancelOrders ids hall]
    exact (hdone responses).mpr hgone

end Pass

/-- The bookkeeping of a batched pass over any batch: no item is lost or doubled, an item is
done exactly when every request succeeded and the merged answer calls its id gone,
and after a failed request nothing is sent and everything is retried. -/
theorem cancel_in_batches_partition {T : Type} (batch : List T) (getId : T → String)
    (cancelOrders : Nat → List String → CancelResult) :
    let chunks := batches cancelBatchSize (batch.map getId)
    let outcomes := chunks.mapIdx cancelOrders
    let run := cancelInBatches cancelOrders (batch.map getId)
    let parts := partitionCancels batch run.2 getId
    ((parts.1 ++ parts.2).Perm batch ∧ parts.1.Sublist batch ∧ parts.2.Sublist batch) ∧
    (∀ item ∈ batch, item ∈ parts.1 ↔
      ∃ responses : List CancelOrdersResponse, outcomes = responses.map .ok ∧
        ((∃ r ∈ responses, getId item ∈ r.canceled) ∨
          ∃ reason, lastReason responses (getId item) = some reason ∧
            cancelReasonIsTerminal reason = true)) ∧
    (∀ k e, outcomes[k]? = some (.error e) → run.1.length ≤ k + 1 ∧ parts = ([], batch)) ∧
    (chunks.flatten = batch.map getId ∧ run.1 <+: chunks ∧
      ((∀ (k : Nat) (e : Error), outcomes[k]? ≠ some (.error e)) → run.1 = chunks) ∧
      ∀ chunk ∈ run.1, chunk.length ≤ cancelBatchSize) := by
  intro chunks outcomes run parts
  have hflat : chunks.flatten = batch.map getId := batches_flatten (by decide) _
  obtain ⟨hsent, hall⟩ := pass_sent cancelOrders (batch.map getId)
  refine ⟨partitionCancels_keeps batch getId run.2, ?_, ?_, hflat, hsent, hall, ?_⟩
  · intro item hitem
    exact pass_done_iff cancelOrders (batch.map getId) getId hitem
  · intro k e hfail
    obtain ⟨hlength, first, hfirst⟩ := pass_failed cancelOrders (batch.map getId) hfail
    refine ⟨hlength, ?_⟩
    show partitionCancels batch (cancelInBatches cancelOrders (batch.map getId)).2 getId = ([], batch)
    rw [hfirst, partitionCancels_error]
  · intro chunk hchunk
    exact length_of_mem_batches (hsent.subset hchunk)

/-! ## The singular fan-out -/

/-- What the merge loop takes from a request: a failure is a reason for its own id. -/
def report : String × CancelResult → CancelOrdersResponse
  | (_, .ok resp) => resp
  | (id, .error e) => ⟨[], Table.single id e.display⟩

theorem foldSingly_merged (acc : SinglyState) (request : String × CancelResult) :
    (foldSingly acc request).merged = acc.merged.absorb (report request) := by
  obtain ⟨id, outcome⟩ := request
  cases outcome with
  | ok resp => rfl
  | error e =>
    show CancelOrdersResponse.mk acc.merged.canceled (acc.merged.notCanceled.insert id e.display) =
      acc.merged.absorb ⟨[], Table.single id e.display⟩
    rw [CancelOrdersResponse.absorb, List.append_nil]
    rfl

theorem foldl_foldSingly_merged (acc : SinglyState) (requests : List (String × CancelResult)) :
    (requests.foldl foldSingly acc).merged =
      (requests.map report).foldl CancelOrdersResponse.absorb acc.merged := by
  induction requests generalizing acc with
  | nil => rfl
  | cons request requests ih => rw [List.foldl_cons, ih, foldSingly_merged]; rfl

theorem okCount_le_foldSingly (acc : SinglyState) (requests : List (String × CancelResult)) :
    acc.okCount ≤ (requests.foldl foldSingly acc).okCount := by
  induction requests generalizing acc with
  | nil => exact Nat.le_refl _
  | cons request requests ih =>
    have hstep : acc.okCount ≤ (foldSingly acc request).okCount := by
      obtain ⟨id, outcome⟩ := request
      cases outcome with
      | ok resp => exact Nat.le_succ _
      | error e => exact Nat.le_refl _
    exact hstep.trans (ih _)

/-- One success is enough for the fan-out to return the merged reports. -/
theorem cancelSingly_ok {requests : List (String × CancelResult)} {id : String}
    {resp : CancelOrdersResponse} (h : (id, .ok resp) ∈ requests) :
    cancelSingly requests = .ok (mergeAnswers (requests.map report)) := by
  obtain ⟨before, after, rfl⟩ := List.append_of_mem h
  have hcount : ((before ++ (id, .ok resp) :: after).foldl foldSingly
      ⟨CancelOrdersResponse.empty, none, 0⟩).okCount ≠ 0 := by
    rw [List.foldl_append, List.foldl_cons]
    have hafter := okCount_le_foldSingly (foldSingly (before.foldl foldSingly
      ⟨CancelOrdersResponse.empty, none, 0⟩) (id, .ok resp)) after
    exact Nat.ne_of_gt (lt_of_lt_of_le (Nat.succ_pos _) hafter)
  have hne : (before ++ (id, Except.ok resp) :: after).isEmpty = false := by simp
  rw [cancelSingly, hne]
  simp only [Bool.false_eq_true, if_false, hcount, foldl_foldSingly_merged]
  rfl

/-- No answer lists the id as canceled or with a terminal reason. -/
def Unlisted (requests : List (String × CancelResult)) (id : String) : Prop :=
  ∀ other resp, (other, Except.ok resp) ∈ requests → id ∉ resp.canceled ∧
    ∀ reason, resp.notCanceled id = some reason → cancelReasonIsTerminal reason = false

theorem lastReason_append_cons (xs ys : List CancelOrdersResponse) (r : CancelOrdersResponse)
    (id : String) : lastReason (xs ++ r :: ys) id =
      (lastReason ys id).or ((r.notCanceled id).or (lastReason xs id)) := by
  unfold lastReason
  rw [List.reverse_append, List.reverse_cons, List.append_assoc, List.findSome?_append,
    List.singleton_append, List.findSome?_cons]
  cases r.notCanceled id <;> rfl

/-- Only an answer has a reason for an id whose request is not among these. -/
theorem answer_of_report {requests : List (String × CancelResult)} {id : String}
    (hid : id ∉ requests.map Prod.fst) {r : CancelOrdersResponse} (hr : r ∈ requests.map report)
    {reason : String} (h : r.notCanceled id = some reason) :
    ∃ other, (other, Except.ok r) ∈ requests := by
  obtain ⟨⟨other, outcome⟩, hmem, rfl⟩ := List.mem_map.mp hr
  cases outcome with
  | ok resp => exact ⟨other, hmem⟩
  | error e =>
    have hkey : id = other := (Table.single_eq_some.mp h).1
    exact absurd (List.mem_map.mpr ⟨_, hmem, hkey.symm⟩) hid

/-- A failed id that no answer lists is taken for gone when the text of its error is
terminal and no later answer reports it. -/
theorem failed_gone_iff {before after : List (String × CancelResult)} {id : String} {e : Error}
    (hid : id ∉ after.map Prod.fst)
    (hunlisted : Unlisted (before ++ (id, .error e) :: after) id) :
    (mergeAnswers ((before ++ (id, .error e) :: after).map report)).gone id = true ↔
      cancelReasonIsTerminal e.display = true ∧
        ∀ other resp, (other, Except.ok resp) ∈ after → resp.notCanceled id = none := by
  have hcanceled : ¬ ∃ r ∈ (before ++ (id, .error e) :: after).map report, id ∈ r.canceled := by
    intro ⟨r, hr, hmem⟩
    obtain ⟨⟨other, outcome⟩, hreq, rfl⟩ := List.mem_map.mp hr
    cases outcome with
    | ok resp => exact (hunlisted other resp hreq).1 hmem
    | error e' => cases hmem
  have hown : (report (id, .error e)).notCanceled id = some e.display :=
    Table.single_eq_some.mpr ⟨rfl, rfl⟩
  rw [mergeAnswers_gone, or_iff_right hcanceled, List.map_append, List.map_cons,
    lastReason_append_cons, hown, Option.some_or]
  cases hlater : lastReason (after.map report) id with
  | none =>
    have hsilent : ∀ other resp, (other, Except.ok resp) ∈ after → resp.notCanceled id = none := by
      intro other resp hreq
      exact List.findSome?_eq_none_iff.mp hlater resp
        (List.mem_reverse.mpr (List.mem_map_of_mem hreq))
    rw [and_iff_left hsilent]
    simp
  | some reason =>
    obtain ⟨r, hr, hreason⟩ := List.exists_of_findSome?_eq_some hlater
    obtain ⟨other, hreq⟩ := answer_of_report hid (List.mem_reverse.mp hr) hreason
    have hlive := (hunlisted other r (by simp [hreq])).2 reason hreason
    constructor
    · intro ⟨reason', heq, hterminal⟩
      obtain rfl := Option.some.inj heq
      rw [hlive] at hterminal
      cases hterminal
    · intro ⟨_, hsilent⟩
      rw [hsilent other r hreq] at hreason
      cases hreason

/-- Such an id is retried when the text is not terminal or a later answer reports it. -/
theorem failed_live_iff {before after : List (String × CancelResult)} {id : String} {e : Error}
    (hid : id ∉ after.map Prod.fst)
    (hunlisted : Unlisted (before ++ (id, .error e) :: after) id) :
    (mergeAnswers ((before ++ (id, .error e) :: after).map report)).gone id = false ↔
      cancelReasonIsTerminal e.display = false ∨
        ∃ other resp, (other, Except.ok resp) ∈ after ∧ resp.notCanceled id ≠ none := by
  rw [← Bool.not_eq_true, failed_gone_iff hid hunlisted, not_and_or, Bool.not_eq_true]
  simp only [not_forall, exists_prop, ne_eq]

/-- Every failed id that no answer lists is retried exactly when each such failure has a
text without a terminal phrase, or is reported again by a later answer. -/
theorem failed_cancels_retried_iff {T : Type} (batch : List T) (getId : T → String)
    (requests : List (String × CancelResult)) (hids : requests.map Prod.fst = batch.map getId)
    (hdistinct : (batch.map getId).Nodup) (hok : ∃ id resp, (id, Except.ok resp) ∈ requests) :
    (∀ item ∈ batch, ∀ e, (getId item, .error e) ∈ requests → Unlisted requests (getId item) →
      item ∈ (partitionCancels batch (cancelSingly requests) getId).2 ∧
        item ∉ (partitionCancels batch (cancelSingly requests) getId).1) ↔
    ∀ before id e after, requests = before ++ (id, .error e) :: after → Unlisted requests id →
      cancelReasonIsTerminal e.display = false ∨
        ∃ other resp, (other, Except.ok resp) ∈ after ∧ resp.notCanceled id ≠ none := by
  obtain ⟨_, _, hsuccess⟩ := hok
  rw [cancelSingly_ok hsuccess, partitionCancels_ok]
  have hlive {before after : List (String × CancelResult)} {id : String} {e : Error}
      (hsplit : requests = before ++ (id, .error e) :: after) (hunlisted : Unlisted requests id) :
      (mergeAnswers (requests.map report)).gone id = false ↔
        cancelReasonIsTerminal e.display = false ∨
          ∃ other resp, (other, Except.ok resp) ∈ after ∧ resp.notCanceled id ≠ none := by
    rw [← hids, hsplit, List.map_append, List.map_cons] at hdistinct
    rw [hsplit] at hunlisted ⊢
    exact failed_live_iff (List.nodup_cons.mp hdistinct.of_append_right).1 hunlisted
  constructor
  · intro hretried before id e after hsplit hunlisted
    have hmem : (id, .error e) ∈ requests := by simp [hsplit]
    have hid : id ∈ batch.map getId := hids ▸ List.mem_map_of_mem hmem
    obtain ⟨item, hitem, rfl⟩ := List.mem_map.mp hid
    have hretry := (List.mem_filter.mp (hretried item hitem e hmem hunlisted).1).2
    exact (hlive hsplit hunlisted).mp (by simpa using hretry)
  · intro hcond item hitem e hmem hunlisted
    obtain ⟨before, after, hsplit⟩ := List.append_of_mem hmem
    have hgone := (hlive hsplit hunlisted).mpr (hcond before _ e after hsplit hunlisted)
    exact ⟨by simp [hitem, hgone], by simp [hgone]⟩

/-- A timed out request beside a successful one: the order is retried. -/
theorem failed_cancels_retried_iff_timeout :
    let requests : List (String × CancelResult) :=
      [("a", .ok ⟨["a"], Table.empty⟩), ("b", .error (.invalidData "DELETE timed out"))]
    let parts := partitionCancels ["a", "b"] (cancelSingly requests) id
    "b" ∈ parts.2 ∧ "b" ∉ parts.1 := by
  intro requests parts
  have hiff := failed_cancels_retried_iff ["a", "b"] id requests rfl (by decide)
    ⟨"a", _, List.mem_cons_self⟩
  have hfailed {id : String} {e : Error} (h : (id, .error e) ∈ requests) :
      id = "b" ∧ e = .invalidData "DELETE timed out" := by
    simpa [requests] using h
  refine hiff.mpr ?_ "b" (by decide) (.invalidData "DELETE timed out") (by simp [requests]) ?_
  · intro before id e after hsplit _
    have hmem : (id, .error e) ∈ requests := by simp [hsplit]
    obtain ⟨_, rfl⟩ := hfailed hmem
    exact Or.inl (by decide +kernel)
  · intro other resp h
    obtain ⟨_, rfl⟩ : other = "a" ∧ resp = ⟨["a"], Table.empty⟩ := by simpa [requests] using h
    exact ⟨by decide, nofun⟩

/-- A 404 from the HTTP stack is taken for an order that is gone. -/
theorem not_found_answer_not_retried :
    let lib : HttpLibrary := ⟨fun status => if status = 404 then "404 Not Found" else "200 OK",
      fun _ => .error "expected value"⟩
    let requests : List (String × CancelResult) :=
      [("a", .ok ⟨["a"], Table.empty⟩), ("b", readDelete lib ⟨404, "no such route"⟩)]
    (∃ e, ("b", .error e) ∈ requests) ∧ Unlisted requests "b" ∧
      partitionCancels ["a", "b"] (cancelSingly requests) id = (["a", "b"], []) := by
  intro lib requests
  let e : Error := .invalidData "CLOB cancel API 404 Not Found: no such route"
  have hread : readDelete lib ⟨404, "no such route"⟩ = .error e := rfl
  refine ⟨⟨e, by simp [requests, hread]⟩, ?_, by decide +kernel⟩
  intro other resp h
  obtain ⟨_, rfl⟩ : other = "a" ∧ resp = ⟨["a"], Table.empty⟩ := by
    simpa [requests, hread] using h
  exact ⟨by decide, nofun⟩

end Eggplant.Clob
