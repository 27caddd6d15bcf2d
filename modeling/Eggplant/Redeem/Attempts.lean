import Eggplant.Redeem.Submit

/-!
# Accounting for the submissions of a batch run

The log of `submit_batches` read chunk by chunk: each chunk's submissions stand together,
in the order of the chunks, and the two counts are the lengths of the chunks that were
accepted and of those that were given up.
-/
namespace Eggplant.Redeem

set_option autoImplicit false

open Eggplant.Lib Eggplant.Lib.Retry
open Eggplant.Convert (DepositWalletCall)

/-- A chunk and its submissions. -/
structure Attempt where
  chunk : List DepositWalletCall
  tries : List Submitted

namespace Attempt

def Accepted (a : Attempt) : Prop := ∃ s ∈ a.tries, s.Accepted

instance (a : Attempt) : Decidable a.Accepted :=
  inferInstanceAs (Decidable (∃ s ∈ a.tries, s.Accepted))

/-- The tries are those of the two retry loops. -/
def Tried (opts : RedeemOptions) (a : Attempt) : Prop :=
  ∃ result, ChunkTried opts a.chunk a.tries result

variable {opts : RedeemOptions} {a : Attempt}

theorem Tried.own (h : a.Tried opts) : ∀ s ∈ a.tries, s.calls = a.chunk := by
  obtain ⟨result, h⟩ := h
  exact h.own

theorem Tried.tries_ne_nil (h : a.Tried opts) : a.tries ≠ [] := by
  obtain ⟨result, h⟩ := h
  obtain ⟨earlier, last, htries, -⟩ := h.acceptedLast
  rw [htries]
  exact List.append_ne_nil_of_right_ne_nil _ (List.cons_ne_nil _ _)

/-- Nothing follows an acceptance. -/
theorem Tried.once (h : a.Tried opts) : ∀ s ∈ a.tries.dropLast, ¬s.Accepted := by
  obtain ⟨result, h⟩ := h
  obtain ⟨earlier, last, htries, hearlier, -⟩ := h.acceptedLast
  rw [htries, List.dropLast_concat]
  exact hearlier

theorem Tried.bounded (h : a.Tried opts) :
    a.tries.length ≤ (opts.batchMaxRetries + 1) * (opts.walletBusyMaxRetries + 1) := by
  obtain ⟨result, h⟩ := h
  refine Retried.length_le _ (fun tries result hround => ?_) h
  have hlen := Retried.length_le 1 (fun tries result hone => by rw [hone]; rfl) hround
  rwa [Nat.mul_one] at hlen

/-- A chunk that was never accepted went through every round. -/
theorem Tried.settled (h : a.Tried opts) :
    a.Accepted ∨ opts.batchMaxRetries + 1 ≤ a.tries.length := by
  obtain ⟨result, h⟩ := h
  cases result with
  | ok txId => exact .inl (h.accepted_iff.mpr rfl)
  | error e =>
    refine .inr ?_
    have hlen := Retried.le_length 1 (fun _ => rfl) (fun tries result hround => ?_) h
    · rwa [Nat.mul_one] at hlen
    · obtain ⟨earlier, last, htries, -⟩ := RoundTried.acceptedLast hround
      rw [htries, List.length_append]
      exact Nat.le_add_left _ _

/-- What holds of every chunk: its size, its submissions and how it ends. -/
structure Accounted (opts : RedeemOptions) (a : Attempt) : Prop where
  chunk_ne_nil : a.chunk ≠ []
  chunk_length : a.chunk.length ≤ max opts.batchSize 1
  own : ∀ s ∈ a.tries, s.calls = a.chunk
  /-- Nothing follows an acceptance. -/
  once : ∀ s ∈ a.tries.dropLast, ¬s.Accepted
  bounded : a.tries.length ≤ (opts.batchMaxRetries + 1) * (opts.walletBusyMaxRetries + 1)
  /-- Accepted, or given up after every round. -/
  settled : a.Accepted ∨ opts.batchMaxRetries + 1 ≤ a.tries.length

end Attempt

section
variable (answer : Nat → Except Error String) (opts : RedeemOptions)

/-- The calls of the chunks that were accepted. -/
def acceptedCalls (attempts : List Attempt) : List DepositWalletCall :=
  (attempts.filter (·.Accepted)).flatMap (·.chunk)

/-- The chunks in order, each with its submissions, and what they add to the counts. -/
theorem submitBatch_attempts (chunks : List (List DepositWalletCall)) (t : Tally) :
    ∃ attempts : List Attempt, attempts.map (·.chunk) = chunks ∧
      (∀ a ∈ attempts, a.Tried opts) ∧
      (chunks.foldl (submitBatch answer opts) t).log = t.log ++ attempts.flatMap (·.tries) ∧
      (chunks.foldl (submitBatch answer opts) t).ok = t.ok + (acceptedCalls attempts).length ∧
      (chunks.foldl (submitBatch answer opts) t).ok +
          (chunks.foldl (submitBatch answer opts) t).bad =
        t.ok + t.bad + chunks.flatten.length := by
  induction chunks generalizing t with
  | nil => exact ⟨[], rfl, nofun, (List.append_nil _).symm, rfl, rfl⟩
  | cons chunk chunks ih =>
    obtain ⟨tries, result, htried, heq⟩ := submitBatch_tried answer opts t chunk
    obtain ⟨attempts, hchunks, htries, hlog, hok, hsum⟩ := ih (submitBatch answer opts t chunk)
    refine ⟨⟨chunk, tries⟩ :: attempts, ?_, ?_, ?_, ?_, ?_⟩
    · rw [List.map_cons, hchunks]
    · exact List.forall_mem_cons.mpr ⟨⟨result, htried⟩, htries⟩
    · rw [List.foldl_cons, hlog, heq, List.flatMap_cons, List.append_assoc]
    · rw [List.foldl_cons, hok, heq]
      have haccepted : (Attempt.mk chunk tries).Accepted ↔ result.toOption.isSome = true :=
        htried.accepted_iff
      unfold acceptedCalls
      by_cases hsome : result.toOption.isSome = true
      · rw [List.filter_cons_of_pos (by simpa using haccepted.mpr hsome), List.flatMap_cons,
          List.length_append, if_pos hsome, Nat.add_assoc]
      · rw [List.filter_cons_of_neg (by simpa using fun h => hsome (haccepted.mp h)),
          if_neg hsome, Nat.add_zero]
    · rw [List.foldl_cons, hsum, heq, List.flatten_cons, List.length_append]
      by_cases hsome : result.toOption.isSome = true
      · simp only [if_pos hsome]
        omega
      · simp only [if_neg hsome]
        omega

/-- Entry `i` of the log carries the relayer's `i`-th answer. -/
theorem submitBatches_scripted (calls : List DepositWalletCall) :
    Scripted Submitted.answer answer (submitBatches answer opts calls).log := by
  have hone (chunk : List DepositWalletCall) (log : List Submitted)
      (h : Scripted Submitted.answer answer log) :
      Scripted Submitted.answer answer (submitAndSettle answer chunk log).2 := h.concat rfl
  have hbatch (t : Tally) (chunk : List DepositWalletCall)
      (h : Scripted Submitted.answer answer t.log) :
      Scripted Submitted.answer answer (submitBatch answer opts t chunk).log := by
    have hlog := retry_keeps (fun _ => retry_keeps (hone chunk) Error.isWalletBusy
      opts.walletBusyMaxRetries) (fun _ => true) opts.batchMaxRetries h
    unfold submitBatch
    split
    next txId log heq =>
      rw [← show _ = log from congrArg Prod.snd heq]
      exact hlog
    next e log heq =>
      rw [← show _ = log from congrArg Prod.snd heq]
      exact hlog
  have hempty : Scripted Submitted.answer answer (Tally.mk 0 0 []).log := Scripted.nil _ _
  exact List.foldlRecOn (motive := fun t => Scripted Submitted.answer answer t.log) _ _ hempty
    fun t ht chunk _ => hbatch t chunk ht

theorem submitBatches_attempts (calls : List DepositWalletCall) :
    ∃ attempts : List Attempt, attempts.flatMap (·.chunk) = calls ∧
      (∀ a ∈ attempts, a.chunk ∈ batches (max opts.batchSize 1) calls ∧ a.chunk ≠ [] ∧
        a.Tried opts) ∧
      (submitBatches answer opts calls).log = attempts.flatMap (·.tries) ∧
      (submitBatches answer opts calls).ok = (acceptedCalls attempts).length ∧
      (submitBatches answer opts calls).ok + (submitBatches answer opts calls).bad =
        calls.length := by
  have hpos : 0 < max opts.batchSize 1 := lt_max_of_lt_right Nat.one_pos
  obtain ⟨attempts, hchunks, htries, hlog, hok, hsum⟩ :=
    submitBatch_attempts answer opts (batches (max opts.batchSize 1) calls) ⟨0, 0, []⟩
  refine ⟨attempts, ?_, fun a ha => ?_, hlog, ?_, ?_⟩
  · rw [List.flatMap_def, hchunks, batches_flatten hpos]
  · have hchunk : a.chunk ∈ batches (max opts.batchSize 1) calls :=
      hchunks ▸ List.mem_map_of_mem ha
    exact ⟨hchunk, ne_nil_of_mem_batches hpos hchunk, htries a ha⟩
  · rw [submitBatches, hok]
    exact Nat.zero_add _
  · rw [submitBatches, hsum, batches_flatten hpos]
    exact Nat.zero_add _

/-- The submissions are those of consecutive chunks, one chunk after the other; the relayer's
answers stand in the log by position, and the counts are the calls of the accepted chunks and
the rest. -/
theorem submit_batches_accounted (calls : List DepositWalletCall) :
    ∃ attempts : List Attempt,
      attempts.flatMap (·.chunk) = calls ∧
      (submitBatches answer opts calls).log = attempts.flatMap (·.tries) ∧
      (∀ (i : Nat) (hi : i < (submitBatches answer opts calls).log.length),
        (submitBatches answer opts calls).log[i].answer = answer i) ∧
      (∀ a ∈ attempts, a.Accounted opts) ∧
      (submitBatches answer opts calls).ok =
        ((attempts.filter (·.Accepted)).map (·.chunk.length)).sum ∧
      (submitBatches answer opts calls).ok + (submitBatches answer opts calls).bad =
        calls.length := by
  obtain ⟨attempts, hcalls, heach, hlog, hok, hsum⟩ := submitBatches_attempts answer opts calls
  refine ⟨attempts, hcalls, hlog, submitBatches_scripted answer opts calls, fun a ha => ?_, ?_,
    hsum⟩
  · obtain ⟨hchunk, hne, htried⟩ := heach a ha
    exact
      { chunk_ne_nil := hne
        chunk_length := length_of_mem_batches hchunk
        own := htried.own
        once := htried.once
        bounded := htried.bounded
        settled := htried.settled }
  · rw [hok, acceptedCalls, List.length_flatMap]

/-- Nothing is redeemed exactly when no submission was accepted. -/
theorem submitBatches_ok (calls : List DepositWalletCall) :
    (submitBatches answer opts calls).ok = 0 ↔
      ∀ s ∈ (submitBatches answer opts calls).log, ¬s.Accepted := by
  obtain ⟨attempts, -, heach, hlog, hok, -⟩ := submitBatches_attempts answer opts calls
  rw [hok, hlog, List.length_eq_zero_iff, acceptedCalls, List.flatMap_eq_nil_iff]
  constructor
  · intro hnone s hs hacc
    obtain ⟨a, ha, hsa⟩ := List.mem_flatMap.mp hs
    have haccepted : a ∈ attempts.filter (·.Accepted) :=
      List.mem_filter.mpr ⟨ha, decide_eq_true ⟨s, hsa, hacc⟩⟩
    exact (heach a ha).2.1 (hnone a haccepted)
  · intro hnone a ha
    obtain ⟨hmem, haccepted⟩ := List.mem_filter.mp ha
    obtain ⟨s, hs, hacc⟩ := of_decide_eq_true haccepted
    exact absurd hacc (hnone s (List.mem_flatMap.mpr ⟨a, hmem, hs⟩))

/-- A submission carries calls of the list, and at least one. -/
theorem submitBatches_calls (calls : List DepositWalletCall) {s : Submitted}
    (hs : s ∈ (submitBatches answer opts calls).log) :
    ∃ call ∈ s.calls, call ∈ calls := by
  obtain ⟨attempts, hcalls, heach, hlog, -, -⟩ := submitBatches_attempts answer opts calls
  rw [hlog] at hs
  obtain ⟨a, ha, hsa⟩ := List.mem_flatMap.mp hs
  obtain ⟨-, hne, htried⟩ := heach a ha
  obtain ⟨call, hcall⟩ := List.exists_mem_of_ne_nil _ hne
  rw [htried.own s hsa, ← hcalls]
  exact ⟨call, hcall, List.mem_flatMap.mpr ⟨a, ha, hcall⟩⟩

end

end Eggplant.Redeem
