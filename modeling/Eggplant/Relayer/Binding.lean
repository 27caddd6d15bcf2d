import Eggplant.Relayer.Hashes

/-!
# A batch signature binds its batch

Two computations with one result agree layer by layer, from the final buffer down
to the data of each call, unless two different strings they hashed have the same
hash. Every buffer has fixed places, so equal buffers hold equal words.
-/
namespace Eggplant.Relayer

set_option autoImplicit false

open Eggplant.Lib Eggplant.Lib.Words Eggplant.Lib.Buffer Eggplant.Lib.Oracle
open Eggplant.Convert (DepositWalletCall)

/-! ## Equal buffers -/

theorem toWord_inj {a b : Address} (h : a.toWord = b.toWord) : a = b := Word.leftPad_inj h

theorem u64Word_inj {a b : UInt64} (h : u64Word a = u64Word b) : a = b := by
  have hlt : ∀ v : UInt64, v.toNat < wordSize := fun v => lt_trans v.toNat_lt (by decide)
  exact UInt64.toNat_inj.mp (Word.ofNat_inj (hlt a) (hlt b) h)

theorem digestInput_inj {ds ds' sh sh' : B256} (h : digestInput ds sh = digestInput ds' sh') :
    ds = ds' ∧ sh = sh' := by
  have hcopies := fill_inj h (by simp [shape, FixedBytes.length_eq])
    (by simp [Ordered, FixedBytes.length_eq])
  simp only [List.cons.injEq, Prod.mk.injEq, true_and, and_true] at hcopies
  exact ⟨FixedBytes.eq_of_bytes hcopies.1, FixedBytes.eq_of_bytes hcopies.2⟩

theorem batchDomainBuf_inj {wallet wallet' : Address} {chainId chainId' : UInt64}
    (h : batchDomainBuf wallet chainId = batchDomainBuf wallet' chainId') :
    wallet = wallet' ∧ chainId = chainId' := by
  have hcopies := fill_inj h (by simp [shape, FixedBytes.length_eq])
    (by simp [Ordered, FixedBytes.length_eq])
  simp only [List.cons.injEq, Prod.mk.injEq, true_and, and_true] at hcopies
  exact ⟨toWord_inj (FixedBytes.eq_of_bytes hcopies.2),
    u64Word_inj (FixedBytes.eq_of_bytes hcopies.1)⟩

theorem callBuf_inj {call call' : DepositWalletCall} {dataHash dataHash' : B256}
    (h : callBuf call dataHash = callBuf call' dataHash') :
    call.target = call'.target ∧ dataHash = dataHash' := by
  have hcopies := fill_inj h (by simp [shape, FixedBytes.length_eq])
    (by simp [Ordered, FixedBytes.length_eq])
  simp only [List.cons.injEq, Prod.mk.injEq, true_and, and_true] at hcopies
  exact ⟨toWord_inj (FixedBytes.eq_of_bytes hcopies.1), FixedBytes.eq_of_bytes hcopies.2⟩

theorem batchBuf_inj {wallet wallet' : Address} {nonce nonce' deadline deadline' : UInt64}
    {callsHash callsHash' : B256}
    (h : batchBuf wallet nonce deadline callsHash = batchBuf wallet' nonce' deadline' callsHash') :
    nonce = nonce' ∧ deadline = deadline' ∧ callsHash = callsHash' := by
  have hcopies := fill_inj h (by simp [shape, FixedBytes.length_eq])
    (by simp [Ordered, FixedBytes.length_eq])
  simp only [List.cons.injEq, Prod.mk.injEq, true_and, and_true] at hcopies
  exact ⟨u64Word_inj (FixedBytes.eq_of_bytes hcopies.2.1),
    u64Word_inj (FixedBytes.eq_of_bytes hcopies.2.2.1), FixedBytes.eq_of_bytes hcopies.2.2.2⟩

/-! ## The call list -/

/-- Mapped lists that agree come from lists that agree, when the function separates
the elements of the one from those of the other. -/
theorem eq_of_map_eq {α β : Type} {f : α → β} {xs ys : List α}
    (hf : ∀ x ∈ xs, ∀ y ∈ ys, f x = f y → x = y) (h : xs.map f = ys.map f) : xs = ys := by
  induction xs generalizing ys with
  | nil => exact (List.map_eq_nil_iff.mp h.symm).symm
  | cons x xs ih =>
    cases ys with
    | nil => cases h
    | cons y ys =>
      rw [List.map_cons, List.map_cons, List.cons.injEq] at h
      have hxs := ih (fun a ha b hb =>
        hf a (List.mem_cons_of_mem _ ha) b (List.mem_cons_of_mem _ hb)) h.2
      rw [hf x List.mem_cons_self y List.mem_cons_self h.1, hxs]

section
variable {keccak256 : Bytes → B256}

/-- The strings hashed for the calls of a batch. -/
def callQueries (keccak256 : Bytes → B256) (calls : List DepositWalletCall) : List Bytes :=
  calls.flatMap fun call => [call.data, callBuf call (keccak256 call.data)]

theorem data_mem_callQueries {calls : List DepositWalletCall} {call : DepositWalletCall}
    (h : call ∈ calls) : call.data ∈ callQueries keccak256 calls :=
  List.mem_flatMap.mpr ⟨call, h, List.mem_cons_self⟩

theorem callBuf_mem_callQueries {calls : List DepositWalletCall} {call : DepositWalletCall}
    (h : call ∈ calls) : callBuf call (keccak256 call.data) ∈ callQueries keccak256 calls :=
  List.mem_flatMap.mpr ⟨call, h, List.mem_cons_of_mem _ List.mem_cons_self⟩

/-- Without a collision a call hash determines its call. -/
theorem call_eq_of_callHash {calls calls' : List DepositWalletCall}
    (hno : ¬Collision keccak256 (callQueries keccak256 calls) (callQueries keccak256 calls'))
    {call call' : DepositWalletCall} (hc : call ∈ calls) (hc' : call' ∈ calls')
    (h : callHash keccak256 call = callHash keccak256 call') : call = call' := by
  have hbuf := eq_of_no_collision hno (callBuf_mem_callQueries hc) (callBuf_mem_callQueries hc') h
  obtain ⟨htarget, hhash⟩ := callBuf_inj hbuf
  have hdata := eq_of_no_collision hno (data_mem_callQueries hc) (data_mem_callQueries hc') hhash
  cases call
  cases call'
  exact congr (congrArg DepositWalletCall.mk htarget) hdata

/-- Equal hashes: the same batch, or two hashed strings that collide. -/
theorem batch_hash_binds (keccak256 : Bytes → B256) (wallet wallet' : Address)
    (chainId chainId' nonce nonce' deadline deadline' : UInt64)
    (calls calls' : List DepositWalletCall)
    (h : (computeDepositWalletBatchHash keccak256 wallet chainId nonce deadline calls).value =
      (computeDepositWalletBatchHash keccak256 wallet' chainId' nonce' deadline' calls').value) :
    (wallet = wallet' ∧ chainId = chainId' ∧ nonce = nonce' ∧ deadline = deadline' ∧
        calls = calls') ∨
      Collision keccak256
        (computeDepositWalletBatchHash keccak256 wallet chainId nonce deadline calls).queries
        (computeDepositWalletBatchHash keccak256 wallet' chainId' nonce' deadline' calls').queries := by
  rw [batchHash_value, batchHash_value] at h
  rw [batchHash_queries, batchHash_queries]
  -- read the layers from the outside in, each step on strings both runs hashed
  refine or_iff_not_imp_right.mpr fun hno => ?_
  have hinput := eq_of_no_collision hno (by simp) (by simp) h
  obtain ⟨hdomain, hstruct⟩ := digestInput_inj hinput
  obtain ⟨hwallet, hchain⟩ :=
    batchDomainBuf_inj (eq_of_no_collision hno (by simp) (by simp) hdomain)
  obtain ⟨hnonce, hdeadline, hcalls⟩ :=
    batchBuf_inj (eq_of_no_collision hno (by simp) (by simp) hstruct)
  have hwords := Abi.wordsBytes_inj (eq_of_no_collision hno (by simp) (by simp) hcalls)
  have hinner : ¬Collision keccak256 (callQueries keccak256 calls)
      (callQueries keccak256 calls') := by
    intro hcol
    obtain ⟨q, hq, q', hq', hne⟩ := hcol
    exact hno ⟨q, List.mem_cons_of_mem _ (List.mem_append_left _ hq), q',
      List.mem_cons_of_mem _ (List.mem_append_left _ hq'), hne⟩
  exact ⟨hwallet, hchain, hnonce, hdeadline,
    eq_of_map_eq (fun c hc c' hc' => call_eq_of_callHash hinner hc hc') hwords⟩

/-- Under a hash that maps everything to zero, an empty batch and a one-call batch collide. -/
theorem batch_hash_binds_constant :
    Collision (fun _ => FixedBytes.zero 32)
      (computeDepositWalletBatchHash (fun _ => FixedBytes.zero 32) (FixedBytes.zero 20) 137 5 1000
        []).queries
      (computeDepositWalletBatchHash (fun _ => FixedBytes.zero 32) (FixedBytes.zero 20) 137 5 1000
        [⟨FixedBytes.zero 20, [0xde, 0xad]⟩]).queries :=
  (batch_hash_binds (fun _ => FixedBytes.zero 32) (FixedBytes.zero 20) (FixedBytes.zero 20) 137 137
    5 5 1000 1000 [] [⟨FixedBytes.zero 20, [0xde, 0xad]⟩] rfl).resolve_left (by decide)

end

end Eggplant.Relayer
