import Eggplant.Convert.Calldata

/-!
# The balance read layout

One `balanceOfBatch` query covers every leg of every job: per leg the NO token id,
then the YES token id when it is known. The unpackers walk the same layout back.
-/
namespace Eggplant.Convert

set_option autoImplicit false

/-- One event's work. `queuedAt` is a reading of the worker's monotonic clock. -/
structure ConvertJob where
  slug : String
  legs : List ConvertLeg
  amountRaw : Nat
  attempts : Nat
  queuedAt : Nat
  deriving DecidableEq

def batchTokenIds (legs : List ConvertLeg) : List Nat :=
  legs.flatMap (fun leg => leg.noTokenId :: leg.yesTokenId.toList)

def tokenCount (legs : List ConvertLeg) : Nat :=
  (legs.map (fun l => 1 + if l.yesTokenId.isSome then 1 else 0)).sum

def fewerBalances : Error := .invalidData "balanceOfBatch returned fewer balances than queried"

def moreBalances : Error := .invalidData "balanceOfBatch returned more balances than queried"

def nextBalance : List Nat → Except Error (Nat × List Nat)
  | [] => .error fewerBalances
  | b :: rest => .ok (b, rest)

/-- The loop of `unpack_balances`; what the cursor has left is returned with the pairs. -/
def unpackLegs : List ConvertLeg → List Nat → Except Error (List (Nat × Nat) × List Nat)
  | [], cursor => .ok ([], cursor)
  | leg :: legs, cursor => do
      let (noBal, cursor) ← nextBalance cursor
      let (yesBal, cursor) ← if leg.yesTokenId.isSome then nextBalance cursor else .ok (0, cursor)
      let (pairs, cursor) ← unpackLegs legs cursor
      return ((noBal, yesBal) :: pairs, cursor)

def unpackBalances (legs : List ConvertLeg) (balances : List Nat) :
    Except Error (List (Nat × Nat)) := do
  let (pairs, cursor) ← unpackLegs legs balances
  if cursor = [] then return pairs else .error moreBalances

def unpackMultiFrom (balances : List Nat) :
    Nat → List ConvertJob → Except Error (List (List (Nat × Nat)))
  | offset, [] => if offset ≠ balances.length then .error moreBalances else .ok []
  | offset, job :: jobs =>
      let n := tokenCount job.legs
      if offset + n ≤ balances.length then do
        let pairs ← unpackBalances job.legs ((balances.drop offset).take n)
        let rest ← unpackMultiFrom balances (offset + n) jobs
        return pairs :: rest
      else .error fewerBalances

def unpackMulti (jobs : List ConvertJob) (balances : List Nat) :
    Except Error (List (List (Nat × Nat))) :=
  unpackMultiFrom balances 0 jobs

/-! ## Round trip -/

/-- What a leg is planned from, given the balance of every token. -/
def legPair (bal : Nat → Nat) (leg : ConvertLeg) : Nat × Nat :=
  (bal leg.noTokenId, (leg.yesTokenId.map bal).getD 0)

theorem noTokenId_mem {legs : List ConvertLeg} {leg : ConvertLeg} (h : leg ∈ legs) :
    leg.noTokenId ∈ batchTokenIds legs :=
  List.mem_flatMap.mpr ⟨leg, h, List.mem_cons_self⟩

theorem yesTokenId_mem {legs : List ConvertLeg} {leg : ConvertLeg} (h : leg ∈ legs) {y : Nat}
    (hy : leg.yesTokenId = some y) : y ∈ batchTokenIds legs :=
  List.mem_flatMap.mpr ⟨leg, h, by simp [hy]⟩

theorem tokenCount_cons (leg : ConvertLeg) (legs : List ConvertLeg) :
    tokenCount (leg :: legs) =
      (1 + if leg.yesTokenId.isSome then 1 else 0) + tokenCount legs := by
  simp [tokenCount]

theorem batchTokenIds_length (legs : List ConvertLeg) :
    (batchTokenIds legs).length = tokenCount legs := by
  induction legs with
  | nil => rfl
  | cons leg legs ih =>
    rw [tokenCount_cons, ← ih, batchTokenIds, List.flatMap_cons, List.length_append]
    cases leg.yesTokenId <;> rfl

/-- The cursor reads each leg's balances and stops where the next leg's begin. -/
theorem unpackLegs_batch (bal : Nat → Nat) (legs : List ConvertLeg) (rest : List Nat) :
    unpackLegs legs ((batchTokenIds legs).map bal ++ rest) = .ok (legs.map (legPair bal), rest) := by
  induction legs with
  | nil => rfl
  | cons leg legs ih =>
    have hids : (batchTokenIds (leg :: legs)).map bal ++ rest =
        bal leg.noTokenId :: (leg.yesTokenId.toList.map bal ++
          ((batchTokenIds legs).map bal ++ rest)) := by
      simp [batchTokenIds]
    rw [hids, unpackLegs]
    simp only [bind, Except.bind, nextBalance]
    cases hy : leg.yesTokenId with
    | none =>
      simp only [Option.isSome_none, Bool.false_eq_true, if_false, Option.toList_none, List.map_nil,
        List.nil_append, ih]
      simp [legPair, hy, pure, Except.pure]
    | some y =>
      simp only [Option.isSome_some, if_true, Option.toList_some, List.map_cons, List.map_nil,
        List.singleton_append, ih]
      simp [legPair, hy, pure, Except.pure]

theorem unpackBalances_batch (bal : Nat → Nat) (legs : List ConvertLeg) :
    unpackBalances legs ((batchTokenIds legs).map bal) = .ok (legs.map (legPair bal)) := by
  have h := unpackLegs_batch bal legs []
  rw [List.append_nil] at h
  rw [unpackBalances, h]
  rfl

private theorem unpackMultiFrom_batch (bal : Nat → Nat) (jobs : List ConvertJob) (before : List Nat) :
    unpackMultiFrom (before ++ (jobs.flatMap (fun j => batchTokenIds j.legs)).map bal)
        before.length jobs =
      .ok (jobs.map (fun j => j.legs.map (legPair bal))) := by
  induction jobs generalizing before with
  | nil => simp [unpackMultiFrom]
  | cons job jobs ih =>
    have hcount : ((batchTokenIds job.legs).map bal).length = tokenCount job.legs := by
      rw [List.length_map, batchTokenIds_length]
    have hsplit : before ++ ((job :: jobs).flatMap (fun j => batchTokenIds j.legs)).map bal =
        (before ++ (batchTokenIds job.legs).map bal) ++
          (jobs.flatMap (fun j => batchTokenIds j.legs)).map bal := by
      rw [List.flatMap_cons, List.map_append, List.append_assoc]
    have hslice : (((before ++ (batchTokenIds job.legs).map bal) ++
          (jobs.flatMap (fun j => batchTokenIds j.legs)).map bal).drop before.length).take
        (tokenCount job.legs) = (batchTokenIds job.legs).map bal := by
      rw [List.append_assoc, List.drop_left, ← hcount, List.take_left]
    have hrest := ih (before ++ (batchTokenIds job.legs).map bal)
    rw [List.length_append, hcount] at hrest
    have hfits : before.length + tokenCount job.legs ≤ ((before ++ (batchTokenIds job.legs).map bal) ++
        (jobs.flatMap (fun j => batchTokenIds j.legs)).map bal).length := by
      rw [List.length_append, List.length_append, hcount]
      omega
    rw [hsplit, unpackMultiFrom, if_pos hfits, hslice, unpackBalances_batch, hrest]
    rfl

/-- Every leg gets its own balances back. -/
theorem unpackMulti_batch (bal : Nat → Nat) (jobs : List ConvertJob) :
    unpackMulti jobs ((jobs.flatMap (fun j => batchTokenIds j.legs)).map bal) =
      .ok (jobs.map (fun j => j.legs.map (legPair bal))) :=
  unpackMultiFrom_batch bal jobs []

/-! ## Lengths -/

/-- Every token id the jobs ask for. -/
def totalCount (jobs : List ConvertJob) : Nat := (jobs.map (fun j => tokenCount j.legs)).sum

/-- The offset moves by each job's count, so it ends on the array's length only when all
counts fit it. -/
theorem length_of_unpackMultiFrom {balances : List Nat} {offset : Nat} {jobs : List ConvertJob}
    {rows : List (List (Nat × Nat))} (h : unpackMultiFrom balances offset jobs = .ok rows) :
    balances.length = offset + totalCount jobs := by
  induction jobs generalizing offset rows with
  | nil =>
    rw [unpackMultiFrom] at h
    split at h
    next => cases h
    next heq => exact (not_not.mp heq).symm
  | cons job jobs ih =>
    rw [unpackMultiFrom] at h
    split at h
    next =>
      obtain ⟨row, -, h⟩ := bind_ok h
      obtain ⟨rest, hrest, -⟩ := bind_ok h
      rw [ih hrest, totalCount, totalCount, List.map_cons, List.sum_cons, Nat.add_assoc]
    next => cases h

/-- The unpackers invert the flattener, and refuse an array of any other length. -/
theorem balance_layout_round_trip (jobs : List ConvertJob) :
    (∀ bal : Nat → Nat,
      unpackMulti jobs ((jobs.flatMap (fun j => batchTokenIds j.legs)).map bal) =
        .ok (jobs.map (fun j => j.legs.map (fun leg =>
          (bal leg.noTokenId, (leg.yesTokenId.map bal).getD 0))))) ∧
    ∀ balances : List Nat, balances.length ≠ (jobs.map (fun j => tokenCount j.legs)).sum →
      ∃ e, unpackMulti jobs balances = .error e := by
  refine ⟨fun bal => unpackMulti_batch bal jobs, fun balances hlen => ?_⟩
  cases hrows : unpackMulti jobs balances with
  | error e => exact ⟨e, rfl⟩
  | ok rows =>
    have hexact := length_of_unpackMultiFrom hrows
    rw [Nat.zero_add] at hexact
    exact absurd hexact hlen

end Eggplant.Convert
