import Eggplant.Convert.Engine
import Eggplant.Lib.Sequenced
import Eggplant.Relayer.Receipt
import Eggplant.Wallets

/-!
# Approvals of the Safe

`ensure_approvals` reads the nonce of the Safe once, deploying the Safe first where it is
missing, and submits each missing approval under the next number. The relayer's queue is
worked off meanwhile, and a run can end anywhere.
-/
namespace Eggplant.Approval

set_option autoImplicit false

open Eggplant.Lib Eggplant.Lib.Words Eggplant.Lib.Oracle Eggplant.Lib.Sequenced
open Eggplant.Relayer (Effect Net RelayerClient Signer SubmitResponse)
open Eggplant.Chain (contractConfig deriveSafeWallet polygon walletConfig)

/-! ## Calls -/

/-- `setApprovalForAll(address,bool)`. -/
def setApprovalForAllSelector : FixedBytes 4 := ⟨[0xa2, 0x2c, 0xb4, 0x65], rfl⟩

def approveCall (spender : Address) (value : Nat) : Bytes :=
  Abi.encodeCall Convert.approveSelector [.word spender.toWord, .word (Word.ofNat value)]

def setApprovalForAllCall (operator : Address) (approved : Bool) : Bytes :=
  Abi.encodeCall setApprovalForAllSelector
    [.word operator.toWord, .word (Word.ofNat approved.toNat)]

/-! ## The Safe on the chain -/

/-- What the Safe has approved: pUSD by spender, outcome tokens by operator. -/
structure Approvals where
  allowance : Address → Nat
  operator : Address → Bool

def wordAddress (w : Word) : Address :=
  ⟨w.bytes.drop 12, by rw [List.length_drop, w.length_eq]⟩

/-- A call the Safe makes, as the two token contracts take it. -/
def applyCall (a : Approvals) (call : Address × Bytes) : Approvals :=
  if call.1 = Chain.collateral then
    match Abi.decodeCall Convert.approveSelector [.word, .word] call.2 with
    | some [.word spender, .word value] =>
      { a with allowance := Function.update a.allowance (wordAddress spender) value.toNat }
    | _ => a
  else if call.1 = Chain.ctf then
    match Abi.decodeCall setApprovalForAllSelector [.word, .word] call.2 with
    | some [.word operator, .word approved] =>
      { a with operator := Function.update a.operator (wordAddress operator) (approved.toNat ≠ 0) }
    | _ => a
  else a

structure OnChain where
  deployed : Bool
  safe : Account Approvals

/-- A signed payload as the chain carries it out: the Safe takes a transaction of its own, on
its own chain, under its next nonce. -/
def execute (safe : Address) (c : OnChain) : Payload → OnChain
  | .createProxy safeFactory chainId =>
    if (walletConfig chainId).map (·.safeFactory) = some safeFactory ∧ chainId = polygon then
      { c with deployed := true }
    else c
  | .safeTx safe' chainId toAddr data nonce =>
    if c.deployed ∧ safe' = safe ∧ chainId = polygon then
      { c with safe := exec applyCall c.safe nonce.toNat (toAddr, data) }
    else c
  | _ => c

/-! ## The run -/

/-- What a run meets: the answers of the key, and by position failing calls to the node, the
network of the relayer, whether the relayer takes a submission whose answer is lost, and how
much of its queue is worked off before each call. -/
structure Env where
  signHash : B256 → Except String Clob.Signature
  nodeError : Nat → Option String
  net : Nat → Net
  takes : Nat → Bool
  mined : Nat → Nat

structure World where
  relayer : Pending OnChain Payload
  calls : Nat

def World.init (c : OnChain) : World := ⟨.empty c, 0⟩

def Effect.isSent : Effect → Bool
  | .sent _ => true
  | .signed _ => false

section
variable (keccak256 : Bytes → B256) (env : Env) (client : RelayerClient) (signer : Signer)
  (safe : Address)

/-- Time passes up to the next call. -/
def World.tick (w : World) : World :=
  ⟨w.relayer.work (execute safe) (env.mined w.calls), w.calls + 1⟩

def readChain {α : Type} (read : OnChain → α) (w : World) : Except String α × World :=
  let w' := w.tick env safe
  (match env.nodeError w.calls with
    | some e => .error e
    | none => .ok (read w'.relayer.state),
    w')

/-- A submission; the relayer has taken it if it says so, and perhaps if its answer is lost. -/
def relay (payload : Payload) (send : Net → Logged Effect (Except Error SubmitResponse))
    (w : World) : Except Error SubmitResponse × World :=
  let answer := send (env.net w.calls)
  let w' := w.tick env safe
  (answer.value,
    if answer.queries.any Effect.isSent && (answer.value.isOk || env.takes w.calls) then
      { w' with relayer := w'.relayer.push payload }
    else w')

/-- One approval: it is read, and submitted where it is missing. -/
def ensureGrant (read : OnChain → Bool) (checkFailed : String) (toAddr : Address) (data : Bytes)
    (nonce : UInt64) (w : World) : Except Error UInt64 × World :=
  match readChain env safe read w with
  | (.error e, w) => (.error (.invalidData (checkFailed ++ ": " ++ e)), w)
  | (.ok true, w) => (.ok nonce, w)
  | (.ok false, w) =>
    match relay env safe (.safeTx safe client.chainId toAddr data nonce)
      (fun net => Relayer.submit keccak256 net client signer safe toAddr data nonce) w with
    | (.error e, w) => (.error e, w)
    | (.ok _, w) => (.ok (nonce + 1), w)

def ensureAllowance (collateral : Address) (target : String × Address) :
    UInt64 → World → Except Error UInt64 × World :=
  ensureGrant keccak256 env client signer safe
    (fun c => c.safe.state.allowance target.2 ≠ 0)
    ("allowance check failed for " ++ target.1) collateral (approveCall target.2 U256.max)

def ensureOperator (conditionalTokens : Address) (target : String × Address) :
    UInt64 → World → Except Error UInt64 × World :=
  ensureGrant keccak256 env client signer safe
    (fun c => c.safe.state.operator target.2)
    ("CTF approval check failed for " ++ target.1) conditionalTokens
    (setApprovalForAllCall target.2 true)

def ensureTargets (config : Chain.ContractConfig) :
    List (String × Address) → UInt64 → World → Except Error Unit × World
  | [], _, w => (.ok (), w)
  | target :: targets, nonce, w =>
    match ensureAllowance keccak256 env client signer safe config.collateral target nonce w with
    | (.error e, w) => (.error e, w)
    | (.ok nonce, w) =>
      match ensureOperator keccak256 env client signer safe config.conditionalTokens target nonce
        w with
      | (.error e, w) => (.error e, w)
      | (.ok nonce, w) => ensureTargets config targets nonce w

/-- The Safe is deployed through the relayer; its first nonce is zero. -/
def deploySafe (w : World) : Except Error UInt64 × World :=
  match walletConfig polygon with
  | none => (.error (.invalidData "no wallet config for Polygon"), w)
  | some walletCfg =>
    match relay env safe (.createProxy walletCfg.safeFactory polygon)
      (fun net =>
        Relayer.deploy keccak256 net client signer walletCfg.safeFactory safe polygon) w with
    | (.error e, w) => (.error e, w)
    | (.ok _, w) =>
      -- ten seconds for the deployment
      (.ok 0, w.tick env safe)

/-- The next nonce; any failure to read it counts as a Safe that is not deployed. No result is a
panic: the nonce does not fit. -/
def startNonce (w : World) : Option (Except Error UInt64) × World :=
  match readChain env safe (fun c => if c.deployed then some c.safe.next else none) w with
  | (.ok (some n), w) => (if n ≤ u64Max then some (.ok (UInt64.ofNat n)) else none, w)
  | (_, w) =>
    let (result, w) := deploySafe keccak256 env client signer safe w
    (some result, w)

def targets (config : Chain.ContractConfig) (exchangeV2 : Address) : List (String × Address) :=
  ("Neg Risk CTF Exchange V2", exchangeV2) ::
    (config.negRiskAdapter.toList.map fun adapter => ("Neg Risk Adapter", adapter)) ++
    [("Neg Risk Collateral Adapter", Chain.negRiskCollateralAdapter)]

end

/-- `ensure_approvals`. -/
def ensureApprovals (keccak256 : Bytes → B256) (env : Env) (client : RelayerClient)
    (signer : Signer) (w : World) : Option (Except Error Unit) × World :=
  match deriveSafeWallet keccak256 signer.address polygon with
  | none => (some (.error (.invalidData "failed to derive Safe wallet address")), w)
  | some safe =>
    match contractConfig polygon true with
    | none => (some (.error (.invalidData "no neg risk contract config for Polygon")), w)
    | some config =>
      match config.exchangeV2 with
      | none => (some (.error (.invalidData "no V2 exchange for Polygon")), w)
      | some exchangeV2 =>
        match readChain env safe (fun _ => ()) w with
        | (.error e, w) => (some (.error (.invalidData ("RPC connect failed: " ++ e))), w)
        | (.ok _, w) =>
          match startNonce keccak256 env client signer safe w with
          | (none, w) => (none, w)
          | (some (.error e), w) => (some (.error e), w)
          | (some (.ok nonce), w) =>
            let (result, w) := ensureTargets keccak256 env client signer safe config
              (targets config exchangeV2) nonce w
            (some result, w)

/-! ## What is missing -/

inductive Grant where
  | allowance (spender : Address)
  | operator (account : Address)
  deriving DecidableEq

/-- The call that gives an approval: its target and its data. -/
def Grant.call : Grant → Address × Bytes
  | allowance spender => (Chain.collateral, approveCall spender U256.max)
  | operator account => (Chain.ctf, setApprovalForAllCall account true)

def Approvals.held (a : Approvals) : Grant → Bool
  | .allowance spender => a.allowance spender ≠ 0
  | .operator account => a.operator account

/-- The approvals in the order in which they are seen to. -/
def grants : List Grant :=
  [Chain.negRiskExchangeV2, Chain.negRiskAdapter, Chain.negRiskCollateralAdapter].flatMap
    fun target => [.allowance target, .operator target]

theorem grants_nodup : grants.Nodup := by decide

def missing (a : Approvals) (gs : List Grant) : List Grant := gs.filter fun g => !a.held g

theorem wordAddress_toWord (a : Address) : wordAddress a.toWord = a := by
  have hlen : (List.replicate (32 - 20) (0 : UInt8)).length = 12 := rfl
  exact FixedBytes.eq_of_bytes (List.drop_left' hlen)

/-- The approval as the token contract keeps it. -/
def Grant.give (a : Approvals) : Grant → Approvals
  | allowance spender => { a with allowance := Function.update a.allowance spender U256.max }
  | operator account => { a with operator := Function.update a.operator account true }

theorem applyCall_call (a : Approvals) (g : Grant) : applyCall a g.call = g.give a := by
  have hmax : (Word.ofNat U256.max).toNat = U256.max := Word.toNat_ofNat_of_lt (by decide)
  have htrue : (Word.ofNat true.toNat).toNat = 1 := Word.toNat_ofNat_of_lt (by decide)
  have hctf : Chain.ctf ≠ Chain.collateral := by decide
  have hfits (w v : Word) : (Abi.encode [.word w, .word v]).length < wordSize := by
    have hlen : (Abi.encode [.word w, .word v]).length = 64 := by
      rw [Abi.encode, List.length_append, Abi.heads_length]
      rfl
    rw [hlen]
    decide
  cases g with
  | allowance spender =>
    have hdecode := Abi.decodeCall_encodeCall Convert.approveSelector _
      (hfits spender.toWord (Word.ofNat U256.max))
    simp only [List.map_cons, List.map_nil, Abi.Arg.type] at hdecode
    simp only [applyCall, Grant.call, if_true, approveCall, hdecode, wordAddress_toWord, hmax]
    rfl
  | operator account =>
    have hdecode := Abi.decodeCall_encodeCall setApprovalForAllSelector _
      (hfits account.toWord (Word.ofNat true.toNat))
    simp only [List.map_cons, List.map_nil, Abi.Arg.type] at hdecode
    simp only [applyCall, Grant.call, if_neg hctf, if_true, setApprovalForAllCall, hdecode,
      wordAddress_toWord, htrue]
    rfl

/-- A call that gives an approval gives this one and takes none. -/
theorem held_applyCall (a : Approvals) (g g' : Grant) :
    (applyCall a g.call).held g' = (decide (g' = g) || a.held g') := by
  have hmax : U256.max ≠ 0 := by decide
  rw [applyCall_call]
  cases g with
  | allowance spender =>
    cases g' with
    | allowance spender' =>
      by_cases h : spender' = spender
      · simp [Approvals.held, Grant.give, h, hmax]
      · simp [Approvals.held, Grant.give, h]
    | operator account' =>
      rw [decide_eq_false nofun, Bool.false_or]
      rfl
  | operator account =>
    cases g' with
    | allowance spender' =>
      rw [decide_eq_false nofun, Bool.false_or]
      rfl
    | operator account' =>
      by_cases h : account' = account
      · simp [Approvals.held, Grant.give, h]
      · simp [Approvals.held, Grant.give, h]

theorem held_foldl (a : Approvals) (gs : List Grant) (g : Grant) :
    ((gs.map Grant.call).foldl applyCall a).held g = (decide (g ∈ gs) || a.held g) := by
  induction gs generalizing a with
  | nil => simp
  | cons g' gs ih =>
    rw [List.map_cons, List.foldl_cons, ih, held_applyCall]
    by_cases h : g = g'
    · simp [h]
    · simp [h]

/-- Giving the first of what is missing leaves the others missing, in the same order. -/
theorem missing_foldl (a : Approvals) {gs : List Grant} (hgs : gs.Nodup) (k : Nat) :
    missing ((((missing a gs).take k).map Grant.call).foldl applyCall a) gs =
      (missing a gs).drop k := by
  have hnodup : (missing a gs).Nodup := hgs.filter _
  have hdisjoint := List.disjoint_take_drop hnodup (le_refl k)
  have hsplit : missing ((((missing a gs).take k).map Grant.call).foldl applyCall a) gs =
      (missing a gs).filter fun g => !decide (g ∈ (missing a gs).take k) := by
    rw [missing, missing, List.filter_filter]
    refine List.filter_congr fun g _ => ?_
    rw [held_foldl]
    simp [Bool.and_comm]
  have htake : ((missing a gs).take k).filter
      (fun g => !decide (g ∈ (missing a gs).take k)) = [] := by
    rw [List.filter_eq_nil_iff]
    intro g hg
    simp [hg]
  have hdrop : ((missing a gs).drop k).filter
      (fun g => !decide (g ∈ (missing a gs).take k)) = (missing a gs).drop k := by
    rw [List.filter_eq_self]
    intro g hg
    have hnot : g ∉ (missing a gs).take k := fun h => hdisjoint h hg
    simp [hnot]
  rw [hsplit]
  calc (missing a gs).filter _
      = ((missing a gs).take k ++ (missing a gs).drop k).filter _ := by
        rw [List.take_append_drop]
    _ = (missing a gs).drop k := by rw [List.filter_append, htake, hdrop, List.nil_append]

/-! ## The plan -/

def safeFactory : Address := Address.ofNat 0xaacFeEa03eb1561C4e67d661e40682Bd20E3541b

theorem walletConfig_polygon : ∃ proxyFactory,
    walletConfig polygon = some ⟨proxyFactory, safeFactory⟩ := ⟨_, rfl⟩

section
variable (safe : Address)

def payloadOf (item : Nat × (Address × Bytes)) : Payload :=
  .safeTx safe polygon item.2.1 item.2.2 (UInt64.ofNat item.1)

def deployment (c : OnChain) : List Payload :=
  if c.deployed then [] else [.createProxy safeFactory polygon]

/-- What is still to be submitted once some approvals have been seen to: the deployment, then what
is missing of them from the next nonce on. -/
def planUpTo (c : OnChain) (gs : List Grant) : List Payload :=
  deployment c ++
    (number c.safe.next ((missing c.safe.state gs).map Grant.call)).map (payloadOf safe)

def plan (c : OnChain) : List Payload := planUpTo safe c grants

/-- A Safe that is not there has made no transaction, and there are numbers for all that is
missing. -/
structure Ready (c : OnChain) : Prop where
  fresh : c.deployed = false → c.safe.next = 0
  room : c.safe.next + (missing c.safe.state grants).length ≤ u64Max

/-- The chain with the first `k` of the missing approvals given. -/
def given (c : OnChain) (gs : List Grant) (k : Nat) : OnChain where
  deployed := true
  safe :=
    { next := c.safe.next + ((missing c.safe.state gs).take k).length
      state := (((missing c.safe.state gs).take k).map Grant.call).foldl applyCall c.safe.state }

variable {safe} {c : OnChain}

theorem deployment_length_le (c : OnChain) : (deployment c).length ≤ 1 := by
  rw [deployment]
  split <;> simp

theorem execute_deployment :
    (deployment c).foldl (execute safe) c = { c with deployed := true } := by
  rw [deployment]
  cases hdeployed : c.deployed with
  | true =>
    obtain ⟨deployed, account⟩ := c
    cases hdeployed
    rfl
  | false => rfl

theorem execute_numbered (hdeployed : c.deployed = true) (items : List (Nat × (Address × Bytes)))
    (hitems : ∀ item ∈ items, item.1 ≤ u64Max) :
    (items.map (payloadOf safe)).foldl (execute safe) c =
      { c with safe := execAll applyCall c.safe items } := by
  induction items generalizing c with
  | nil => rfl
  | cons item items ih =>
    have hnonce : (UInt64.ofNat item.1).toNat = item.1 := by
      have hle := hitems item List.mem_cons_self
      have hmax : u64Max = 2 ^ 64 - 1 := rfl
      rw [UInt64.toNat_ofNat']
      omega
    have hexec : execute safe c (payloadOf safe item) =
        { c with safe := exec applyCall c.safe item.1 item.2 } := by
      simp only [execute, payloadOf, hdeployed, hnonce, and_self, if_true]
    rw [List.map_cons, List.foldl_cons, hexec,
      @ih { c with safe := exec applyCall c.safe item.1 item.2 } hdeployed
        fun item hitem => hitems item (List.mem_cons_of_mem _ hitem)]
    rfl

/-- A beginning of what is to be submitted, carried out: every part of it takes effect. -/
theorem execute_planUpTo (safe : Address) (hready : Ready c) {gs : List Grant}
    (hgs : gs <+: grants) (k : Nat) :
    ((planUpTo safe c gs).take k).foldl (execute safe) c =
      if k < (deployment c).length then c else given c gs (k - (deployment c).length) := by
  by_cases hk : k < (deployment c).length
  · have hzero : k = 0 := by
      have hle := deployment_length_le c
      omega
    rw [if_pos hk, hzero]
    rfl
  · have hops := ((hgs.filter fun g => !c.safe.state.held g).length_le)
    have hroom := hready.room
    rw [if_neg hk, planUpTo, List.take_append, List.take_of_length_le (Nat.le_of_not_lt hk),
      List.foldl_append, execute_deployment, ← List.map_take, number_take, ← List.map_take,
      execute_numbered rfl]
    · rw [execAll_number, List.length_map]
      rfl
    · intro item hitem
      have hbounds := @number_lt _ _ item.1 item.2 _ hitem
      have htake := List.length_take_le' (k - (deployment c).length)
        (missing c.safe.state gs)
      simp only [List.length_map] at hbounds
      simp only [missing] at hops hroom htake hbounds
      omega

theorem held_given (c : OnChain) (gs : List Grant) (k : Nat) (g : Grant) :
    (given c gs k).safe.state.held g =
      (decide (g ∈ (missing c.safe.state gs).take k) || c.safe.state.held g) :=
  held_foldl _ _ _

theorem plan_given (safe : Address) (c : OnChain) (k : Nat) :
    plan safe (given c grants k) =
      (plan safe c).drop ((deployment c).length + k) := by
  have hmissing : missing (given c grants k).safe.state grants =
      (missing c.safe.state grants).drop k := missing_foldl _ grants_nodup k
  rw [plan, plan, planUpTo, planUpTo, List.drop_append, hmissing,
    List.drop_of_length_le (Nat.le_add_right _ _), Nat.add_sub_cancel_left, ← List.map_drop,
    number_drop, ← List.map_drop, ← List.map_take, List.length_map]
  rfl

theorem Ready.given (hready : Ready c) (k : Nat) : Ready (given c grants k) := by
  refine ⟨nofun, ?_⟩
  have hmissing : missing (Approval.given c grants k).safe.state grants =
      (missing c.safe.state grants).drop k := missing_foldl _ grants_nodup k
  have hroom := hready.room
  have hsplit := congrArg List.length (List.take_append_drop k (missing c.safe.state grants))
  rw [List.length_append] at hsplit
  rw [hmissing]
  show c.safe.next + ((missing c.safe.state grants).take k).length + _ ≤ u64Max
  omega

theorem resumes : Resumes (execute safe) (plan safe) Ready := by
  intro c hready k
  have hexecute := execute_planUpTo safe hready (List.prefix_refl grants) k
  rw [plan] at *
  rw [hexecute]
  by_cases hk : k < (deployment c).length
  · have hzero : k = 0 := by
      have hle := deployment_length_le c
      omega
    rw [if_pos hk, hzero]
    exact ⟨hready, rfl⟩
  · rw [if_neg hk]
    refine ⟨hready.given _, ?_⟩
    have hplan := plan_given safe c (k - (deployment c).length)
    rw [Nat.add_sub_cancel' (Nat.le_of_not_lt hk)] at hplan
    exact hplan

end

/-! ## One run -/

section
variable (keccak256 : Bytes → B256) (net : Net) (client : RelayerClient) (signer : Signer)

/-- What the relayer acknowledges has been posted. -/
theorem submit_posted (safe toAddr : Address) (data : Bytes) (nonce : UInt64)
    (h : (Relayer.submit keccak256 net client signer safe toAddr data nonce).value.isOk = true) :
    (Relayer.submit keccak256 net client signer safe toAddr data nonce).queries.any
      Effect.isSent = true := by
  rw [Relayer.submit, Logged.bind_value] at h
  rw [Relayer.submit, Logged.bind_queries]
  cases hsign : (Relayer.sign signer _).value with
  | error e =>
    rw [hsign] at h
    cases h
  | ok sig =>
    rw [List.any_append, Relayer.postSubmit_queries]
    exact Bool.or_true _

theorem deploy_posted (safeFactory safe : Address) (chainId : UInt64)
    (h : (Relayer.deploy keccak256 net client signer safeFactory safe chainId).value.isOk =
      true) :
    (Relayer.deploy keccak256 net client signer safeFactory safe chainId).queries.any
      Effect.isSent = true := by
  rw [Relayer.deploy, Logged.bind_value] at h
  rw [Relayer.deploy, Logged.bind_queries]
  cases hsign : (Relayer.sign signer _).value with
  | error e =>
    rw [hsign] at h
    cases h
  | ok sig =>
    rw [List.any_append, Logged.bind_queries, List.any_append]
    exact (congrArg _ (Bool.true_or _)).trans (Bool.or_true _)

end

section
variable {keccak256 : Bytes → B256} {env : Env} {client : RelayerClient} {signer : Signer}
  {safe : Address} {c : OnChain} {w : World}

theorem relay_spec (env : Env) (safe : Address) (w : World) (payload : Payload)
    (send : Net → Logged Effect (Except Error SubmitResponse))
    (hposted : (send (env.net w.calls)).value.isOk = true →
      (send (env.net w.calls)).queries.any Effect.isSent = true) :
    (relay env safe payload send w).1 = (send (env.net w.calls)).value ∧
      ((relay env safe payload send w).2.relayer = (w.tick env safe).relayer.push payload ∨
        ((send (env.net w.calls)).value.isOk = false ∧
          (relay env safe payload send w).2.relayer = (w.tick env safe).relayer)) := by
  refine ⟨rfl, ?_⟩
  cases hok : (send (env.net w.calls)).value.isOk with
  | true =>
    left
    simp only [relay, hposted hok, hok, Bool.true_or, Bool.and_self, if_true]
  | false =>
    simp only [relay, hok, Bool.false_or]
    split
    · exact .inl rfl
    · exact .inr ⟨trivial, rfl⟩

/-- The node answers, the key signs, and the relayer acknowledges what it is sent. -/
structure Steady (keccak256 : Bytes → B256) (env : Env) (client : RelayerClient) (signer : Signer)
    (safe : Address) : Prop where
  node : ∀ n, env.nodeError n = none
  submits : ∀ n toAddr data nonce,
    (Relayer.submit keccak256 (env.net n) client signer safe toAddr data nonce).value.isOk = true
  deploys : ∀ n, (Relayer.deploy keccak256 (env.net n) client signer safeFactory safe
    polygon).value.isOk = true

/-- What the relayer has taken since the start, and has worked off up to some point. -/
structure Underway (safe : Address) (c : OnChain) (taken : List Payload) (w : World) : Prop where
  from_start : Pending.From (execute safe) c w.relayer
  taken_eq : w.relayer.taken = taken

theorem Underway.tick {taken : List Payload} (h : Underway safe c taken w) (env : Env) :
    Underway safe c taken (w.tick env safe) :=
  ⟨h.from_start.work _, h.taken_eq⟩

/-- The approvals `gs` have been seen to, and the next nonce is known. -/
structure Progress (safe : Address) (c : OnChain) (gs : List Grant) (nonce : UInt64) (w : World) :
    Prop where
  underway : Underway safe c (planUpTo safe c gs) w
  nonce_eq : nonce = UInt64.ofNat (c.safe.next + (missing c.safe.state gs).length)

/-- A run that stops has submitted the beginning of the plan. -/
def Stopped (safe : Address) (c : OnChain) (w : World) : Prop :=
  ∃ taken, taken <+: plan safe c ∧ Underway safe c taken w

theorem missing_beginning {gs gs' : List Grant} (h : gs <+: gs') (a : Approvals) :
    missing a gs <+: missing a gs' := h.filter _

theorem number_beginning {n : Nat} {ops ops' : List (Address × Bytes)} (h : ops <+: ops') :
    number n ops <+: number n ops' := by
  obtain ⟨rest, rfl⟩ := h
  rw [number_append]
  exact List.prefix_append _ _

theorem planUpTo_beginning {gs : List Grant} (h : gs <+: grants) :
    planUpTo safe c gs <+: plan safe c :=
  (List.prefix_append_right_inj _).mpr
    ((number_beginning ((missing_beginning h c.safe.state).map Grant.call)).map _)

/-- What is seen of an approval does not depend on how far the queue has been worked off. -/
theorem Underway.held (hready : Ready c) {gs : List Grant} {g : Grant} (hgs : gs ++ [g] <+: grants)
    (h : Underway safe c (planUpTo safe c gs) w) :
    w.relayer.state.safe.state.held g = c.safe.state.held g := by
  have hprefix : gs <+: grants := (List.prefix_append gs [g]).trans hgs
  have hnew : g ∉ gs := by
    have hnodup := hgs.sublist.nodup grants_nodup
    rw [List.nodup_append] at hnodup
    exact fun hmem => hnodup.2.2 g hmem g (List.mem_singleton_self g) rfl
  obtain ⟨k, hstate⟩ := h.from_start.state_take
  rw [hstate, h.taken_eq, execute_planUpTo safe hready hprefix]
  split
  · rfl
  · have hnot : g ∉ (missing c.safe.state gs).take (k - (deployment c).length) := fun hmem =>
      hnew (List.mem_of_mem_filter (List.mem_of_mem_take hmem))
    rw [held_given, decide_eq_false hnot, Bool.false_or]

theorem planUpTo_concat (safe : Address) (c : OnChain) (gs : List Grant) (g : Grant) :
    planUpTo safe c (gs ++ [g]) = planUpTo safe c gs ++
      if c.safe.state.held g then []
      else [payloadOf safe (c.safe.next + (missing c.safe.state gs).length, g.call)] := by
  rw [planUpTo, planUpTo, missing, List.filter_append]
  cases hheld : c.safe.state.held g with
  | true => simp [missing, hheld]
  | false =>
    simp [missing, hheld, number_append, number]

/-- How a part of the run ends: with what it is for, or stopping the run for a reason. -/
inductive Ends {α : Type} (steady : Prop) (safe : Address) (c : OnChain)
    (done : α → World → Prop) : Except Error α × World → Prop
  | ok {a : α} {w : World} : done a w → Ends steady safe c done (.ok a, w)
  | error {e : Error} {w : World} :
      ¬steady → Stopped safe c w → Ends steady safe c done (.error e, w)

/-- A submission of what comes next in the plan: it is taken, or the run stops with it or
without it. -/
theorem relay_ends {steady : Prop} {taken : List Payload} (h : Underway safe c taken w)
    {payload : Payload} (hnext : taken ++ [payload] <+: plan safe c)
    {send : Net → Logged Effect (Except Error SubmitResponse)}
    (hposted : (send (env.net w.calls)).value.isOk = true →
      (send (env.net w.calls)).queries.any Effect.isSent = true)
    (hok : steady → (send (env.net w.calls)).value.isOk = true) :
    Ends steady safe c (fun _ => Underway safe c (taken ++ [payload]))
      (relay env safe payload send w) := by
  have hticked := h.tick env
  have hpushed (w' : World) (hw' : w'.relayer = (w.tick env safe).relayer.push payload) :
      Underway safe c (taken ++ [payload]) w' := by
    refine ⟨?_, ?_⟩
    · rw [hw']
      exact hticked.from_start.push _
    · rw [hw']
      exact congrArg (· ++ [_]) hticked.taken_eq
  have hspec := relay_spec env safe w payload send hposted
  generalize relay env safe payload send w = out at hspec ⊢
  obtain ⟨answer, w'⟩ := out
  obtain ⟨hanswer, hw'⟩ := hspec
  simp only at hanswer hw'
  cases answer with
  | ok response =>
    refine .ok (hpushed w' (hw'.resolve_right fun hlost => ?_))
    rw [← hanswer] at hlost
    cases hlost.1
  | error e =>
    refine .error (fun hsteady => ?_) ?_
    · have hanswered := hok hsteady
      rw [← hanswer] at hanswered
      cases hanswered
    · rcases hw' with hw' | ⟨-, hw'⟩
      · exact ⟨_, hnext, hpushed w' hw'⟩
      · refine ⟨taken, (List.prefix_append _ _).trans hnext, ?_, ?_⟩
        · rw [hw']
          exact hticked.from_start
        · rw [hw']
          exact hticked.taken_eq

/-- Seeing to one more approval. -/
theorem ensureGrant_step (hready : Ready c) (hchain : client.chainId = polygon) {gs : List Grant}
    {g : Grant} (hgs : gs ++ [g] <+: grants) {read : OnChain → Bool}
    (hread : ∀ c, read c = c.safe.state.held g) {nonce : UInt64} (h : Progress safe c gs nonce w)
    (checkFailed : String) :
    Ends (Steady keccak256 env client signer safe) safe c (Progress safe c (gs ++ [g]))
      (ensureGrant keccak256 env client signer safe read checkFailed g.call.1 g.call.2 nonce
        w) := by
  have hprefix : gs <+: grants := (List.prefix_append gs [g]).trans hgs
  have hconcat := planUpTo_concat safe c gs g
  have hticked := h.underway.tick env
  rw [ensureGrant, readChain]
  cases hnode : env.nodeError w.calls with
  | some e =>
    refine .error (fun hsteady => ?_) ⟨_, planUpTo_beginning hprefix, hticked⟩
    rw [hsteady.node] at hnode
    cases hnode
  | none =>
    have hheld : read (w.tick env safe).relayer.state = c.safe.state.held g :=
      (hread _).trans (hticked.held hready hgs)
    simp only [hheld]
    cases hmissing : c.safe.state.held g with
    | true =>
      rw [hmissing, if_pos rfl, List.append_nil] at hconcat
      refine .ok ⟨?_, ?_⟩
      · rw [hconcat]
        exact hticked
      · rw [h.nonce_eq, missing, missing, List.filter_append]
        simp [hmissing]
    | false =>
      rw [hmissing, if_neg Bool.false_ne_true] at hconcat
      have hpayload : payloadOf safe (c.safe.next + (missing c.safe.state gs).length, g.call) =
          .safeTx safe client.chainId g.call.1 g.call.2 nonce := by
        rw [payloadOf, hchain, h.nonce_eq]
      rw [hpayload] at hconcat
      have hnext : planUpTo safe c gs ++ [.safeTx safe client.chainId g.call.1 g.call.2 nonce] <+:
          plan safe c := by
        rw [← hconcat]
        exact planUpTo_beginning hgs
      have hends : Ends (Steady keccak256 env client signer safe) safe c _
          (relay env safe (.safeTx safe client.chainId g.call.1 g.call.2 nonce)
            (fun net => Relayer.submit keccak256 net client signer safe g.call.1 g.call.2 nonce)
            (w.tick env safe)) :=
        relay_ends hticked hnext (submit_posted _ _ _ _ _ _ _ _) fun hsteady =>
          hsteady.submits _ _ _ _
      simp only
      generalize relay env safe _ _ (w.tick env safe) = out at hends ⊢
      cases hends with
      | ok hdone =>
        rw [← hconcat] at hdone
        refine .ok ⟨hdone, ?_⟩
        rw [h.nonce_eq, missing, missing, List.filter_append]
        simp [hmissing, UInt64.ofNat_add, ← Nat.add_assoc]
      | error hfault hstopped => exact .error hfault hstopped

def grantsOf (targets : List (String × Address)) : List Grant :=
  targets.flatMap fun target => [.allowance target.2, .operator target.2]

theorem ensureTargets_run (hready : Ready c) (hchain : client.chainId = polygon)
    {config : Chain.ContractConfig} (hcollateral : config.collateral = Chain.collateral)
    (hctf : config.conditionalTokens = Chain.ctf) (targets : List (String × Address))
    {gs : List Grant} (hgs : gs ++ grantsOf targets = grants) {nonce : UInt64}
    (h : Progress safe c gs nonce w) :
    Ends (Steady keccak256 env client signer safe) safe c
      (fun _ => Underway safe c (plan safe c))
      (ensureTargets keccak256 env client signer safe config targets nonce w) := by
  induction targets generalizing gs nonce w with
  | nil =>
    have hall : gs = grants := by
      rw [← hgs, grantsOf, List.flatMap_nil, List.append_nil]
    rw [hall] at h
    exact .ok h.underway
  | cons target targets ih =>
    have hsplit : gs ++ [.allowance target.2] ++ [.operator target.2] ++ grantsOf targets =
        grants := by
      rw [← hgs, grantsOf, grantsOf, List.flatMap_cons]
      simp only [List.append_assoc]
      rfl
    have hfirst : gs ++ [.allowance target.2] <+: grants :=
      ⟨[.operator target.2] ++ grantsOf targets, by rw [← hsplit, ← List.append_assoc]⟩
    have hsecond : gs ++ [.allowance target.2] ++ [.operator target.2] <+: grants :=
      ⟨grantsOf targets, hsplit⟩
    have hallowance : Ends (Steady keccak256 env client signer safe) safe c
        (Progress safe c (gs ++ [.allowance target.2]))
        (ensureAllowance keccak256 env client signer safe config.collateral target nonce w) := by
      rw [hcollateral]
      exact ensureGrant_step hready hchain hfirst (fun _ => rfl) h _
    rw [ensureTargets]
    generalize ensureAllowance keccak256 env client signer safe config.collateral target nonce w =
      out at hallowance ⊢
    cases hallowance with
    | error hfault hstopped => exact .error hfault hstopped
    | ok hprogress =>
      rename_i nonce' w'
      have hoperator : Ends (Steady keccak256 env client signer safe) safe c
          (Progress safe c (gs ++ [.allowance target.2] ++ [.operator target.2]))
          (ensureOperator keccak256 env client signer safe config.conditionalTokens target nonce'
            w') := by
        rw [hctf]
        exact ensureGrant_step hready hchain hsecond (fun _ => rfl) hprogress _
      simp only
      generalize ensureOperator keccak256 env client signer safe config.conditionalTokens target
        nonce' w' = out at hoperator ⊢
      cases hoperator with
      | error hfault hstopped => exact .error hfault hstopped
      | ok hprogress => exact ih hsplit hprogress

theorem planUpTo_nil : planUpTo safe c [] = deployment c := List.append_nil _

theorem Underway.untouched (h : Underway safe c [] w) : w.relayer.state = c := by
  obtain ⟨k, hstate⟩ := h.from_start.state_take
  rw [hstate, h.taken_eq, List.take_nil]
  rfl

theorem World.underway_init (safe : Address) (c : OnChain) : Underway safe c [] (World.init c) :=
  ⟨Pending.from_empty c, rfl⟩

theorem deploySafe_run (hready : Ready c) (hdeployed : c.deployed = false)
    (h : Underway safe c [] w) :
    Ends (Steady keccak256 env client signer safe) safe c (Progress safe c [])
      (deploySafe keccak256 env client signer safe w) := by
  obtain ⟨proxyFactory, hconfig⟩ := walletConfig_polygon
  have hfirst : planUpTo safe c [] = [.createProxy safeFactory polygon] := by
    rw [planUpTo_nil, deployment, hdeployed]
    rfl
  have hnext : [] ++ [.createProxy safeFactory polygon] <+: plan safe c := by
    rw [List.nil_append, ← hfirst]
    exact planUpTo_beginning List.nil_prefix
  have hends : Ends (Steady keccak256 env client signer safe) safe c _
      (relay env safe (.createProxy safeFactory polygon)
        (fun net => Relayer.deploy keccak256 net client signer safeFactory safe polygon) w) :=
    relay_ends h hnext (deploy_posted _ _ _ _ _ _ _) fun hsteady => hsteady.deploys _
  rw [deploySafe, hconfig]
  simp only
  generalize relay env safe _ _ w = out at hends ⊢
  cases hends with
  | ok hdone =>
    rw [List.nil_append, ← hfirst] at hdone
    refine .ok ⟨hdone.tick env, ?_⟩
    rw [hready.fresh hdeployed]
    rfl
  | error hfault hstopped => exact .error hfault hstopped

/-- The start of the run: the nonce is read, or the Safe is deployed. -/
theorem startNonce_run (hready : Ready c) (h : Underway safe c [] w)
    (hnode : c.deployed = true → env.nodeError w.calls = none) :
    ∃ result w', startNonce keccak256 env client signer safe w = (some result, w') ∧
      Ends (Steady keccak256 env client signer safe) safe c (Progress safe c []) (result, w') := by
  have hticked := h.tick env
  rw [startNonce, readChain, hticked.untouched]
  cases hdeployed : c.deployed with
  | true =>
    have hfits : c.safe.next ≤ u64Max := le_trans (Nat.le_add_right _ _) hready.room
    have hnone : planUpTo safe c [] = [] := by
      rw [planUpTo_nil, deployment, hdeployed]
      rfl
    rw [hnode hdeployed]
    simp only [if_true, if_pos hfits]
    refine ⟨_, _, rfl, .ok ⟨?_, rfl⟩⟩
    rw [hnone]
    exact hticked
  | false =>
    cases hread : env.nodeError w.calls with
    | none => exact ⟨_, _, rfl, deploySafe_run hready hdeployed hticked⟩
    | some e => exact ⟨_, _, rfl, deploySafe_run hready hdeployed hticked⟩

/-- A run takes the beginning of the plan to the relayer, and all of it when it succeeds. -/
theorem ensureApprovals_run
    (hsafe : deriveSafeWallet keccak256 signer.address polygon = some safe)
    (hchain : client.chainId = polygon) (hready : Ready c)
    (hnode : c.deployed = true → env.nodeError 1 = none) :
    ∃ result w', ensureApprovals keccak256 env client signer (World.init c) = (some result, w') ∧
      Ends (Steady keccak256 env client signer safe) safe c
        (fun _ => Underway safe c (plan safe c)) (result, w') := by
  have hticked := (World.underway_init safe c).tick env
  obtain ⟨config, hconfig, hexchange, hcollateral, hctf, hgrants⟩ :
      ∃ config, contractConfig polygon true = some config ∧
        config.exchangeV2 = some Chain.negRiskExchangeV2 ∧
        config.collateral = Chain.collateral ∧ config.conditionalTokens = Chain.ctf ∧
        [] ++ grantsOf (targets config Chain.negRiskExchangeV2) = grants :=
    ⟨_, rfl, rfl, rfl, rfl, rfl⟩
  rw [ensureApprovals, hsafe]
  simp only [hconfig, hexchange]
  rw [readChain]
  cases hconnect : env.nodeError (World.init c).calls with
  | some e =>
    refine ⟨_, _, rfl, .error (fun hsteady => ?_) ⟨[], List.nil_prefix, hticked⟩⟩
    rw [hsteady.node] at hconnect
    cases hconnect
  | none =>
    have hrun : ∃ result w', startNonce keccak256 env client signer safe
        ((World.init c).tick env safe) = (some result, w') ∧
          Ends (Steady keccak256 env client signer safe) safe c (Progress safe c []) (result, w') :=
      startNonce_run hready hticked hnode
    obtain ⟨result, w', hstart, hends⟩ := hrun
    simp only [hstart]
    cases hends with
    | error hfault hstopped => exact ⟨_, _, rfl, .error hfault hstopped⟩
    | ok hprogress =>
      exact ⟨_, _, rfl, ensureTargets_run hready hchain hcollateral hctf _ hgrants hprogress⟩

end

/-! ## Many runs -/

section
variable (keccak256 : Bytes → B256) (client : RelayerClient) (eoa safe : Address)

/-- What a run returns and what the relayer has taken from it. -/
structure Session where
  result : Option (Except Error Unit)
  taken : List Payload

/-- The wallet's key, as it answers in a run. -/
def Env.signer (env : Env) (eoa : Address) : Signer := ⟨eoa, env.signHash⟩

/-- One run, and the chain once the relayer's queue is empty. -/
def session (env : Env) (c : OnChain) : Session × OnChain :=
  let (result, w) := ensureApprovals keccak256 env client (env.signer eoa) (World.init c)
  (⟨result, w.relayer.taken⟩, w.relayer.drained (execute safe))

/-- Runs one after the other, each started when the queue of the one before is empty. -/
def sessions : List Env → OnChain → List Session × OnChain
  | [], c => ([], c)
  | env :: envs, c =>
    let (first, c) := session keccak256 client eoa safe env c
    let (rest, c) := sessions envs c
    (first :: rest, c)

/-- The node tells the nonce of a Safe that is there. -/
def TellsNonce : List Env → OnChain → Prop
  | [], _ => True
  | env :: envs, c => (c.deployed = true → env.nodeError 1 = none) ∧
      TellsNonce envs (session keccak256 client eoa safe env c).2

end

section
variable {keccak256 : Bytes → B256} {client : RelayerClient} {eoa safe : Address}

theorem session_spec {env : Env} {c : OnChain}
    (hsafe : deriveSafeWallet keccak256 eoa polygon = some safe)
    (hchain : client.chainId = polygon) (hready : Ready c)
    (hnode : c.deployed = true → env.nodeError 1 = none) :
    let s := session keccak256 client eoa safe env c
    ∃ k, s.1.taken = (plan safe c).take k ∧ s.2 = s.1.taken.foldl (execute safe) c ∧
      s.1.result ≠ none ∧ (s.1.result = some (.ok ()) → s.1.taken = plan safe c) ∧
      (Steady keccak256 env client (env.signer eoa) safe → s.1.result = some (.ok ())) := by
  have hrun : ∃ result w', ensureApprovals keccak256 env client (env.signer eoa) (World.init c) =
      (some result, w') ∧ Ends (Steady keccak256 env client (env.signer eoa) safe) safe c
        (fun _ => Underway safe c (plan safe c)) (result, w') :=
    ensureApprovals_run hsafe hchain hready hnode
  obtain ⟨result, w, hrun, hends⟩ := hrun
  rw [session, hrun]
  cases hends with
  | ok hdone =>
    refine ⟨(plan safe c).length, ?_, hdone.from_start.drained, nofun, fun _ => hdone.taken_eq,
      fun _ => rfl⟩
    rw [List.take_length]
    exact hdone.taken_eq
  | error hfault hstopped =>
    obtain ⟨taken, hprefix, hunderway⟩ := hstopped
    refine ⟨taken.length, ?_, hunderway.from_start.drained, nofun, nofun,
      fun hsteady => absurd hsteady hfault⟩
    rw [← List.prefix_iff_eq_take.mp hprefix]
    exact hunderway.taken_eq

/-- What many runs take together is a beginning of what one would, and nothing is left to later
runs by one that succeeds. -/
theorem sessions_spec (hsafe : deriveSafeWallet keccak256 eoa polygon = some safe)
    (hchain : client.chainId = polygon) (envs : List Env) {c : OnChain} (hready : Ready c)
    (hnode : TellsNonce keccak256 client eoa safe envs c) :
    let s := sessions keccak256 client eoa safe envs c
    ∃ k, s.1.flatMap (·.taken) = (plan safe c).take k ∧
      s.2 = ((plan safe c).take k).foldl (execute safe) c ∧
      (∀ r ∈ s.1, r.result ≠ none) ∧
      (∀ before r after, s.1 = before ++ r :: after → r.result = some (.ok ()) →
        before.flatMap (·.taken) ++ r.taken = plan safe c ∧ ∀ r' ∈ after, r'.taken = []) ∧
      s.1.length = envs.length ∧
      ∀ (i : Nat) (env : Env), envs[i]? = some env →
        Steady keccak256 env client (env.signer eoa) safe →
        ∃ r : Session, s.1[i]? = some r ∧ r.result = some (.ok ()) := by
  induction envs generalizing c with
  | nil => exact ⟨0, rfl, rfl, nofun, by simp [sessions], rfl, nofun⟩
  | cons env envs ih =>
    obtain ⟨hfirst, hlater⟩ := hnode
    obtain ⟨k, htaken, hchained, hnopanic, hall, hsteady⟩ :=
      session_spec hsafe hchain hready hfirst
    generalize hs : session keccak256 client eoa safe env c = s at *
    obtain ⟨first, c'⟩ := s
    simp only at htaken hchained hnopanic hall hsteady hlater
    obtain ⟨hready', hplan'⟩ := @resumes safe c hready k
    rw [← htaken, ← hchained] at hready' hplan'
    obtain ⟨k', hrest, hlast, hrestpanic, hdone, hlength, hreststeady⟩ := ih hready' hlater
    generalize ht : sessions keccak256 client eoa safe envs c' = t at *
    obtain ⟨rest, last⟩ := t
    simp only at hrest hlast hrestpanic hdone hlength hreststeady
    rw [hplan'] at hrest hlast hdone
    simp only [sessions, hs, ht]
    refine ⟨k + k', ?_, ?_, ?_, ?_, congrArg (· + 1) hlength, ?_⟩
    · rw [List.flatMap_cons, hrest, htaken, List.take_add]
    · rw [List.take_add, List.foldl_append, ← htaken, ← hchained, hlast]
    · exact List.forall_mem_cons.mpr ⟨hnopanic, hrestpanic⟩
    · intro before r after hsplit hok
      cases before with
      | nil =>
        obtain ⟨rfl, rfl⟩ := List.cons.inj hsplit
        have hplan := hall hok
        refine ⟨hplan, fun r' hr' => ?_⟩
        have hnone : (plan safe c).drop k = [] := by
          rw [htaken] at hplan
          have hlen := congrArg List.length hplan
          rw [List.length_take] at hlen
          exact List.drop_of_length_le (by omega)
        rw [hnone, List.take_nil] at hrest
        exact List.flatMap_eq_nil_iff.mp hrest r' hr'
      | cons r₀ before =>
        obtain ⟨rfl, hsplit'⟩ := List.cons.inj hsplit
        obtain ⟨htotal, hafter⟩ := hdone before r after hsplit' hok
        refine ⟨?_, hafter⟩
        rw [List.flatMap_cons, List.append_assoc, htotal, htaken, List.take_append_drop]
    · intro i env' henv' hsteady'
      cases i with
      | zero =>
        obtain rfl := Option.some.inj henv'
        exact ⟨first, rfl, hsteady hsteady'⟩
      | succ i => exact hreststeady i env' henv' hsteady'

theorem allowance_foldl (a : Approvals) (gs : List Grant) (spender : Address) :
    ((gs.map Grant.call).foldl applyCall a).allowance spender =
      if .allowance spender ∈ gs then U256.max else a.allowance spender := by
  induction gs generalizing a with
  | nil => rfl
  | cons g gs ih =>
    rw [List.map_cons, List.foldl_cons, ih, applyCall_call]
    by_cases hlater : .allowance spender ∈ gs
    · simp [hlater]
    · cases g with
      | allowance spender' =>
        by_cases h : spender = spender'
        · simp [Grant.give, h]
        · simp [Grant.give, h, hlater]
      | operator account => simp [Grant.give, hlater]

end

/-- A wallet without a Safe. -/
def noSafe : OnChain := ⟨false, 0, fun _ => 0, fun _ => false⟩

/-- The key refuses every hash. -/
def refusing : Env :=
  ⟨fun _ => .error "locked", fun _ => none, fun _ => Relayer.openNet, fun _ => false, fun _ => 1⟩

/-- The node fails once, between the first two approvals. -/
def interrupted : Env :=
  ⟨Relayer.openSigner.signHash, fun n => if n = 6 then some "connection reset" else none,
    fun _ => Relayer.openNet, fun _ => false, fun n => n % 2⟩

def undisturbed : Env :=
  ⟨Relayer.openSigner.signHash, fun _ => none, fun _ => Relayer.openNet, fun _ => false,
    fun _ => 0⟩

def safeOf (keccak256 : Bytes → B256) (eoa : Address) : Address :=
  Chain.Address.create2 keccak256 safeFactory (keccak256 eoa.toWord.bytes) Chain.safeInitCodeHash

theorem deriveSafeWallet_polygon (keccak256 : Bytes → B256) (eoa : Address) :
    deriveSafeWallet keccak256 eoa polygon = some (safeOf keccak256 eoa) := rfl

theorem undisturbed_steady (keccak256 : Bytes → B256) (eoa safe : Address) :
    Steady keccak256 undisturbed (RelayerClient.new "key" "address") (undisturbed.signer eoa)
      safe :=
  ⟨fun _ => rfl, fun _ _ _ _ => rfl, fun _ => rfl⟩

def resumed : List Session × OnChain :=
  sessions Keccak.keccak256 (RelayerClient.new "key" "address") Chain.exchangeV2
    (safeOf Keccak.keccak256 Chain.exchangeV2) [refusing, interrupted, undisturbed] noSafe

end Eggplant.Approval
