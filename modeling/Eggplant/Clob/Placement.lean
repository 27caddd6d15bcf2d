import Eggplant.Clob.Amounts
import Eggplant.Clob.Signing

/-!
# Placing orders at a limit price

`place_resting` and `place_sell_orders` up to the orders they sign. Shares and USDC are cut
to six decimals one by one, so the price an order encodes can lie on either side of the
limit; the digits of the size past its last place decide.
-/
namespace Eggplant.Clob

set_option autoImplicit false

open Eggplant.Lib Eggplant.Lib.Words Eggplant.Lib.Scaled

/-- The part of a tick entry a placement reads. -/
structure TickEntry where
  tokenIdU256 : BitVec 256

structure RestingPlacement where
  tick : TickEntry
  price : Decimal
  size : Decimal

/-- `self as u8`. -/
def Side.asU8 : Side → UInt8
  | buy => 0
  | sell => 1
  | unknown => 255

def buildSignableOrderSide (tokenId makerAmount takerAmount : BitVec 256) (identity : OrderIdentity)
    (timestamp : UInt64) (orderType : OrderType) (salt : UInt64) (postOnly : Bool) (side : Side) :
    SignableOrder where
  payload := .v2 {
    order := {
      salt := u64Uint salt
      maker := identity.maker
      signer := identity.signer
      tokenId := tokenId
      makerAmount := makerAmount
      takerAmount := takerAmount
      side := side.asU8
      signatureType := identity.signatureType.asU8
      timestamp := u64Uint timestamp
      metadata := FixedBytes.zero 32
      builder := FixedBytes.zero 32 }
    expiration := 0 }
  orderType := orderType
  postOnly := if postOnly then some true else none
  deferExec := none

def buildSignableOrder (tokenId makerAmount takerAmount : BitVec 256) (identity : OrderIdentity)
    (timestamp : UInt64) (orderType : OrderType) (salt : UInt64) (postOnly : Bool) : SignableOrder :=
  buildSignableOrderSide tokenId makerAmount takerAmount identity timestamp orderType salt postOnly
    .buy

section
variable (lib : DecimalLib)

/-- `p.size * p.price`. -/
def product (p : RestingPlacement) : Except Stop Decimal :=
  match lib.mul p.size p.price with
  | some d => .ok d
  | none => .error (.panicked "Multiplication overflowed")

/-- `U256::from(to_fixed_usdc(..)?)`. -/
def fixedAmount (d : Decimal) : Except Stop (BitVec 256) :=
  match toFixedUsdc lib d with
  | .ok amount => .ok (BitVec.ofNat 256 amount)
  | .error e => .error (.failed e)

/-- One turn of the `place_resting` loop up to the signature. -/
def restingOrder (identity : OrderIdentity) (ts salt : UInt64) (p : RestingPlacement) :
    Except Stop SignableOrder := do
  let makerAmount ← fixedAmount lib (← product lib p)
  let takerAmount ← fixedAmount lib p.size
  return buildSignableOrder p.tick.tokenIdU256 makerAmount takerAmount identity ts .gtc salt true

/-- One turn of the `place_sell_orders` loop up to the signature. -/
def sellOrder (orderType : OrderType) (postOnly : Bool) (identity : OrderIdentity)
    (ts salt : UInt64) (p : RestingPlacement) : Except Stop SignableOrder := do
  let makerAmount ← fixedAmount lib p.size
  let takerAmount ← fixedAmount lib (← product lib p)
  return buildSignableOrderSide p.tick.tokenIdU256 makerAmount takerAmount identity ts orderType salt
    postOnly .sell

/-- The loop over the placements: the orders signed, and why it stopped early. -/
def signAll (turn : UInt64 → RestingPlacement → Except Stop SignableOrder)
    (sign : SignableOrder → Except Stop SignedOrder) (salts : Nat → UInt64) :
    Nat → List RestingPlacement → List SignedOrder × Option Stop
  | _, [] => ([], none)
  | i, p :: ps =>
    match turn (salts i) p with
    | .error stop => ([], some stop)
    | .ok order =>
      match sign order with
      | .error stop => ([], some stop)
      | .ok signed =>
        (signed :: (signAll turn sign salts (i + 1) ps).1, (signAll turn sign salts (i + 1) ps).2)

variable (keccak256 : Bytes → B256) (debugAssertions : Bool) (self : OrderSigner)
  (signer : B256 → Except String Signature) (ts : UInt64) (salts : Nat → UInt64)

def signWith (order : SignableOrder) : Except Stop SignedOrder :=
  (self.signOrder keccak256 debugAssertions order signer).value

def placeResting (placements : List RestingPlacement) : List SignedOrder × Option Stop :=
  signAll (restingOrder lib self.identity ts) (signWith keccak256 debugAssertions self signer) salts
    0 placements

def placeSellOrders (placements : List RestingPlacement) (orderType : OrderType) (postOnly : Bool) :
    List SignedOrder × Option Stop :=
  signAll (sellOrder lib orderType postOnly self.identity ts)
    (signWith keccak256 debugAssertions self signer) salts 0 placements

def placeRestingSell (placements : List RestingPlacement) : List SignedOrder × Option Stop :=
  placeSellOrders lib keccak256 debugAssertions self signer ts salts placements .gtc true

def placeMarketableSell (placement : RestingPlacement) : List SignedOrder × Option Stop :=
  placeSellOrders lib keccak256 debugAssertions self signer ts salts [placement] .fak false

end

/-! ## The price an order encodes -/

def SignedOrder.makerAmount (o : SignedOrder) : Nat :=
  match o.payload with
  | .v1 p => p.order.makerAmount.toNat
  | .v2 p => p.order.makerAmount.toNat

def SignedOrder.takerAmount (o : SignedOrder) : Nat :=
  match o.payload with
  | .v1 p => p.order.takerAmount.toNat
  | .v2 p => p.order.takerAmount.toNat

/-- The decimals an amount is cut to: six, or as many as leave it below 96 bits. -/
def places (v : ℚ) : ℕ := reach (2 ^ 96) usdcDecimals v

/-- The size in its smallest unit, as a whole part and the digits that are cut. -/
def units (size : ℚ) : ℚ := size * 10 ^ places size

/-- The USDC keep fewer places than the shares, or the shares' cut digits are not worth
another unit of USDC. -/
def BuyKeepsLimit (size price : ℚ) : Prop :=
  places (size * price) < places size ∨
    places (size * price) = places size ∧
      Int.fract (price * (units size - Int.fract (units size))) +
        price * Int.fract (units size) < 1

/-- The USDC keep more places than the shares, or the price of the cut shares is a whole
number of units, or the cut digits are worth what it lacks to the next one. -/
def SellKeepsLimit (size price : ℚ) : Prop :=
  places size < places (size * price) ∨
    places (size * price) = places size ∧
      (Int.fract (price * (units size - Int.fract (units size))) = 0 ∨
        1 ≤ Int.fract (price * (units size - Int.fract (units size))) +
          price * Int.fract (units size))

section
variable {size price : Decimal}

/-- USDC cut to fewer places than the shares are worth less than the price says. -/
theorem usdc_lt_of_places_lt (hsize : 0 < size.value) (hprice : 0 < price.value)
    (hshares : 1 ≤ units size.value)
    (hplaces : places (size.value * price.value) < places size.value) :
    (⌊size.value * price.value * 10 ^ places (size.value * price.value)⌋ : ℚ) <
      price.value * ⌊units size.value⌋ := by
  have hten : 10 * (size.value * 10 ^ places (size.value * price.value)) ≤ units size.value := by
    have hmono := mul_pow_mono hsize.le hplaces
    rw [Nat.succ_eq_add_one, pow_succ] at hmono
    unfold units
    linarith
  have hlt := lt_floor_of_ten_mul_le hshares hten
  calc (⌊size.value * price.value * 10 ^ places (size.value * price.value)⌋ : ℚ)
      ≤ size.value * price.value * 10 ^ places (size.value * price.value) := Int.floor_le _
    _ = price.value * (size.value * 10 ^ places (size.value * price.value)) := by ring
    _ < price.value * ⌊units size.value⌋ := mul_lt_mul_of_pos_left hlt hprice

/-- USDC cut to more places than the shares are worth more. -/
theorem lt_usdc_of_places_lt (hsize : 0 < size.value) (hprice : 0 < price.value)
    (hplaces : places size.value < places (size.value * price.value)) :
    price.value * ⌊units size.value⌋ <
      (⌊size.value * price.value * 10 ^ places (size.value * price.value)⌋ : ℚ) := by
  have hvalue : 0 ≤ size.value * price.value := (mul_pos hsize hprice).le
  have hlarge : ((2 ^ 96 : ℕ) : ℚ) ≤ size.value * 10 ^ 6 :=
    le_mul_of_reach_lt (Nat.lt_of_lt_of_le hplaces reach_le) (Nat.le_refl 6)
  have hone : 1 ≤ size.value * price.value * 10 ^ places (size.value * price.value) := by
    refine (one_le_at_reach_iff hvalue (by norm_num)).mpr ?_
    have hleast := Decimal.le_value_of_pos hprice
    calc (1 : ℚ) ≤ (2 ^ 96 : ℕ) * (1 / 10 ^ 28) := by norm_num
      _ ≤ size.value * 10 ^ 6 * price.value := by gcongr
      _ = size.value * price.value * 10 ^ 6 := by ring
  have hten : 10 * (price.value * units size.value) ≤
      size.value * price.value * 10 ^ places (size.value * price.value) := by
    have hmono := mul_pow_mono hvalue hplaces
    rw [Nat.succ_eq_add_one, pow_succ] at hmono
    unfold units
    linarith
  calc price.value * (⌊units size.value⌋ : ℚ) ≤ price.value * units size.value := by
        gcongr
        exact Int.floor_le _
    _ < _ := lt_floor_of_ten_mul_le hone hten

/-- At the same places the USDC are the price of the cut shares and of the cut digits. -/
theorem usdc_eq_of_places_eq (hplaces : places (size.value * price.value) = places size.value) :
    size.value * price.value * 10 ^ places (size.value * price.value) =
      price.value * ⌊units size.value⌋ + price.value * Int.fract (units size.value) := by
  rw [hplaces, ← mul_add, Int.floor_add_fract, units]
  ring

theorem cut_units (v : ℚ) : units v - Int.fract (units v) = ⌊units v⌋ := Int.self_sub_fract _

theorem usdc_le_iff (hsize : 0 < size.value) (hprice : 0 < price.value)
    (hshares : 1 ≤ units size.value) :
    (⌊size.value * price.value * 10 ^ places (size.value * price.value)⌋ : ℚ) ≤
        price.value * ⌊units size.value⌋ ↔ BuyKeepsLimit size.value price.value := by
  unfold BuyKeepsLimit
  rw [cut_units]
  rcases Nat.lt_trichotomy (places (size.value * price.value)) (places size.value) with
    hfewer | hsame | hmore
  · exact ⟨fun _ => .inl hfewer, fun _ => (usdc_lt_of_places_lt hsize hprice hshares hfewer).le⟩
  · rw [usdc_eq_of_places_eq hsame, floor_add_le_iff]
    constructor
    · intro h
      exact .inr ⟨hsame, h⟩
    · intro h
      exact (h.resolve_left (by omega)).2
  · have hlt := lt_usdc_of_places_lt hsize hprice hmore
    exact ⟨fun h => absurd hlt (not_lt.mpr h), fun h => by omega⟩

theorem le_usdc_iff (hsize : 0 < size.value) (hprice : 0 < price.value)
    (hshares : 1 ≤ units size.value) :
    price.value * ⌊units size.value⌋ ≤
        (⌊size.value * price.value * 10 ^ places (size.value * price.value)⌋ : ℚ) ↔
      SellKeepsLimit size.value price.value := by
  unfold SellKeepsLimit
  rw [cut_units]
  rcases Nat.lt_trichotomy (places (size.value * price.value)) (places size.value) with
    hfewer | hsame | hmore
  · have hlt := usdc_lt_of_places_lt hsize hprice hshares hfewer
    exact ⟨fun h => absurd hlt (not_lt.mpr h), fun h => by omega⟩
  · rw [usdc_eq_of_places_eq hsame,
      le_floor_add_iff (mul_nonneg hprice.le (Int.fract_nonneg _))]
    constructor
    · intro h
      exact .inr ⟨hsame, h⟩
    · intro h
      exact (h.resolve_left (by omega)).2
  · exact ⟨fun _ => .inl hmore, fun _ => (lt_usdc_of_places_lt hsize hprice hmore).le⟩

end

/-! ## What the loops sign -/

/-- What each turn signs is what the list holds, placement by placement. -/
theorem signAll_forall₂ {turn : UInt64 → RestingPlacement → Except Stop SignableOrder}
    {sign : SignableOrder → Except Stop SignedOrder} {salts : Nat → UInt64}
    {R : RestingPlacement → SignedOrder → Prop} (ps : List RestingPlacement)
    (h : ∀ p ∈ ps, ∀ salt order signed, turn salt p = .ok order → sign order = .ok signed →
      R p signed) (i : Nat) :
    List.Forall₂ R (ps.take (signAll turn sign salts i ps).1.length)
      (signAll turn sign salts i ps).1 := by
  induction ps generalizing i with
  | nil => exact .nil
  | cons p ps ih =>
    rw [signAll]
    cases hturn : turn (salts i) p with
    | error stop => exact .nil
    | ok order =>
      simp only
      cases hsign : sign order with
      | error stop => exact .nil
      | ok signed =>
        refine .cons (h p List.mem_cons_self _ order signed hturn hsign) ?_
        exact ih (fun q hq => h q (List.mem_cons_of_mem _ hq)) (i + 1)

section
variable {lib : DecimalLib} {keccak256 : Bytes → B256} {debugAssertions : Bool}
  {self : OrderSigner} {signer : B256 → Except String Signature}

theorem fixedAmount_ok (hlib : lib.Documented) {d : Decimal} {amount : BitVec 256}
    (hd : 0 ≤ d.value) (h : fixedAmount lib d = .ok amount) :
    (amount.toNat : ℚ) = ⌊d.value * 10 ^ places d.value⌋ := by
  have hnonneg : 0 ≤ d.value * 10 ^ places d.value := by positivity
  have hsmall : ⌊d.value * 10 ^ places d.value⌋₊ < 2 ^ 256 := by
    have hlt : ⌊d.value * 10 ^ places d.value⌋₊ < 2 ^ 96 :=
      (Nat.floor_lt hnonneg).mpr (mul_reach_lt d.value_lt)
    exact Nat.lt_trans hlt (by decide)
  unfold fixedAmount at h
  rw [toFixedUsdc_of_nonneg hlib hd] at h
  rw [← Except.ok.inj h, BitVec.toNat_ofNat, ← natCast_floor_eq_intCast_floor hnonneg]
  exact congrArg Nat.cast (Nat.mod_eq_of_lt hsmall)

/-- The signer signs the order as it was built. -/
theorem signWith_ok {tokenId makerAmount takerAmount : BitVec 256} {ts salt : UInt64}
    {orderType : OrderType} {postOnly : Bool} {side : Side} {signed : SignedOrder}
    (h : signWith keccak256 debugAssertions self signer (buildSignableOrderSide tokenId makerAmount
      takerAmount self.identity ts orderType salt postOnly side) = .ok signed) :
    signed.makerAmount = makerAmount.toNat ∧ signed.takerAmount = takerAmount.toNat := by
  unfold signWith at h
  rw [signOrder_carried keccak256 rfl ⟨rfl, rfl, rfl⟩, Oracle.Logged.bind_value,
    Oracle.Logged.ask_value] at h
  split at h
  next => cases h
  next =>
    cases h
    exact ⟨rfl, rfl⟩

theorem product_ok {p : RestingPlacement} {d : Decimal} (h : product lib p = .ok d) :
    lib.mul p.size p.price = some d := by
  unfold product at h
  split at h
  next hmul => exact hmul.trans (congrArg some (Except.ok.inj h))
  next => cases h

variable (hlib : lib.Documented) {ts salt : UInt64} {p : RestingPlacement} {order : SignableOrder}
  {signed : SignedOrder} (hsize : 0 < p.size.value) (hprice : 0 < p.price.value)
  (hexact : ∀ d, lib.mul p.size p.price = some d → d.value = p.size.value * p.price.value)
include hlib hsize hprice hexact

/-- The USDC amount, when it converts. -/
theorem usdcAmount_ok {d : Decimal} {amount : BitVec 256} (hproduct : product lib p = .ok d)
    (hamount : fixedAmount lib d = .ok amount) :
    (amount.toNat : ℚ) = ⌊p.size.value * p.price.value *
      10 ^ places (p.size.value * p.price.value)⌋ := by
  have hvalue := hexact d (product_ok hproduct)
  have hnonneg : 0 ≤ d.value := hvalue ▸ (mul_pos hsize hprice).le
  rw [fixedAmount_ok hlib hnonneg hamount, hvalue]

/-- A signed BUY pays USDC for shares. -/
theorem restingOrder_amounts (horder : restingOrder lib self.identity ts salt p = .ok order)
    (hsigned : signWith keccak256 debugAssertions self signer order = .ok signed) :
    (signed.makerAmount : ℚ) = ⌊p.size.value * p.price.value *
        10 ^ places (p.size.value * p.price.value)⌋ ∧
      (signed.takerAmount : ℚ) = ⌊units p.size.value⌋ := by
  obtain ⟨d, hproduct, horder⟩ := bind_ok horder
  obtain ⟨maker, hmaker, horder⟩ := bind_ok horder
  obtain ⟨taker, htaker, horder⟩ := bind_ok horder
  cases horder
  obtain ⟨hm, ht⟩ := signWith_ok hsigned
  rw [hm, ht]
  exact ⟨usdcAmount_ok hlib hsize hprice hexact hproduct hmaker,
    fixedAmount_ok hlib hsize.le htaker⟩

/-- A signed SELL gives shares for USDC. -/
theorem sellOrder_amounts {orderType : OrderType} {postOnly : Bool}
    (horder : sellOrder lib orderType postOnly self.identity ts salt p = .ok order)
    (hsigned : signWith keccak256 debugAssertions self signer order = .ok signed) :
    (signed.makerAmount : ℚ) = ⌊units p.size.value⌋ ∧
      (signed.takerAmount : ℚ) = ⌊p.size.value * p.price.value *
        10 ^ places (p.size.value * p.price.value)⌋ := by
  obtain ⟨maker, hmaker, horder⟩ := bind_ok horder
  obtain ⟨d, hproduct, horder⟩ := bind_ok horder
  obtain ⟨taker, htaker, horder⟩ := bind_ok horder
  cases horder
  obtain ⟨hm, ht⟩ := signWith_ok hsigned
  rw [hm, ht]
  exact ⟨fixedAmount_ok hlib hsize.le hmaker,
    usdcAmount_ok hlib hsize hprice hexact hproduct htaker⟩

omit hlib hsize hprice hexact in
theorem one_le_units {shares : Nat} (h : (shares : ℚ) = ⌊units p.size.value⌋) (hne : shares ≠ 0) :
    1 ≤ units p.size.value := by
  have hone : (1 : ℚ) ≤ ⌊units p.size.value⌋ := by
    rw [← h]
    exact_mod_cast Nat.one_le_iff_ne_zero.mpr hne
  exact hone.trans (Int.floor_le _)

end

/-- The product of size and price is not rounded. -/
def ExactProduct (lib : DecimalLib) (p : RestingPlacement) : Prop :=
  ∀ d, lib.mul p.size p.price = some d → d.value = p.size.value * p.price.value

/-- A BUY pays at most the price for its shares. -/
def PaysAtMost (p : RestingPlacement) (o : SignedOrder) : Prop :=
  (o.makerAmount : ℚ) ≤ p.price.value * o.takerAmount

/-- A SELL asks at least the price for its shares. -/
def AsksAtLeast (p : RestingPlacement) (o : SignedOrder) : Prop :=
  p.price.value * o.makerAmount ≤ (o.takerAmount : ℚ)

section
variable {lib : DecimalLib} (hlib : lib.Documented) (keccak256 : Bytes → B256)
  (debugAssertions : Bool) (self : OrderSigner) (signer : B256 → Except String Signature)
  (ts : UInt64) (salts : Nat → UInt64)
include hlib

theorem placeResting_keeps_iff (placements : List RestingPlacement) :
    let buys := (placeResting lib keccak256 debugAssertions self signer ts salts placements).1
    List.Forall₂ (fun p o => 0 < p.size.value → 0 < p.price.value → ExactProduct lib p →
        o.takerAmount ≠ 0 → (PaysAtMost p o ↔ BuyKeepsLimit p.size.value p.price.value))
      (placements.take buys.length) buys := by
  refine signAll_forall₂ placements
    (fun p _ salt order signed horder hsigned hsize hprice hexact hne => ?_) 0
  obtain ⟨hmaker, htaker⟩ := restingOrder_amounts hlib hsize hprice hexact horder hsigned
  rw [PaysAtMost, hmaker, htaker]
  exact usdc_le_iff hsize hprice (one_le_units htaker hne)

theorem placeSellOrders_keeps_iff (placements : List RestingPlacement) (orderType : OrderType)
    (postOnly : Bool) :
    let sells := (placeSellOrders lib keccak256 debugAssertions self signer ts salts placements
      orderType postOnly).1
    List.Forall₂ (fun p o => 0 < p.size.value → 0 < p.price.value → ExactProduct lib p →
        o.makerAmount ≠ 0 → (AsksAtLeast p o ↔ SellKeepsLimit p.size.value p.price.value))
      (placements.take sells.length) sells := by
  refine signAll_forall₂ placements
    (fun p _ salt order signed horder hsigned hsize hprice hexact hne => ?_) 0
  obtain ⟨hmaker, htaker⟩ := sellOrder_amounts hlib hsize hprice hexact horder hsigned
  rw [AsksAtLeast, hmaker, htaker]
  exact le_usdc_iff hsize hprice (one_le_units hmaker hne)

end

/-- Each order signed for some shares keeps its limit exactly under the condition on its size
and price: the BUYs of `place_resting`, the SELLs of `place_resting_sell` and the one of
`place_marketable_sell`. -/
theorem order_keeps_limit_iff (lib : DecimalLib) (hlib : lib.Documented)
    (keccak256 : Bytes → B256) (debugAssertions : Bool) (self : OrderSigner)
    (signer : B256 → Except String Signature) (ts : UInt64) (salts : Nat → UInt64)
    (placements : List RestingPlacement) (placement : RestingPlacement) :
    let buys := (placeResting lib keccak256 debugAssertions self signer ts salts placements).1
    let sells := (placeRestingSell lib keccak256 debugAssertions self signer ts salts placements).1
    let takers := (placeMarketableSell lib keccak256 debugAssertions self signer ts salts
      placement).1
    List.Forall₂ (fun p o => 0 < p.size.value → 0 < p.price.value → ExactProduct lib p →
        o.takerAmount ≠ 0 → (PaysAtMost p o ↔ BuyKeepsLimit p.size.value p.price.value))
      (placements.take buys.length) buys ∧
    List.Forall₂ (fun p o => 0 < p.size.value → 0 < p.price.value → ExactProduct lib p →
        o.makerAmount ≠ 0 → (AsksAtLeast p o ↔ SellKeepsLimit p.size.value p.price.value))
      (placements.take sells.length) sells ∧
    List.Forall₂ (fun p o => 0 < p.size.value → 0 < p.price.value → ExactProduct lib p →
        o.makerAmount ≠ 0 → (AsksAtLeast p o ↔ SellKeepsLimit p.size.value p.price.value))
      ([placement].take takers.length) takers :=
  ⟨placeResting_keeps_iff hlib keccak256 debugAssertions self signer ts salts placements,
    placeSellOrders_keeps_iff hlib keccak256 debugAssertions self signer ts salts placements _ _,
    placeSellOrders_keeps_iff hlib keccak256 debugAssertions self signer ts salts [placement] _ _⟩

/-- One share and a millionth, at half a dollar. -/
def oddSell : RestingPlacement where
  tick := ⟨333⟩
  price := ⟨false, 50, 2, by decide, by decide⟩
  size := ⟨false, 1000001, 6, by decide, by decide⟩

def sampleSigner : OrderSigner :=
  .new (fun _ => FixedBytes.zero 32) 137 (.ctfV2 false) (.eoa (FixedBytes.zero 20))
    (FixedBytes.zero 16)

/-- What is signed for it as a resting BUY, under a constant hash and signature. -/
def oddBuys : List SignedOrder :=
  (placeResting .loops (fun _ => FixedBytes.zero 32) true sampleSigner (fun _ => .ok ⟨0, 0, false⟩)
    1700000000000 (fun _ => 7) [oddSell]).1

/-- And as a marketable SELL. -/
def oddTakers : List SignedOrder :=
  (placeMarketableSell .loops (fun _ => FixedBytes.zero 32) true sampleSigner
    (fun _ => .ok ⟨0, 0, false⟩) 1700000000000 (fun _ => 7) oddSell).1

theorem oddBuys_amounts :
    oddBuys.map (fun o => (o.makerAmount, o.takerAmount)) = [(500000, 1000001)] := by
  decide +kernel

theorem oddTakers_amounts :
    oddTakers.map (fun o => (o.makerAmount, o.takerAmount)) = [(1000001, 500000)] := by
  decide +kernel

theorem oddSell_exact : ExactProduct .loops oddSell := by
  intro d hd
  cases hd
  decide +kernel

/-- Of the two orders signed for it nothing is left to assume. -/
theorem order_keeps_limit_iff_odd :
    (∃ o, oddBuys = [o] ∧
      (PaysAtMost oddSell o ↔ BuyKeepsLimit oddSell.size.value oddSell.price.value)) ∧
    ∃ o, oddTakers = [o] ∧
      (AsksAtLeast oddSell o ↔ SellKeepsLimit oddSell.size.value oddSell.price.value) := by
  obtain ⟨hbuys, -, htakers⟩ := order_keeps_limit_iff .loops DecimalLib.loops_documented
    (fun _ => FixedBytes.zero 32) true sampleSigner (fun _ => .ok ⟨0, 0, false⟩) 1700000000000
    (fun _ => 7) [oddSell] oddSell
  have hsize : 0 < oddSell.size.value := by decide +kernel
  have hprice : 0 < oddSell.price.value := by decide +kernel
  constructor
  · obtain ⟨o, hone, hamounts⟩ := List.map_eq_singleton_iff.mp oddBuys_amounts
    have hsome : o.takerAmount = 1000001 := congrArg Prod.snd hamounts
    change List.Forall₂ _ ([oddSell].take oddBuys.length) oddBuys at hbuys
    rw [hone] at hbuys
    obtain ⟨hkeeps, -⟩ := List.forall₂_cons.mp hbuys
    exact ⟨o, hone, hkeeps hsize hprice oddSell_exact (by omega)⟩
  · obtain ⟨o, hone, hamounts⟩ := List.map_eq_singleton_iff.mp oddTakers_amounts
    have hsome : o.makerAmount = 1000001 := congrArg Prod.fst hamounts
    change List.Forall₂ _ ([oddSell].take oddTakers.length) oddTakers at htakers
    rw [hone] at htakers
    obtain ⟨hkeeps, -⟩ := List.forall₂_cons.mp htakers
    exact ⟨o, hone, hkeeps hsize hprice oddSell_exact (by omega)⟩

theorem odd_sell_below_limit :
    ¬∀ (lib : DecimalLib), lib.Documented → ∀ (keccak256 : Bytes → B256) (debugAssertions : Bool)
      (self : OrderSigner) (signer : B256 → Except String Signature) (ts : UInt64)
      (salts : Nat → UInt64) (placement : RestingPlacement),
      let takers := (placeMarketableSell lib keccak256 debugAssertions self signer ts salts
        placement).1
      List.Forall₂ (fun p o => 0 < p.size.value → 0 < p.price.value → ExactProduct lib p →
          o.makerAmount ≠ 0 → AsksAtLeast p o)
        ([placement].take takers.length) takers := by
  intro h
  have hrun : List.Forall₂ _ ([oddSell].take oddTakers.length) oddTakers :=
    h .loops DecimalLib.loops_documented (fun _ => FixedBytes.zero 32) true sampleSigner
      (fun _ => .ok ⟨0, 0, false⟩) 1700000000000 (fun _ => 7) oddSell
  obtain ⟨o, htakers, hamounts⟩ := List.map_eq_singleton_iff.mp oddTakers_amounts
  rw [htakers] at hrun
  obtain ⟨hasks, -⟩ := List.forall₂_cons.mp hrun
  have hmaker : o.makerAmount = 1000001 := congrArg Prod.fst hamounts
  have htaker : o.takerAmount = 500000 := congrArg Prod.snd hamounts
  have hkept := hasks (by decide +kernel) (by decide +kernel) oddSell_exact (by omega)
  rw [AsksAtLeast, hmaker, htaker] at hkept
  exact absurd hkept (by decide +kernel)

end Eggplant.Clob
