import Eggplant.Lib.Phases

/-!
# Staggered recycling

Every connection reconnects once a period, at an offset of its own. The offsets are
phases of the period in nanoseconds, slot by slot; the copies of one shard sit a whole
round of shards apart.
-/
namespace Eggplant.Ws

set_option autoImplicit false

open Eggplant.Lib

/-! ## Durations -/

def nanosPerSec : Nat := 1000000000

/-- Whole seconds in 64 bits and the nanoseconds of a started second. -/
structure Duration where
  secs : Nat
  nanos : Nat
  secs_lt : secs < 2 ^ 64
  nanos_lt : nanos < nanosPerSec
  deriving DecidableEq

namespace Duration

def asNanos (d : Duration) : Nat := d.secs * nanosPerSec + d.nanos

def fromSecs (secs : UInt64) : Duration := ⟨secs.toNat, 0, secs.toNat_lt, by decide⟩

/-- `checked_mul`: the nanoseconds' carry goes to the seconds, which may leave 64 bits. -/
def checkedMul (d : Duration) (rhs : Nat) : Option Duration :=
  let totalNanos := d.nanos * rhs
  let secs := d.secs * rhs + totalNanos / nanosPerSec
  if h : secs < 2 ^ 64 then
    some ⟨secs, totalNanos % nanosPerSec, h, Nat.mod_lt _ (by decide)⟩
  else none

/-- Dividing seconds and nanoseconds apart and their remainders together divides the whole. -/
theorem div_parts (secs nanos : Nat) {rhs : Nat} (h : 0 < rhs) :
    secs / rhs * nanosPerSec + (nanos / rhs + (secs % rhs * nanosPerSec + nanos % rhs) / rhs) =
      (secs * nanosPerSec + nanos) / rhs := by
  have hwhole : secs * nanosPerSec + nanos =
      rhs * (secs / rhs * nanosPerSec + nanos / rhs) +
        (secs % rhs * nanosPerSec + nanos % rhs) := by
    conv_lhs => rw [← Nat.div_add_mod secs rhs, ← Nat.div_add_mod nanos rhs]
    ring
  rw [hwhole, Nat.mul_add_div h, Nat.add_assoc]

/-- The remainder of the seconds does not fill another second. -/
theorem divided_nanos_lt (d : Duration) {rhs : Nat} (h : 0 < rhs) :
    d.nanos / rhs + (d.secs % rhs * nanosPerSec + d.nanos % rhs) / rhs < nanosPerSec := by
  have hrest : d.secs % rhs * nanosPerSec + d.nanos < rhs * nanosPerSec := by
    have hsecs : d.secs % rhs + 1 ≤ rhs := Nat.mod_lt _ h
    have hmul := Nat.mul_le_mul_right nanosPerSec hsecs
    have hnanos := d.nanos_lt
    rw [Nat.add_mul] at hmul
    omega
  have hparts := div_parts (d.secs % rhs) d.nanos h
  rw [Nat.mod_mod, Nat.div_eq_of_lt (Nat.mod_lt _ h), Nat.zero_mul, Nat.zero_add] at hparts
  rw [hparts]
  exact Nat.div_lt_of_lt_mul hrest

/-- `checked_div`: the remainder of the seconds is divided with the nanoseconds. -/
def checkedDiv (d : Duration) (rhs : Nat) : Option Duration :=
  if h : 0 < rhs then
    some ⟨d.secs / rhs, d.nanos / rhs + (d.secs % rhs * nanosPerSec + d.nanos % rhs) / rhs,
      (Nat.div_le_self _ _).trans_lt d.secs_lt, divided_nanos_lt d h⟩
  else none

/-- `*`, which panics on overflow. -/
def mul (d : Duration) (rhs : Nat) : Except String Duration :=
  match d.checkedMul rhs with
  | some product => .ok product
  | none => .error "overflow when multiplying duration by scalar"

/-- `/`, which panics on zero. -/
def div (d : Duration) (rhs : Nat) : Except String Duration :=
  match d.checkedDiv rhs with
  | some quotient => .ok quotient
  | none => .error "divide by zero error when dividing duration by scalar"

theorem mul_ok (d : Duration) {rhs : Nat} (h : d.asNanos * rhs < 2 ^ 64 * nanosPerSec) :
    ∃ product, d.mul rhs = .ok product ∧ product.asNanos = d.asNanos * rhs := by
  have hsplit : d.asNanos * rhs =
      nanosPerSec * (d.secs * rhs + d.nanos * rhs / nanosPerSec) +
        d.nanos * rhs % nanosPerSec := by
    rw [Nat.mul_add, Nat.add_assoc, Nat.div_add_mod, asNanos]
    ring
  have hsecs : d.secs * rhs + d.nanos * rhs / nanosPerSec < 2 ^ 64 := by
    rw [hsplit] at h
    have hmul := (Nat.le_add_right _ _).trans_lt h
    rw [Nat.mul_comm nanosPerSec] at hmul
    exact Nat.lt_of_mul_lt_mul_right hmul
  unfold mul checkedMul
  rw [dif_pos hsecs]
  refine ⟨_, rfl, ?_⟩
  rw [hsplit, asNanos, Nat.mul_comm nanosPerSec]

theorem div_ok (d : Duration) {rhs : Nat} (h : 0 < rhs) :
    ∃ quotient, d.div rhs = .ok quotient ∧ quotient.asNanos = d.asNanos / rhs := by
  unfold div checkedDiv
  rw [dif_pos h]
  exact ⟨_, rfl, div_parts d.secs d.nanos h⟩

theorem asNanos_fromSecs (secs : UInt64) : (fromSecs secs).asNanos = secs.toNat * nanosPerSec :=
  Nat.add_zero _

end Duration

/-! ## Offsets -/

/-- `recycle_offset`. -/
def recycleOffset (connId connections : UInt8) (intervalSecs : UInt64) :
    Except String (Option Duration) :=
  if intervalSecs = 0 ∨ connections < 2 then .ok none
  else do
    let scaled ← (Duration.fromSecs intervalSecs).mul (connId.toNat + 1)
    let offset ← scaled.div connections.toNat
    return some offset

/-- `u8::try_from`. -/
def u8TryFrom (n : Nat) : Option UInt8 := if n < 2 ^ 8 then some (UInt8.ofNat n) else none

/-- `*` and `+` of `usize`, which wrap. -/
def usizeMul (a b : Nat) : Nat := a * b % 2 ^ 64

def usizeAdd (a b : Nat) : Nat := (a + b) % 2 ^ 64

/-- `market_recycle_offset`: the copies of a shard are a round of shards apart. -/
def marketRecycleOffset (shardId copy numShards redundancy : Nat) (intervalSecs : UInt64) :
    Except String (Option Duration) :=
  if redundancy < 2 then .ok none
  else
    match u8TryFrom (usizeMul numShards redundancy) with
    | none => .ok none
    | some total =>
      match u8TryFrom (usizeAdd (usizeMul copy numShards) shardId) with
      | none => .ok none
      | some slot => recycleOffset slot total intervalSecs

/-- The recycle period in nanoseconds. -/
def periodNanos (intervalSecs : UInt64) : Nat := intervalSecs.toNat * nanosPerSec

/-- The slot a shard's copy has among all connections. -/
def slotOf (numShards shardId copy : Nat) : Nat := copy * numShards + shardId

/-- While every product fits, slot `conn_id` of `connections` recycles at its phase. -/
theorem recycleOffset_ok {connId connections : UInt8} {intervalSecs : UInt64}
    (hinterval : 1 ≤ intervalSecs.toNat) (hfits : intervalSecs.toNat * 255 < 2 ^ 64)
    (hslot : connId.toNat < connections.toNat) (hmany : 2 ≤ connections.toNat) :
    ∃ d, recycleOffset connId connections intervalSecs = .ok (some d) ∧
      d.asNanos = Phases.phase (periodNanos intervalSecs) connections.toNat connId.toNat := by
  have hon : ¬(intervalSecs = 0 ∨ connections < 2) := by
    rintro (rfl | hfew)
    · exact absurd hinterval (by decide)
    · exact absurd (UInt8.lt_iff_toNat_lt.mp hfew) (Nat.not_lt.mpr hmany)
  have hproduct : (Duration.fromSecs intervalSecs).asNanos * (connId.toNat + 1) <
      2 ^ 64 * nanosPerSec := by
    have hle : connId.toNat + 1 ≤ 255 := hslot.trans_le (Nat.lt_succ_iff.mp connections.toNat_lt)
    have hmul := Nat.mul_le_mul_left intervalSecs.toNat hle
    rw [Duration.asNanos_fromSecs, Nat.mul_right_comm]
    exact Nat.mul_lt_mul_of_pos_right (hmul.trans_lt hfits) (by decide)
  obtain ⟨scaled, hscaled, hnanos⟩ := Duration.mul_ok _ hproduct
  obtain ⟨offset, hoffset, hdivided⟩ :=
    Duration.div_ok scaled (show 0 < connections.toNat by omega)
  refine ⟨offset, ?_, ?_⟩
  · unfold recycleOffset
    rw [if_neg hon, hscaled]
    show (do let offset ← scaled.div connections.toNat; return some offset) = _
    rw [hoffset]
    rfl
  · rw [hdivided, hnanos, Duration.asNanos_fromSecs]
    rfl

section
variable {numShards redundancy shardId copy : Nat}

theorem slotOf_lt (hshard : shardId < numShards) (hcopy : copy < redundancy) :
    slotOf numShards shardId copy < numShards * redundancy := by
  have hmul := Nat.mul_le_mul_right numShards (show copy + 1 ≤ redundancy from hcopy)
  rw [Nat.add_mul, Nat.one_mul, Nat.mul_comm redundancy] at hmul
  unfold slotOf
  omega

/-- Different connections have different slots. -/
theorem slotOf_inj {shardId' copy' : Nat} (hshard : shardId < numShards)
    (hshard' : shardId' < numShards)
    (h : slotOf numShards shardId copy = slotOf numShards shardId' copy') :
    shardId = shardId' ∧ copy = copy' := by
  unfold slotOf at h
  have hmod := congrArg (· % numShards) h
  simp only [Nat.mul_add_mod_self_right, Nat.mod_eq_of_lt hshard, Nat.mod_eq_of_lt hshard'] at hmod
  subst hmod
  exact ⟨rfl, Nat.eq_of_mul_eq_mul_right (Nat.zero_lt_of_lt hshard) (Nat.add_right_cancel h)⟩

theorem u8TryFrom_ok {n : Nat} (h : n ≤ 255) :
    ∃ v, u8TryFrom n = some v ∧ v.toNat = n :=
  ⟨UInt8.ofNat n, if_pos (Nat.lt_succ_of_le h), UInt8.toNat_ofNat_of_lt' (Nat.lt_succ_of_le h)⟩

/-- Every connection recycles at the phase of its slot. -/
theorem marketRecycleOffset_ok {intervalSecs : UInt64} (hmany : 2 ≤ redundancy)
    (htotal : numShards * redundancy ≤ 255) (hinterval : 1 ≤ intervalSecs.toNat)
    (hfits : intervalSecs.toNat * 255 < 2 ^ 64) (hshard : shardId < numShards)
    (hcopy : copy < redundancy) :
    ∃ d, marketRecycleOffset shardId copy numShards redundancy intervalSecs = .ok (some d) ∧
      d.asNanos = Phases.phase (periodNanos intervalSecs) (numShards * redundancy)
        (slotOf numShards shardId copy) := by
  have hslot := slotOf_lt hshard hcopy
  have hproduct : copy * numShards ≤ 255 := by
    unfold slotOf at hslot
    omega
  have htotalEq : usizeMul numShards redundancy = numShards * redundancy :=
    Nat.mod_eq_of_lt (by omega)
  have hslotEq : usizeAdd (usizeMul copy numShards) shardId = slotOf numShards shardId copy := by
    have hmul : usizeMul copy numShards = copy * numShards := Nat.mod_eq_of_lt (by omega)
    rw [hmul]
    exact Nat.mod_eq_of_lt (by unfold slotOf at hslot; omega)
  obtain ⟨total, hread, htotalNat⟩ := u8TryFrom_ok htotal
  obtain ⟨slot, hreadSlot, hslotNat⟩ := u8TryFrom_ok (hslot.le.trans htotal)
  have hlt : slot.toNat < total.toNat := by rwa [htotalNat, hslotNat]
  have htwo : 2 ≤ total.toNat := by
    have hshards := Nat.mul_le_mul_right redundancy (Nat.zero_lt_of_lt hshard)
    omega
  obtain ⟨d, hd, hnanos⟩ := recycleOffset_ok hinterval hfits hlt htwo
  refine ⟨d, ?_, ?_⟩
  · unfold marketRecycleOffset
    rw [if_neg (Nat.not_lt.mpr hmany), htotalEq, hslotEq, hread, hreadSlot]
    exact hd
  · rw [hnanos, htotalNat, hslotNat]

/-- Copy `copy` of shard `shardId` is a connection, and its timer starts at `d`. -/
def Recycles (numShards redundancy : Nat) (intervalSecs : UInt64) (shardId copy : Nat)
    (d : Duration) : Prop :=
  shardId < numShards ∧ copy < redundancy ∧
    marketRecycleOffset shardId copy numShards redundancy intervalSecs = .ok (some d)

theorem Recycles.asNanos_eq {intervalSecs : UInt64} {d : Duration}
    (h : Recycles numShards redundancy intervalSecs shardId copy d) (hmany : 2 ≤ redundancy)
    (htotal : numShards * redundancy ≤ 255) (hinterval : 1 ≤ intervalSecs.toNat)
    (hfits : intervalSecs.toNat * 255 < 2 ^ 64) :
    d.asNanos = Phases.phase (periodNanos intervalSecs) (numShards * redundancy)
      (slotOf numShards shardId copy) := by
  obtain ⟨hshard, hcopy, hd⟩ := h
  obtain ⟨d', hd', hnanos⟩ :=
    marketRecycleOffset_ok hmany htotal hinterval hfits hshard hcopy
  obtain rfl : d = d' := Option.some.inj (Except.ok.inj (hd.symm.trans hd'))
  exact hnanos

/-- Two copies of one shard are a round of shards apart, both ways round. -/
theorem copies_apart (P : Nat) {copy' : Nat} (hshard : shardId < numShards)
    (hcopy : copy < redundancy) (hlt : copy' < copy) :
    P / redundancy ≤ Phases.circularDist P
      (Phases.phase P (numShards * redundancy) (slotOf numShards shardId copy))
      (Phases.phase P (numShards * redundancy) (slotOf numShards shardId copy')) := by
  have hpos : 0 < numShards := Nat.zero_lt_of_lt hshard
  have hlow := Nat.mul_le_mul_right numShards (show copy' + 1 ≤ copy from hlt)
  have hhigh := Nat.mul_le_mul_right numShards (show copy + 1 ≤ copy' + redundancy by omega)
  rw [Nat.add_mul, Nat.one_mul] at hlow
  rw [Nat.add_mul, Nat.one_mul, Nat.add_mul, Nat.mul_comm redundancy] at hhigh
  rw [← Phases.share_group hpos redundancy]
  exact Phases.share_le_circularDist (Nat.mul_pos hpos (by omega))
    (by unfold slotOf; omega) (by unfold slotOf; omega)

/-- Different slots never meet on the circle of a period as long as the slots. -/
theorem slots_apart {P slots i j : Nat} (hslots : slots ≤ P) (hj : j < slots) (hlt : i < j) :
    0 < Phases.circularDist P (Phases.phase P slots j) (Phases.phase P slots i) :=
  (Phases.share_one_pos (Nat.zero_lt_of_lt hj) hslots).trans_le
    (Phases.share_le_circularDist (Nat.zero_lt_of_lt hj) (by omega) (by omega))

/-- Recycling is on for every connection, no two connections recycle at one point of the
period, and the copies of a shard keep its share of the period between them, round the end
of the period too. -/
theorem recycle_phases_apart (numShards redundancy : Nat) (intervalSecs : UInt64)
    (hmany : 2 ≤ redundancy) (htotal : numShards * redundancy ≤ 255)
    (hinterval : 1 ≤ intervalSecs.toNat) (hfits : intervalSecs.toNat * 255 < 2 ^ 64) :
    let P := periodNanos intervalSecs
    let recycles := Recycles numShards redundancy intervalSecs
    (∀ shardId < numShards, ∀ copy < redundancy, ∃ d, recycles shardId copy d ∧
      0 < d.asNanos ∧ d.asNanos ≤ P) ∧
    (∀ shardId copy shardId' copy' d d', recycles shardId copy d →
      recycles shardId' copy' d' → (shardId, copy) ≠ (shardId', copy') →
      d.asNanos % P ≠ d'.asNanos % P) ∧
    ∀ shardId copy copy' d d', recycles shardId copy d → recycles shardId copy' d' →
      copy ≠ copy' → P / redundancy ≤ Phases.circularDist P d.asNanos d'.asNanos := by
  intro P recycles
  have hslots : numShards * redundancy ≤ P := by
    have hperiod := Nat.mul_le_mul_right nanosPerSec hinterval
    have hnanos : 255 ≤ 1 * nanosPerSec := by decide
    exact htotal.trans (hnanos.trans hperiod)
  refine ⟨fun shardId hshard copy hcopy => ?_, ?_, ?_⟩
  · obtain ⟨d, hd, hnanos⟩ :=
      marketRecycleOffset_ok hmany htotal hinterval hfits hshard hcopy
    have hslot := slotOf_lt hshard hcopy
    have hpos := Nat.zero_lt_of_lt hslot
    refine ⟨d, ⟨hshard, hcopy, hd⟩, ?_⟩
    rw [hnanos]
    exact ⟨Phases.phase_pos hpos hslots _, Phases.phase_le hpos hslot⟩
  · intro shardId copy shardId' copy' d d' hd hd' hne
    rw [hd.asNanos_eq hmany htotal hinterval hfits, hd'.asNanos_eq hmany htotal hinterval hfits]
    have hslot := slotOf_lt hd.1 hd.2.1
    have hslot' := slotOf_lt hd'.1 hd'.2.1
    rcases Nat.lt_trichotomy (slotOf numShards shardId copy) (slotOf numShards shardId' copy')
      with hlt | heq | hgt
    · exact (Phases.ne_of_circularDist_pos (slots_apart hslots hslot' hlt)).symm
    · obtain ⟨rfl, rfl⟩ := slotOf_inj hd.1 hd'.1 heq
      exact absurd rfl hne
    · exact Phases.ne_of_circularDist_pos (slots_apart hslots hslot hgt)
  · intro shardId copy copy' d d' hd hd' hne
    rw [hd.asNanos_eq hmany htotal hinterval hfits, hd'.asNanos_eq hmany htotal hinterval hfits]
    rcases Nat.lt_or_gt_of_ne hne with hlt | hgt
    · rw [Phases.circularDist_comm]
      exact copies_apart P hd'.1 hd'.2.1 hlt
    · exact copies_apart P hd.1 hd.2.1 hgt

/-- Two shards of three copies over a period that six slots do not divide. -/
theorem recycle_phases_apart_sevenSeconds :
    (∀ shardId < 2, ∀ copy < 3, ∃ d, Recycles 2 3 7 shardId copy d ∧
      0 < d.asNanos ∧ d.asNanos ≤ 7000000000) ∧
    ∀ shardId copy copy' d d', Recycles 2 3 7 shardId copy d → Recycles 2 3 7 shardId copy' d' →
      copy ≠ copy' → 2333333333 ≤ Phases.circularDist 7000000000 d.asNanos d'.asNanos := by
  obtain ⟨hon, -, happart⟩ :=
    recycle_phases_apart 2 3 7 (by decide) (by decide) (by decide) (by decide)
  exact ⟨hon, happart⟩

end

end Eggplant.Ws
