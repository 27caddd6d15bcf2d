import Eggplant.Clob.Cancel
import Eggplant.Clob.Placement
import Eggplant.Clob.Wire
import Eggplant.Lib.Join

/-!
# Posting signed orders

`post_signed` cuts the orders into chunks and posts them concurrently. The answers are
laid end to end in the order of the chunks, so an order and its answer stand at one
place; a chunk that fails ends the call, whatever the others are doing.
-/
namespace Eggplant.Clob

set_option autoImplicit false

open Eggplant.Lib Eggplant.Lib.Words

/-- What the client relies on to read answers, with the texts its errors quote. -/
structure PostLibrary (R : Type) where
  tooLarge : BitVec 256 → String
  statusText : Nat → String
  parsePosts : String → Except String (List R)

section
variable {R : Type} (lib : PostLibrary R)

/-- The body of a batched POST, up to its text. -/
def serializeOrders (tooLarge : BitVec 256 → String) (orders : List SignedOrder) :
    Except String (List Json) :=
  orders.mapM (·.serialize tooLarge)

/-- `post_orders`, given how the round trip of its request ends. -/
def postOrders (roundTrip : Except String HttpAnswer) (orders : List SignedOrder) :
    Except Error (List R) :=
  match serializeOrders lib.tooLarge orders with
  | .error e => .error (.invalidData ("JSON serialization failed: " ++ e))
  | .ok _ =>
    match roundTrip with
    | .error e => .error (.invalidData e)
    | .ok answer =>
      if answer.status = 429 then .error (.rateLimit none)
      else if ¬(200 ≤ answer.status ∧ answer.status < 300) then
        .error (.invalidData ("CLOB API " ++ lib.statusText answer.status ++ ": " ++ answer.body))
      else
        match lib.parsePosts answer.body with
        | .error e => .error (.invalidData ("response parse failed: " ++ e))
        | .ok resps =>
          if resps.length ≠ orders.length then
            .error (.invalidData
              ("expected " ++ orders.length.repr ++ " responses, got " ++ resps.length.repr))
          else .ok resps

def postChunks (signedOrders : List SignedOrder) (maxOrdersPerPost : Nat) :
    List (List SignedOrder) :=
  batches (max maxOrdersPerPost 1) signedOrders

/-- How the POST of the `k`-th chunk ends. -/
def chunkPost (roundTrip : Nat → Except String HttpAnswer) (chunks : List (List SignedOrder))
    (k : Nat) : Except Error (List R) :=
  match chunks[k]? with
  | some chunk => postOrders lib (roundTrip k) chunk
  | none => .ok []

/-- A call as it stands: the requests sent, in chunk order, and its result. -/
structure Posted (R : Type) where
  sent : List (List SignedOrder)
  returned : Option (Except Stop (List R))

/-- `post_signed`: a chunk whose future was polled has sent its request, unless the body
could not be written. -/
def postSigned (signedOrders : List SignedOrder) (maxOrdersPerPost : Nat)
    (join : Join.State Error (List R)) : Posted R where
  sent := ((postChunks signedOrders maxOrdersPerPost).take join.started).filter fun chunk =>
    (serializeOrders lib.tooLarge chunk).isOk
  returned := join.returned.map fun result => (result.map List.flatten).mapError .failed

/-- The states of `place_resting` and of `place_sell_orders`, given what their loops sign. -/
inductive Places (roundTrip : Nat → Except String HttpAnswer) (maxOrdersPerPost : Nat)
    (placements : List RestingPlacement) (signed : List SignedOrder × Option Stop) :
    Posted R → Prop
  | signing : Places roundTrip maxOrdersPerPost placements signed ⟨[], none⟩
  | nothing (empty : placements = []) :
      Places roundTrip maxOrdersPerPost placements signed ⟨[], some (.ok [])⟩
  | stopped (stop : Stop) (some_placements : placements ≠ []) (early : signed.2 = some stop) :
      Places roundTrip maxOrdersPerPost placements signed ⟨[], some (.error stop)⟩
  | posting (join : Join.State Error (List R)) (some_placements : placements ≠ [])
      (complete : signed.2 = none)
      (reached : Join.Reachable (postChunks signed.1 maxOrdersPerPost).length
        (chunkPost lib roundTrip (postChunks signed.1 maxOrdersPerPost)) join) :
      Places roundTrip maxOrdersPerPost placements signed
        (postSigned lib signed.1 maxOrdersPerPost join)

end

/-! ## Orders the loops sign -/

section
variable {turn : UInt64 → RestingPlacement → Except Stop SignableOrder}
  {sign : SignableOrder → Except Stop SignedOrder} {salts : Nat → UInt64}

/-- A loop that is not stopped signs the order of each placement. -/
theorem signAll_complete {ps : List RestingPlacement} {i : Nat}
    (h : (signAll turn sign salts i ps).2 = none) :
    (signAll turn sign salts i ps).1.length = ps.length ∧
      ∀ j p, ps[j]? = some p → ∃ order signed, turn (salts (i + j)) p = .ok order ∧
        sign order = .ok signed ∧ (signAll turn sign salts i ps).1[j]? = some signed := by
  induction ps generalizing i with
  | nil => exact ⟨rfl, nofun⟩
  | cons p ps ih =>
    rw [signAll] at h ⊢
    cases hturn : turn (salts i) p with
    | error stop =>
      rw [hturn] at h
      cases h
    | ok order =>
      cases hsign : sign order with
      | error stop =>
        simp only [hturn, hsign] at h
        cases h
      | ok signed =>
        simp only [hturn, hsign] at h ⊢
        obtain ⟨hlength, hall⟩ := ih h
        refine ⟨by rw [List.length_cons, hlength, List.length_cons], ?_⟩
        intro j q hq
        cases j with
        | zero =>
          obtain rfl := Option.some.inj hq
          exact ⟨order, signed, hturn, hsign, rfl⟩
        | succ j =>
          obtain ⟨order', signed', hturn', hsign', hget⟩ := hall j q hq
          refine ⟨order', signed', ?_, hsign', hget⟩
          rwa [Nat.add_assoc, Nat.add_comm 1 j] at hturn'

theorem forall_signed {P : SignedOrder → Prop} {ps : List RestingPlacement}
    (h : ∀ p salt order signed, turn salt p = .ok order → sign order = .ok signed → P signed)
    {i : Nat} : ∀ o ∈ (signAll turn sign salts i ps).1, P o := by
  obtain ⟨hlength, hrows⟩ := List.forall₂_iff_get.mp (signAll_forall₂ ps (fun p _ => h p) i)
  intro o ho
  obtain ⟨k, hk, rfl⟩ := List.mem_iff_getElem.mp ho
  exact hrows k (hlength.symm ▸ hk) hk

/-- A placement fails to convert or sign exactly when the loop stops. -/
theorem signAll_stops_iff {ps : List RestingPlacement} {i : Nat} :
    (signAll turn sign salts i ps).2 ≠ none ↔
      ∃ j p, ps[j]? = some p ∧
        ¬∃ order signed, turn (salts (i + j)) p = .ok order ∧ sign order = .ok signed := by
  constructor
  · intro h
    by_contra hnone
    have hall : ∀ j p, ps[j]? = some p →
        ∃ order signed, turn (salts (i + j)) p = .ok order ∧ sign order = .ok signed := by
      intro j p hp
      by_contra hfails
      exact hnone ⟨j, p, hp, hfails⟩
    clear hnone
    apply h
    induction ps generalizing i with
    | nil => rfl
    | cons p ps ih =>
      obtain ⟨order, signed, hturn, hsign⟩ := hall 0 p rfl
      rw [Nat.add_zero] at hturn
      rw [signAll] at h ⊢
      simp only [hturn, hsign] at h ⊢
      refine ih h ?_
      intro j q hq
      have hlater := hall (j + 1) q hq
      rwa [Nat.add_comm j 1, ← Nat.add_assoc] at hlater
  · intro h hnone
    obtain ⟨j, p, hp, hfails⟩ := h
    obtain ⟨order, signed, hturn, hsign, -⟩ := (signAll_complete hnone).2 j p hp
    exact hfails ⟨order, signed, hturn, hsign⟩

end

section
variable (tooLarge : BitVec 256 → String) {lib : DecimalLib} {keccak256 : Bytes → B256}
  {debugAssertions : Bool} {self : OrderSigner} {signer : B256 → Except String Signature}
  {ts salt : UInt64} {p : RestingPlacement} {order : SignableOrder} {signed : SignedOrder}

/-- An order built for a side of the book can be written: its salt is a `u64`. -/
theorem signWith_serializes {tokenId makerAmount takerAmount : BitVec 256}
    {orderType : OrderType} {postOnly : Bool} {side : Side} (hside : side = .buy ∨ side = .sell)
    (h : signWith keccak256 debugAssertions self signer (buildSignableOrderSide tokenId makerAmount
      takerAmount self.identity ts orderType salt postOnly side) = .ok signed) :
    ∃ json, signed.serialize tooLarge = .ok json := by
  have hpayload : signed.payload.side = side.asU8 ∧ signed.payload.salt = u64Uint salt := by
    unfold signWith at h
    rw [signOrder_carried keccak256 rfl ⟨rfl, rfl, rfl⟩, Oracle.Logged.bind_value,
      Oracle.Logged.ask_value] at h
    split at h
    next => cases h
    next =>
      cases h
      exact ⟨rfl, rfl⟩
  obtain ⟨side', hside', -, hbody⟩ | ⟨hbad, -⟩ :=
    serializeBody_cases tooLarge signed.signature signed.payload
  · rw [SignedOrder.serialize, hbody]
    exact ⟨_, rfl⟩
  · refine absurd ⟨?_, ?_⟩ hbad
    · rw [hpayload.1]
      rcases hside with rfl | rfl
      · exact ⟨.buy, rfl⟩
      · exact ⟨.sell, rfl⟩
    · rw [hpayload.2, u64Uint, BitVec.toNat_setWidth]
      exact lt_of_le_of_lt (Nat.mod_le _ _) salt.toNat_lt

theorem restingOrder_serializes (horder : restingOrder lib self.identity ts salt p = .ok order)
    (hsigned : signWith keccak256 debugAssertions self signer order = .ok signed) :
    ∃ json, signed.serialize tooLarge = .ok json := by
  obtain ⟨d, -, horder⟩ := bind_ok horder
  obtain ⟨maker, -, horder⟩ := bind_ok horder
  obtain ⟨taker, -, horder⟩ := bind_ok horder
  cases horder
  exact signWith_serializes tooLarge (.inl rfl) hsigned

theorem sellOrder_serializes {orderType : OrderType} {postOnly : Bool}
    (horder : sellOrder lib orderType postOnly self.identity ts salt p = .ok order)
    (hsigned : signWith keccak256 debugAssertions self signer order = .ok signed) :
    ∃ json, signed.serialize tooLarge = .ok json := by
  obtain ⟨maker, -, horder⟩ := bind_ok horder
  obtain ⟨d, -, horder⟩ := bind_ok horder
  obtain ⟨taker, -, horder⟩ := bind_ok horder
  cases horder
  exact signWith_serializes tooLarge (.inr rfl) hsigned

theorem serializeOrders_isOk {orders : List SignedOrder}
    (h : ∀ o ∈ orders, ∃ json, o.serialize tooLarge = .ok json) :
    (serializeOrders tooLarge orders).isOk = true := by
  unfold serializeOrders
  induction orders with
  | nil => rfl
  | cons o orders ih =>
    obtain ⟨json, hjson⟩ := h o List.mem_cons_self
    have hrest := ih fun o ho => h o (List.mem_cons_of_mem _ ho)
    rw [List.mapM_cons, hjson]
    cases hbody : orders.mapM (·.serialize tooLarge) with
    | error e =>
      rw [hbody] at hrest
      cases hrest
    | ok bodies => rfl

end

/-! ## Answers to a chunk -/

section
variable {R : Type} {lib : PostLibrary R}

/-- A chunk's posts are the responses of its answer, one for each order. -/
theorem postOrders_ok {roundTrip : Except String HttpAnswer} {orders : List SignedOrder}
    {posts : List R} (h : postOrders lib roundTrip orders = .ok posts) :
    (∃ answer, roundTrip = .ok answer ∧ lib.parsePosts answer.body = .ok posts) ∧
      posts.length = orders.length := by
  unfold postOrders at h
  cases hbody : serializeOrders lib.tooLarge orders with
  | error e =>
    rw [hbody] at h
    cases h
  | ok body =>
    cases hround : roundTrip with
    | error e =>
      rw [hbody, hround] at h
      cases h
    | ok answer =>
      rw [hbody, hround] at h
      simp only at h
      split at h
      next => cases h
      next =>
        split at h
        next => cases h
        next =>
          cases hparse : lib.parsePosts answer.body with
          | error e =>
            rw [hparse] at h
            cases h
          | ok resps =>
            rw [hparse] at h
            simp only at h
            split at h
            next => cases h
            next hlen =>
              obtain rfl := Except.ok.inj h
              exact ⟨⟨answer, rfl, hparse⟩, not_not.mp hlen⟩

/-- All chunks done: their posts, in order, are of the chunks' lengths. -/
theorem chunkPost_all {roundTrip : Nat → Except String HttpAnswer}
    {chunks : List (List SignedOrder)} {values : List (List R)}
    (h : (List.range chunks.length).map (chunkPost lib roundTrip chunks) = values.map .ok) :
    List.Forall₂ (fun chunk posts => posts.length = chunk.length) chunks values ∧
      ∀ k posts, values[k]? = some posts →
        ∃ answer, roundTrip k = .ok answer ∧ lib.parsePosts answer.body = .ok posts := by
  have hlength : chunks.length = values.length := by
    have hboth := congrArg List.length h
    rwa [List.length_map, List.length_range, List.length_map] at hboth
  have hpost (k : Nat) (chunk : List SignedOrder) (posts : List R) (hk : chunks[k]? = some chunk)
      (hposts : values[k]? = some posts) : postOrders lib (roundTrip k) chunk = .ok posts := by
    have hlt := (List.getElem?_eq_some_iff.mp hk).1
    have hat := congrArg (fun l => l[k]?) h
    simp only [List.getElem?_map, List.getElem?_range hlt, hposts, Option.map_some,
      Option.some.injEq] at hat
    rwa [chunkPost, hk] at hat
  constructor
  · refine List.forall₂_iff_get.mpr ⟨hlength, ?_⟩
    intro k hk hk'
    exact (postOrders_ok (hpost k _ _ (List.getElem?_eq_getElem hk)
      (List.getElem?_eq_getElem hk'))).2
  · intro k posts hposts
    have hlt := (List.getElem?_eq_some_iff.mp hposts).1
    exact (postOrders_ok (hpost k _ posts (List.getElem?_eq_getElem (hlength ▸ hlt)) hposts)).1

end

/-! ## Answers and placements -/

/-- The order that a loop signs for its `i`-th placement. -/
def SignedAs (turn : UInt64 → RestingPlacement → Except Stop SignableOrder)
    (sign : SignableOrder → Except Stop SignedOrder) (salts : Nat → UInt64) (i : Nat)
    (p : RestingPlacement) (o : SignedOrder) : Prop :=
  ∃ order, turn (salts i) p = .ok order ∧ sign order = .ok o

/-- What a call sends and returns, next to its placements. -/
structure LinesUp {R : Type} (lib : PostLibrary R) (roundTrip : Nat → Except String HttpAnswer)
    (maxOrdersPerPost : Nat) (signedAs : Nat → RestingPlacement → SignedOrder → Prop)
    (placements : List RestingPlacement) (signed : List SignedOrder) (state : Posted R) :
    Prop where
  /-- Nothing is sent when a placement fails to convert or sign. -/
  unsent : (∃ i p, placements[i]? = some p ∧ ¬∃ o, signedAs i p o) → state.sent = []
  /-- What is posted are the placements' orders. -/
  orders : state.sent ≠ [] → signed.length = placements.length ∧
    ∀ i p, placements[i]? = some p → ∃ o, signedAs i p o ∧ signed[i]? = some o
  bounded : ∀ request ∈ state.sent, request.length ≤ max maxOrdersPerPost 1
  chunks : state.sent <+: postChunks signed maxOrdersPerPost
  contiguous : state.sent.flatten <+: signed
  /-- A call that returns has sent all orders, or a request whose POST failed. -/
  whole : (∀ i p, placements[i]? = some p → ∃ o, signedAs i p o) → state.returned ≠ none →
    state.sent.flatten = signed ∨ ∃ k request e, state.sent[k]? = some request ∧
      postOrders lib (roundTrip k) request = .error e
  /-- The `i`-th post answers the `i`-th order, from the same place of the same request. -/
  answered : ∀ posts, state.returned = some (.ok posts) → posts.length = placements.length ∧
    ∀ i < placements.length, ∃ k j request answer responses,
      k * max maxOrdersPerPost 1 + j = i ∧ state.sent[k]? = some request ∧
      roundTrip k = .ok answer ∧ lib.parsePosts answer.body = .ok responses ∧
      request[j]? = signed[i]? ∧ responses[j]? = posts[i]?

section
variable {R : Type} {lib : PostLibrary R} {roundTrip : Nat → Except String HttpAnswer}
  {maxOrdersPerPost : Nat} {turn : UInt64 → RestingPlacement → Except Stop SignableOrder}
  {sign : SignableOrder → Except Stop SignedOrder} {salts : Nat → UInt64}
  {placements : List RestingPlacement}

/-- Orders that can be written are sent as they are started. -/
theorem postSigned_sent {signed : List SignedOrder}
    (hwrite : ∀ o ∈ signed, ∃ json, o.serialize lib.tooLarge = .ok json)
    (join : Join.State Error (List R)) :
    (postSigned lib signed maxOrdersPerPost join).sent =
      (postChunks signed maxOrdersPerPost).take join.started := by
  rw [postSigned, List.filter_eq_self]
  intro chunk hchunk
  apply serializeOrders_isOk
  intro o ho
  apply hwrite
  rw [← batches_flatten (Nat.lt_of_lt_of_le Nat.zero_lt_one (Nat.le_max_right maxOrdersPerPost 1))
    signed]
  exact List.mem_flatten.mpr ⟨chunk, List.mem_of_mem_take hchunk, ho⟩

theorem signed_iff : (signAll turn sign salts 0 placements).2 = none ↔
    ∀ i p, placements[i]? = some p → ∃ o, SignedAs turn sign salts i p o := by
  rw [← not_iff_not, ← ne_eq, signAll_stops_iff]
  simp only [not_forall, Nat.zero_add, SignedAs]
  constructor
  · intro h
    obtain ⟨i, p, hp, hfails⟩ := h
    refine ⟨i, p, hp, ?_⟩
    intro hsigned
    obtain ⟨o, order, hturn, hsign⟩ := hsigned
    exact hfails ⟨order, o, hturn, hsign⟩
  · intro h
    obtain ⟨i, p, hp, hfails⟩ := h
    refine ⟨i, p, hp, ?_⟩
    intro hsigned
    obtain ⟨order, o, hturn, hsign⟩ := hsigned
    exact hfails ⟨o, order, hturn, hsign⟩

/-- A call that posts the orders of its placements. -/
theorem posting_linesUp {signedAs : Nat → RestingPlacement → SignedOrder → Prop}
    {signed : List SignedOrder} {join : Join.State Error (List R)}
    (hwrite : ∀ o ∈ signed, ∃ json, o.serialize lib.tooLarge = .ok json)
    (hlength : signed.length = placements.length)
    (horders : ∀ i p, placements[i]? = some p → ∃ o, signedAs i p o ∧ signed[i]? = some o)
    (hreached : Join.Reachable (postChunks signed maxOrdersPerPost).length
      (chunkPost lib roundTrip (postChunks signed maxOrdersPerPost)) join) :
    LinesUp lib roundTrip maxOrdersPerPost signedAs placements signed
      (postSigned lib signed maxOrdersPerPost join) := by
  have hsize : 0 < max maxOrdersPerPost 1 :=
    Nat.lt_of_lt_of_le Nat.zero_lt_one (Nat.le_max_right maxOrdersPerPost 1)
  have hsent : (postSigned lib signed maxOrdersPerPost join).sent = _ :=
    postSigned_sent hwrite join
  have hflatten : (postChunks signed maxOrdersPerPost).flatten = signed :=
    batches_flatten hsize signed
  have hinv := hreached.inv
  constructor
  · intro h
    obtain ⟨i, p, hp, hfails⟩ := h
    obtain ⟨o, hsigned, -⟩ := horders i p hp
    exact absurd ⟨o, hsigned⟩ hfails
  · exact fun _ => ⟨hlength, horders⟩
  · intro request hrequest
    rw [hsent] at hrequest
    exact length_of_mem_batches (List.mem_of_mem_take hrequest)
  · rw [hsent]
    exact List.take_prefix _ _
  · rw [hsent]
    refine ⟨((postChunks signed maxOrdersPerPost).drop join.started).flatten, ?_⟩
    rw [← List.flatten_append, List.take_append_drop]
    exact hflatten
  · intro _ hreturned
    have hjoin : join.returned ≠ none := fun hnone => hreturned (congrArg (Option.map _) hnone)
    rcases hreached.started_of_returned hjoin with hall | ⟨k, hk, e, he⟩
    · left
      rw [hsent, List.take_of_length_le (Nat.le_of_eq hall.symm)]
      exact hflatten
    · right
      have hlt : k < (postChunks signed maxOrdersPerPost).length :=
        Nat.lt_of_lt_of_le hk hinv.started_le
      rw [chunkPost, List.getElem?_eq_getElem hlt] at he
      refine ⟨k, _, e, ?_, he⟩
      rw [hsent, List.getElem?_take_of_lt hk, List.getElem?_eq_getElem hlt]
  · intro posts hposts
    obtain ⟨result, hresult, hmap⟩ := Option.map_eq_some_iff.mp hposts
    cases result with
    | error e => cases hmap
    | ok values =>
      obtain rfl := Except.ok.inj hmap
      obtain ⟨hall, hordered⟩ := hinv.ok values hresult
      obtain ⟨hlengths, hanswers⟩ := chunkPost_all hordered
      obtain ⟨hcount, haligned⟩ := batches_aligned hsize hlengths
      refine ⟨hcount.trans hlength, ?_⟩
      intro i hi
      obtain ⟨k, j, request, responses, hij, hk, hvalues, hrequest, hresponse⟩ :=
        haligned i (hlength ▸ hi)
      obtain ⟨answer, hround, hparse⟩ := hanswers k responses hvalues
      refine ⟨k, j, request, answer, responses, hij, ?_, hround, hparse, hrequest, hresponse⟩
      rw [hsent, List.take_of_length_le (Nat.le_of_eq hall.symm)]
      exact hk

theorem Places.linesUp {state : Posted R}
    (hwrite : ∀ o ∈ (signAll turn sign salts 0 placements).1,
      ∃ json, o.serialize lib.tooLarge = .ok json)
    (h : Places lib roundTrip maxOrdersPerPost placements (signAll turn sign salts 0 placements)
      state) :
    LinesUp lib roundTrip maxOrdersPerPost (SignedAs turn sign salts) placements
      (signAll turn sign salts 0 placements).1 state := by
  cases h with
  | signing =>
    exact ⟨fun _ => rfl, fun h => absurd rfl h, nofun, List.nil_prefix, List.nil_prefix,
      fun _ h => absurd rfl h, nofun⟩
  | nothing empty =>
    subst empty
    refine ⟨fun _ => rfl, fun h => absurd rfl h, nofun, List.nil_prefix, List.nil_prefix,
      fun _ _ => .inl rfl, ?_⟩
    intro posts hposts
    obtain rfl := Except.ok.inj (Option.some.inj hposts)
    exact ⟨rfl, nofun⟩
  | stopped stop _ early =>
    refine ⟨fun _ => rfl, fun h => absurd rfl h, nofun, List.nil_prefix, List.nil_prefix, ?_,
      nofun⟩
    intro hall _
    rw [signed_iff.mpr hall] at early
    cases early
  | posting join _ complete reached =>
    obtain ⟨hlength, hall⟩ := signAll_complete complete
    refine posting_linesUp hwrite hlength ?_ reached
    intro i p hp
    obtain ⟨order, o, hturn, hsign, hget⟩ := hall i p hp
    rw [Nat.zero_add] at hturn
    exact ⟨o, ⟨order, hturn, hsign⟩, hget⟩

end

/-- In every state of a call, BUY or SELL, what was sent and what is returned line up with
the placements. -/
theorem placements_line_up (decimals : DecimalLib) (keccak256 : Bytes → B256)
    (debugAssertions : Bool) (self : OrderSigner) (signer : B256 → Except String Signature)
    (ts : UInt64) (salts : Nat → UInt64) {R : Type} (lib : PostLibrary R)
    (roundTrip : Nat → Except String HttpAnswer) (placements : List RestingPlacement)
    (maxOrdersPerPost : Nat) :
    let sign := signWith keccak256 debugAssertions self signer
    let buys := placeResting decimals keccak256 debugAssertions self signer ts salts placements
    let sells :=
      placeRestingSell decimals keccak256 debugAssertions self signer ts salts placements
    (∀ state, Places lib roundTrip maxOrdersPerPost placements buys state →
      LinesUp lib roundTrip maxOrdersPerPost
        (SignedAs (restingOrder decimals self.identity ts) sign salts) placements buys.1 state) ∧
    ∀ state, Places lib roundTrip maxOrdersPerPost placements sells state →
      LinesUp lib roundTrip maxOrdersPerPost
        (SignedAs (sellOrder decimals .gtc true self.identity ts) sign salts) placements sells.1
        state := by
  intro sign buys sells
  constructor
  · intro state h
    exact h.linesUp (forall_signed fun p salt order signed horder hsigned =>
      restingOrder_serializes lib.tooLarge horder hsigned)
  · intro state h
    exact h.linesUp (forall_signed fun p salt order signed horder hsigned =>
      sellOrder_serializes lib.tooLarge horder hsigned)

/-- Two placements, one for each POST, and a connection that fails at once: the call returns
before the second POST is started. -/
theorem failed_first_post_leaves_order_unsent :
    let lib : PostLibrary Unit := ⟨fun _ => "", fun _ => "", fun _ => .ok []⟩
    let roundTrip : Nat → Except String HttpAnswer := fun _ => .error "POST failed"
    let buys := placeResting .loops (fun _ => FixedBytes.zero 32) true sampleSigner
      (fun _ => .ok ⟨0, 0, false⟩) 1700000000000 (fun _ => 7) [oddSell, oddSell]
    buys.2 = none ∧ ∃ state, Places lib roundTrip 1 [oddSell, oddSell] buys state ∧
      state.returned = some (.error (.failed (.invalidData "POST failed"))) ∧
      state.sent.flatten ≠ buys.1 := by
  intro lib roundTrip buys
  have hcomplete : buys.2 = none := by decide +kernel
  have hcount : buys.1.length = 2 := by decide +kernel
  have hwrite : ∀ o ∈ buys.1, ∃ json, o.serialize lib.tooLarge = .ok json :=
    forall_signed fun p salt order signed horder hsigned =>
      restingOrder_serializes lib.tooLarge horder hsigned
  have hne : buys.1 ≠ [] := List.ne_nil_of_length_pos (hcount ▸ Nat.succ_pos 1)
  obtain ⟨rest, hchunks⟩ : ∃ rest, postChunks buys.1 1 = buys.1.take 1 :: rest :=
    batches_eq_cons (max 1 1) hne
  have hpost : chunkPost lib roundTrip (postChunks buys.1 1) 0 =
      .error (.invalidData "POST failed") := by
    have hbody : (serializeOrders lib.tooLarge (buys.1.take 1)).isOk = true :=
      serializeOrders_isOk _ fun o ho => hwrite o (List.mem_of_mem_take ho)
    rw [hchunks, chunkPost, List.getElem?_cons_zero]
    simp only [postOrders]
    cases hserialize : serializeOrders lib.tooLarge (buys.1.take 1) with
    | error e =>
      rw [hserialize] at hbody
      cases hbody
    | ok body => rfl
  have hlt : 0 < (postChunks buys.1 1).length := by
    rw [hchunks]
    exact Nat.succ_pos _
  refine ⟨hcomplete, _, .posting _ (List.cons_ne_nil _ _) hcomplete
    (.step (.step (.step .initial (.start rfl hlt)) (.finish 0 rfl Nat.zero_lt_one
      List.not_mem_nil)) (.fail 0 _ rfl (List.mem_singleton_self 0) hpost)), rfl, ?_⟩
  intro hall
  have hlengths := congrArg List.length hall
  rw [postSigned_sent hwrite, hcount, hchunks] at hlengths
  have htaken : (List.take 1 (buys.1.take 1 :: rest)).flatten.length = 1 := by
    rw [List.take_succ_cons, List.take_zero, List.flatten_singleton, List.length_take, hcount]
    rfl
  exact absurd (htaken.symm.trans hlengths) (by decide)

end Eggplant.Clob
