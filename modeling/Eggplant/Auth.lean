import Eggplant.Addresses
import Eggplant.Clob.Types
import Eggplant.Lib.Oracle
import Eggplant.TypedData

/-!
# The handshake for API keys

`ClobAuth` is the typed message a wallet signs to obtain its API key. The key is a
parameter, the digests handed to it are logged; a header value is checked the way the
HTTP library checks it.
-/
namespace Eggplant.Auth

set_option autoImplicit false

open Eggplant.Lib Eggplant.Lib.Words Eggplant.Lib.Text Eggplant.Lib.Oracle
open Eggplant.Clob (Signature OrderSignature)

def polyAddress : String := "POLY_ADDRESS"

def polyApiKey : String := "POLY_API_KEY"

def polyNonce : String := "POLY_NONCE"

def polyPassphrase : String := "POLY_PASSPHRASE"

def polySignature : String := "POLY_SIGNATURE"

def polyTimestamp : String := "POLY_TIMESTAMP"

/-! ## Headers -/

/-- A header map in the order its names were first inserted. -/
abbrev HeaderMap := List (String × String)

/-- `HeaderMap::insert`: a name that is there keeps its place and gets the value. -/
def HeaderMap.insert (map : HeaderMap) (name value : String) : HeaderMap :=
  if map.any (·.1 = name) then map.map fun header => if header.1 = name then (name, value) else header
  else map ++ [(name, value)]

/-- `insert_header`; `validHeader` is the library's check of a value. -/
def insertHeader (validHeader : String → Bool) (map : HeaderMap) (name value : String) :
    Except Error HeaderMap :=
  if validHeader value then .ok (map.insert name value)
  else .error (.invalidData ("invalid header value for " ++ name))

/-- A character a header value may hold: a blank, or a visible ASCII character. -/
def Visible (c : Char) : Prop := 0x20 ≤ c.toNat ∧ c.toNat ≤ 0x7e

/-- What the library documents of its check. -/
def AcceptsVisible (validHeader : String → Bool) : Prop :=
  ∀ value : String, (∀ c ∈ value.toList, Visible c) → validHeader value = true

/-! ## The attestation -/

structure ClobAuth where
  address : Address
  timestamp : String
  nonce : BitVec 256
  message : String
  deriving DecidableEq

def clobAuthMessage : String := "This message attests that I control the given wallet"

/-- The members `sol!` declares; their order is part of the type hash. -/
def ClobAuth.members : Eip712.Members :=
  .cons "address" .address <| .cons "timestamp" .string <| .cons "nonce" (.uint 256) <|
  .cons "message" .string .nil

def ClobAuth.toStruct (auth : ClobAuth) : Eip712.Struct where
  name := "ClobAuth"
  members := ClobAuth.members
  value := (auth.address, auth.timestamp, auth.nonce, auth.message, ())

def clobAuthDomain (chainId : UInt64) : Eip712.Domain where
  name := some "ClobAuthDomain"
  version := some "1"
  chainId := some (u64Uint chainId)

/-- The attestation of a wallet at a time; each nonce stands for one API key. -/
def attestation (address : Address) (timestamp : Int64) (nonce : UInt32) : ClobAuth where
  address := address
  timestamp := timestamp.toInt.repr
  nonce := nonce.toBitVec.setWidth 256
  message := clobAuthMessage

section
variable (keccak256 : Bytes → B256) (validHeader : String → Bool)

def l1Headers (address : Address) (signer : B256 → Except String Signature) (chainId : UInt64)
    (timestamp : Int64) (nonce : Option UInt32) : Logged B256 (Except Error HeaderMap) := do
  let naiveNonce := nonce.getD 0
  let auth := attestation address timestamp naiveNonce
  let hash := Eip712.digest keccak256 (clobAuthDomain chainId) auth.toStruct
  match ← Logged.ask signer hash with
  | .error e => pure (.error (.invalidData ("L1 signing failed: " ++ e)))
  | .ok signature =>
    pure do
      let map ← insertHeader validHeader [] polyAddress address.lowerHex
      let map ← insertHeader validHeader map polyNonce naiveNonce.toNat.repr
      let map ← insertHeader validHeader map polySignature (OrderSignature.ecdsa signature).display
      insertHeader validHeader map polyTimestamp timestamp.toInt.repr

end

/-! ## The four headers -/

theorem visible_hexDigit (n : Nat) : Visible (hexDigit n) := by
  have hall : ∀ m : Fin 16, Visible (hexDigit m.val) := by
    unfold Visible
    decide
  by_cases h : n < 16
  · exact hall ⟨n, h⟩
  · have hlen : "0123456789abcdef".toList.length ≤ n := by simpa using h
    rw [hexDigit, List.getD_eq_default _ _ hlen]
    unfold Visible
    decide

theorem visible_hexText (bs : Bytes) : ∀ c ∈ ("0x" ++ hexText bs).toList, Visible c := by
  intro c hc
  rw [String.toList_append, List.mem_append] at hc
  rcases hc with hmark | hdigit
  · have hcases : c = '0' ∨ c = 'x' := by simpa using hmark
    unfold Visible
    rcases hcases with rfl | rfl <;> decide
  · rw [hexText, String.toList_ofList] at hdigit
    obtain ⟨b, _, hb⟩ := List.mem_flatMap.mp hdigit
    rcases List.mem_pair.mp hb with rfl | rfl <;> exact visible_hexDigit _

theorem visible_of_isDigit {c : Char} (h : c.isDigit = true) : Visible c := by
  rw [Char.isDigit, Bool.and_eq_true, decide_eq_true_eq, decide_eq_true_eq] at h
  have hlo : '0'.toNat ≤ c.toNat := h.1
  have hhi : c.toNat ≤ '9'.toNat := h.2
  exact ⟨le_trans (by decide) hlo, le_trans hhi (by decide)⟩

theorem visible_repr (n : Int) : ∀ c ∈ n.repr.toList, Visible c := by
  intro c hc
  cases n with
  | ofNat n => exact visible_of_isDigit (isDigit_of_mem_repr hc)
  | negSucc n =>
    rw [Int.repr, String.toList_append, List.mem_append] at hc
    rcases hc with hsign | hdigit
    · rw [List.mem_singleton.mp hsign]
      unfold Visible
      decide
    · exact visible_of_isDigit (isDigit_of_mem_repr hdigit)

section
variable (keccak256 : Bytes → B256) {validHeader : String → Bool}
  (hvalid : AcceptsVisible validHeader) (address : Address) (signer : B256 → Except String Signature)
  (chainId : UInt64) (timestamp : Int64) (nonce : Option UInt32)

theorem l1Headers_queries :
    (l1Headers keccak256 validHeader address signer chainId timestamp nonce).queries =
      [Eip712.digest keccak256 (clobAuthDomain chainId)
        (attestation address timestamp (nonce.getD 0)).toStruct] := by
  rw [l1Headers, Logged.bind_queries, Logged.ask_queries, Logged.ask_value]
  cases signer _ with
  | error e => rfl
  | ok signature => rfl

include hvalid in
/-- Once the key has signed no header is refused. -/
theorem l1Headers_value {signature : Signature}
    (hsig : signer (Eip712.digest keccak256 (clobAuthDomain chainId)
      (attestation address timestamp (nonce.getD 0)).toStruct) = .ok signature) :
    (l1Headers keccak256 validHeader address signer chainId timestamp nonce).value =
      .ok [(polyAddress, address.lowerHex), (polyNonce, (nonce.getD 0).toNat.repr),
        (polySignature, (OrderSignature.ecdsa signature).display),
        (polyTimestamp, timestamp.toInt.repr)] := by
  have haddress : validHeader address.lowerHex = true := hvalid _ (visible_hexText _)
  have hnonce : validHeader (nonce.getD 0).toNat.repr = true :=
    hvalid _ fun c hc => visible_of_isDigit (isDigit_of_mem_repr hc)
  have hsignature : validHeader (OrderSignature.ecdsa signature).display = true :=
    hvalid _ (visible_hexText _)
  have htimestamp : validHeader timestamp.toInt.repr = true := hvalid _ (visible_repr _)
  rw [l1Headers, Logged.bind_value, Logged.ask_value, hsig]
  show (do
    let map ← insertHeader validHeader [] polyAddress address.lowerHex
    let map ← insertHeader validHeader map polyNonce _
    let map ← insertHeader validHeader map polySignature _
    insertHeader validHeader map polyTimestamp _) = _
  simp only [insertHeader, haddress, hnonce, hsignature, htimestamp, if_true]
  rfl

end

end Eggplant.Auth
