import Eggplant.Primitives

/-!
# The crate-wide error type

The payload of a variant that wraps a library error (`reqwest`, `serde_json`,
`std::io`) is the text that error displays.
-/
namespace Eggplant

set_option autoImplicit false

/-- Relayer response substring shown while another action is in flight for the wallet. -/
def walletBusyMarker : String := "wallet busy: active action exists"

inductive Error where
  | http (text : String)
  | json (text : String)
  | io (text : String)
  | api (status : Nat) (body : String)
  | rateLimit (retryAfter : Option String)
  | invalidData (text : String)
  | relayerQuotaExhausted (resetsInSecs : Nat)
  | ws (text : String)
  deriving DecidableEq

namespace Error

/-- `Display`, as the `#[error(..)]` attributes spell it. -/
def display : Error → String
  | http text => "HTTP request failed: " ++ text
  | json text => "JSON parsing error: " ++ text
  | io text => "I/O error: " ++ text
  | api status body => "API error (" ++ toString status ++ "): " ++ body
  | rateLimit _ => "rate limited"
  | invalidData text => text
  | relayerQuotaExhausted secs => "relayer quota exhausted, resets in " ++ toString secs ++ "s"
  | ws text => "websocket error: " ++ text

/-- The transient relayer condition: nothing was submitted and a retry is safe. -/
def isWalletBusy : Error → Bool
  | invalidData msg => strContains msg walletBusyMarker
  | _ => false

def isQuotaExhausted : Error → Bool
  | relayerQuotaExhausted _ => true
  | _ => false

/-- No answer is both: a busy wallet is retried, a spent quota never is. -/
theorem quota_not_busy {e : Error} (h : e.isQuotaExhausted = true) : e.isWalletBusy = false := by
  cases e <;> simp_all [isQuotaExhausted, isWalletBusy]

end Error

/-- Two fallible steps succeed when each of them does. -/
theorem bind_ok {ε α β : Type} {x : Except ε α} {f : α → Except ε β} {b : β}
    (h : (x >>= f) = .ok b) : ∃ a, x = .ok a ∧ f a = .ok b := by
  cases x with
  | error e => cases h
  | ok a => exact ⟨a, rfl, h⟩

end Eggplant
