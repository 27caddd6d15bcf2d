import Eggplant.Lib.Text

/-!
# Typed structured data hashing

The recursive encoder of EIP-712 over any hash function: a type universe with
nested arrays and structs, the values of each type, `encodeType`, `encodeData`,
`hashStruct`, the domain separator and the digest that is signed. A value is
indexed by its type, so an ill-typed message cannot be built.
-/
namespace Eggplant.Lib.Eip712

set_option autoImplicit false

open Eggplant.Lib.Words Eggplant.Lib.Text

mutual

inductive Ty where
  | uint (bits : Nat)
  | address
  | bytes32
  | string
  | bytes
  | array (elem : Ty)
  | struct (name : String) (members : Members)

/-- The members of a struct type, in declaration order. -/
inductive Members where
  | nil
  | cons (name : String) (type : Ty) (rest : Members)

end

mutual

/-- The values of a type. -/
def Ty.Val : Ty → Type
  | .uint bits => BitVec bits
  | .address => FixedBytes 20
  | .bytes32 => Word
  | .string => String
  | .bytes => Bytes
  | .array elem => List elem.Val
  | .struct _ members => members.Val

def Members.Val : Members → Type
  | .nil => Unit
  | .cons _ type rest => type.Val × rest.Val

end

/-! ## Type strings -/

def Ty.text : Ty → String
  | .uint bits => "uint" ++ bits.repr
  | .address => "address"
  | .bytes32 => "bytes32"
  | .string => "string"
  | .bytes => "bytes"
  | .array elem => elem.text ++ "[]"
  | .struct name _ => name

def Members.texts : Members → List String
  | .nil => []
  | .cons name type rest => (type.text ++ " " ++ name) :: rest.texts

/-- `name ‖ "(" ‖ member₁ ‖ "," ‖ … ‖ ")"`. -/
def structText (name : String) (members : Members) : String :=
  name ++ "(" ++ ",".intercalate members.texts ++ ")"

mutual

/-- The struct types a type mentions, each by name and own text, inner ones included. -/
def Ty.structs : Ty → List (String × String)
  | .array elem => elem.structs
  | .struct name members => (name, structText name members) :: members.structs
  | _ => []

def Members.structs : Members → List (String × String)
  | .nil => []
  | .cons _ type rest => type.structs ++ rest.structs

end

/-- The primary struct followed by the referenced ones, each once, sorted by name. -/
def encodeType (name : String) (members : Members) : String :=
  let referenced := (members.structs.filter (fun s => s.1 ≠ name)).dedup.insertionSort
    (fun s t => s.1 ≤ t.1)
  structText name members ++ String.join (referenced.map Prod.snd)

/-! ## Data and digests -/

theorem address_fits : 20 ≤ 32 := by decide

section Hashing
variable (keccak256 : Bytes → Word)

def typeHash (name : String) (members : Members) : Word :=
  keccak256 (utf8 (encodeType name members))

mutual

/-- The word that stands for a value inside its container. -/
def Ty.encode : (t : Ty) → t.Val → Word
  | .uint bits, v => Word.ofNat (show BitVec bits from v).toNat
  | .address, a => Word.leftPad a address_fits
  | .bytes32, w => w
  | .string, s => keccak256 (utf8 s)
  | .bytes, bs => keccak256 bs
  | .array elem, vs =>
      keccak256 (List.flatMap (fun v => (Ty.encode elem v).bytes) (show List elem.Val from vs))
  | .struct name members, v =>
      keccak256 ((typeHash keccak256 name members).bytes ++ Members.encodeData members v)

def Members.encodeData : (ms : Members) → ms.Val → Bytes
  | .nil, _ => []
  | .cons _ type rest, v => (Ty.encode type v.1).bytes ++ Members.encodeData rest v.2

end

/-- A struct value together with its type. -/
structure Struct where
  name : String
  members : Members
  value : members.Val

def hashStruct (s : Struct) : Word := (Ty.struct s.name s.members).encode keccak256 s.value

theorem hashStruct_eq (s : Struct) :
    hashStruct keccak256 s =
      keccak256 ((typeHash keccak256 s.name s.members).bytes ++
        s.members.encodeData keccak256 s.value) := rfl

/-- A struct hash from the hash of its type string. -/
theorem hashStruct_of_type {keccak256 : Bytes → Word} {s : Struct} {text : String} {word : Word}
    (htext : encodeType s.name s.members = text) (hword : keccak256 (utf8 text) = word) :
    hashStruct keccak256 s =
      keccak256 (word.bytes ++ s.members.encodeData keccak256 s.value) := by
  rw [hashStruct_eq, typeHash, htext, hword]

end Hashing

/-- The domain fields an application chooses to have. -/
structure Domain where
  name : Option String := none
  version : Option String := none
  chainId : Option (BitVec 256) := none
  verifyingContract : Option (FixedBytes 20) := none
  salt : Option Word := none

/-- Put a member in front of a struct when its value is present. -/
def Struct.consSome (name : String) (type : Ty) : Option type.Val → Struct → Struct
  | none, s => s
  | some v, s => { name := s.name, members := .cons name type s.members, value := (v, s.value) }

/-- `EIP712Domain` with the fields that are present, in the standard's order. -/
def Domain.toStruct (d : Domain) : Struct :=
  .consSome "name" .string d.name <|
  .consSome "version" .string d.version <|
  .consSome "chainId" (.uint 256) d.chainId <|
  .consSome "verifyingContract" .address d.verifyingContract <|
  .consSome "salt" .bytes32 d.salt { name := "EIP712Domain", members := .nil, value := () }

section Digest
variable (keccak256 : Bytes → Word)

def domainSeparator (d : Domain) : Word := hashStruct keccak256 d.toStruct

/-- `keccak256("\x19\x01" ‖ domainSeparator ‖ hashStruct(message))`. -/
def digest (d : Domain) (message : Struct) : Word :=
  keccak256 ([0x19, 0x01] ++ (domainSeparator keccak256 d).bytes ++
    (hashStruct keccak256 message).bytes)

end Digest

end Eggplant.Lib.Eip712
