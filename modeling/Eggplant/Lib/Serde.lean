import Mathlib

/-!
# Derived deserializers

How a derived struct finds its fields in a JSON value. A name that occurs twice is an
error, a name that does not occur takes the field's default, and a value that occurs is
read by the field's own rule: a default is for the missing name only.
-/
namespace Eggplant.Lib.Serde

set_option autoImplicit false

/-- An integer token of 64 bits, or any other number token. -/
inductive Number where
  | posInt (n : UInt64)
  | negInt (n : Int64)
  | float (token : String)

/-- A parsed value; an object keeps its members in order, repeated names included. -/
inductive Value where
  | null
  | bool (b : Bool)
  | num (n : Number)
  | str (s : String)
  | arr (elems : List Value)
  | obj (members : List (String × Value))

abbrev Decoder (α : Type) := Value → Option α

/-! ## Values -/

def string : Decoder String
  | .str s => some s
  | _ => none

def u64 : Decoder UInt64
  | .num (.posInt n) => some n
  | _ => none

def i64 : Decoder Int64
  | .num (.posInt n) => if n.toNat < 2 ^ 63 then some (Int64.ofNat n.toNat) else none
  | .num (.negInt n) => some n
  | _ => none

/-- The integers of `i64`. -/
def Number.InI64 : Number → Prop
  | .posInt n => n.toNat < 2 ^ 63
  | .negInt _ => True
  | .float _ => False

theorem i64_isSome_iff (v : Value) : (i64 v).isSome ↔ ∃ n, v = .num n ∧ n.InI64 := by
  cases v with
  | num n => cases n <;> simp [i64, Number.InI64]
  | _ => simp [i64]

section
variable {α : Type}

/-- The name by which a value stands for a variant without contents. -/
def variantName : Decoder String
  | .str name => some name
  | .obj [(name, .null)] => some name
  | _ => none

/-- An enum whose last variant is untagged and takes any other string. -/
def orString (tagged : String → Option α) (unknown : String → α) : Decoder α := fun v =>
  match (variantName v).bind tagged with
  | some a => some a
  | none => (string v).map unknown

def option (decode : Decoder α) : Decoder (Option α)
  | .null => some none
  | v => (decode v).map some

def vec (decode : Decoder α) : Decoder (List α)
  | .arr elems => elems.mapM decode
  | _ => none

def IsText (v : Value) : Prop := ∃ s, v = .str s

/-- An object that names a variant and holds nothing. -/
def IsTag (allowed : String → Prop) (v : Value) : Prop :=
  ∃ name, v = .obj [(name, .null)] ∧ allowed name

theorem string_isSome_iff (v : Value) : (string v).isSome ↔ IsText v := by
  cases v <;> simp [string, IsText]

theorem option_isSome_iff {decode : Decoder α} {kind : Value → Prop}
    (hkind : ∀ v, (decode v).isSome ↔ kind v) (v : Value) :
    (option decode v).isSome ↔ v = .null ∨ kind v := by
  cases v <;> simp [option, hkind]

theorem mapM_isSome_iff (decode : Decoder α) (elems : List Value) :
    (elems.mapM decode).isSome ↔ ∀ v ∈ elems, (decode v).isSome := by
  induction elems with
  | nil => simp
  | cons v elems ih =>
    rw [List.mapM_cons, List.forall_mem_cons, ← ih]
    cases decode v with
    | none => simp
    | some a => cases elems.mapM decode <;> simp

theorem vec_isSome_iff {decode : Decoder α} {kind : Value → Prop}
    (hkind : ∀ v, (decode v).isSome ↔ kind v) (v : Value) :
    (vec decode v).isSome ↔ ∃ elems, v = .arr elems ∧ ∀ e ∈ elems, kind e := by
  cases v with
  | arr elems => simp [vec, mapM_isSome_iff, hkind]
  | _ => simp [vec]

theorem variantName_isSome_iff (v : Value) :
    (variantName v).isSome ↔ IsText v ∨ IsTag (fun _ => True) v := by
  unfold variantName IsText IsTag
  split <;> simp_all

theorem orString_isSome_iff (tagged : String → Option α) (unknown : String → α) (v : Value) :
    (orString tagged unknown v).isSome ↔ IsText v ∨ IsTag (fun name => (tagged name).isSome) v := by
  unfold orString IsText IsTag
  cases v with
  | str s => cases htag : tagged s <;> simp [variantName, string, htag]
  | obj members =>
    rcases members with _ | ⟨⟨name, v⟩, _ | ⟨_, _⟩⟩
    · simp [variantName, string]
    · cases v <;> cases htag : tagged name <;> simp [variantName, string, htag]
    · simp [variantName, string]
  | _ => simp [variantName, string]

/-! ## Fields -/

/-- What the input of a struct holds under a name: `none` where it holds two values,
`some none` where it holds none. -/
abbrev Fields := String → Option (Option Value)

def ofMembers (members : List (String × Value)) : Fields := fun name =>
  match members.filter (fun member => member.1 = name) with
  | [] => some none
  | [member] => some (some member.2)
  | _ => none

/-- The elements of an array stand for the fields in their order. -/
def ofElements (names : List String) (elems : List Value) : Fields := fun name =>
  some elems[names.idxOf name]?

/-- One field, with its default where it has one. -/
def field (fields : Fields) (name : String) (missing : Option α) (decode : Decoder α) : Option α :=
  match fields name with
  | none => none
  | some none => missing
  | some (some v) => decode v

/-- A derived struct, from an object or from an array of at most as many elements. -/
def struct (names : List String) (read : Fields → Option α) : Decoder α
  | .obj members => read (ofMembers members)
  | .arr elems => if elems.length ≤ names.length then read (ofElements names elems) else none
  | _ => none

/-- No two members of that name. -/
def Once (name : String) (members : List (String × Value)) : Prop :=
  (members.filter fun member => member.1 = name).length ≤ 1

instance (name : String) (members : List (String × Value)) : Decidable (Once name members) :=
  inferInstanceAs (Decidable (_ ≤ 1))

/-- A field with a default fails only on a value, or on two. -/
theorem field_isSome_iff (members : List (String × Value)) (name : String) (a : α)
    {decode : Decoder α} {kind : Value → Prop} (hkind : ∀ v, (decode v).isSome ↔ kind v) :
    (field (ofMembers members) name (some a) decode).isSome ↔
      Once name members ∧ ∀ v, (name, v) ∈ members → kind v := by
  have hmem (v : Value) : (name, v) ∈ members ↔
      (name, v) ∈ members.filter fun member => member.1 = name := by simp
  have hname : ∀ member ∈ members.filter fun member => member.1 = name, member.1 = name := by simp
  unfold field ofMembers Once
  simp only [hmem, ← hkind]
  generalize members.filter (fun member => member.1 = name) = found at hname ⊢
  rcases found with _ | ⟨⟨n, v⟩, _ | ⟨_, _⟩⟩
  · simp
  · obtain rfl : n = name := hname _ (List.mem_singleton_self _)
    simp
  · simp

/-- A field that occurs once is read from where it occurs. -/
theorem field_of_mem {members : List (String × Value)} {name : String} {v : Value}
    (honce : Once name members) (hmem : (name, v) ∈ members) (missing : Option α)
    (decode : Decoder α) : field (ofMembers members) name missing decode = decode v := by
  have hfound : (name, v) ∈ members.filter fun member => member.1 = name := by simpa using hmem
  unfold field ofMembers
  unfold Once at honce
  generalize members.filter (fun member => member.1 = name) = found at hfound honce ⊢
  rcases found with _ | ⟨member, _ | ⟨_, _⟩⟩
  · exact absurd hfound List.not_mem_nil
  · obtain rfl := List.mem_singleton.mp hfound
    rfl
  · simp at honce

/-- What a required field reads stands in the object, and once. -/
theorem once_of_field {members : List (String × Value)} {name : String} {missing : Option α}
    {decode : Decoder α} (h : (field (ofMembers members) name missing decode).isSome) :
    Once name members := by
  unfold field ofMembers at h
  unfold Once
  generalize members.filter (fun member => member.1 = name) = found at h ⊢
  rcases found with _ | ⟨_, _ | ⟨_, _⟩⟩
  · exact Nat.zero_le _
  · exact Nat.le_refl _
  · simp at h

end

end Eggplant.Lib.Serde
