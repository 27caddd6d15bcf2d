import Eggplant.Lib.Eip712
import Eggplant.Lib.Oracle

/-!
# What a typed-data digest binds

Two messages with one digest are one message, unless two strings that were hashed on the
way collide. A digest may also be signed behind the prefix of `eth_sign`; a prefixed and a
plain digest are never the hash of one string.
-/
namespace Eggplant.Lib.Eip712

set_option autoImplicit false

open Eggplant.Lib.Words Eggplant.Lib.Text Eggplant.Lib.Oracle

/-! ## What is hashed -/

mutual

/-- Integers take a word at most. -/
def Ty.Fits : Ty → Prop
  | .uint bits => bits ≤ 256
  | .array elem => elem.Fits
  | .struct _ members => members.Fits
  | _ => True

def Members.Fits : Members → Prop
  | .nil => True
  | .cons _ type rest => type.Fits ∧ rest.Fits

end

section Hashed
variable (keccak256 : Bytes → Word)

mutual

/-- The strings hashed to encode a value. -/
def Ty.hashed : (t : Ty) → t.Val → List Bytes
  | .string, s => [utf8 s]
  | .bytes, bs => [bs]
  | .array elem, vs =>
      List.flatMap (fun v => (Ty.encode keccak256 elem v).bytes) (show List elem.Val from vs) ::
        List.flatMap (Ty.hashed elem) (show List elem.Val from vs)
  | .struct name members, v =>
      ((typeHash keccak256 name members).bytes ++ Members.encodeData keccak256 members v) ::
        utf8 (encodeType name members) :: Members.hashed members v
  | .uint _, _ => []
  | .address, _ => []
  | .bytes32, _ => []

def Members.hashed : (ms : Members) → ms.Val → List Bytes
  | .nil, _ => []
  | .cons _ type rest, v => Ty.hashed type v.1 ++ Members.hashed rest v.2

end

def Struct.hashed (s : Struct) : List Bytes := (Ty.struct s.name s.members).hashed keccak256 s.value

end Hashed

/-! ## Values -/

/-- Equal runs of words hold equal words. -/
theorem words_inj {α : Type} {f : α → Word} {vs ws : List α}
    (hf : ∀ v ∈ vs, ∀ w ∈ ws, f v = f w → v = w)
    (h : vs.flatMap (fun v => (f v).bytes) = ws.flatMap fun w => (f w).bytes) : vs = ws := by
  have hne (v : α) (rest : Bytes) : (f v).bytes ++ rest ≠ [] := by
    intro hnil
    have hlen := congrArg List.length hnil
    rw [List.length_append, (f v).length_eq, List.length_nil] at hlen
    omega
  induction vs generalizing ws with
  | nil =>
    cases ws with
    | nil => rfl
    | cons w ws => exact (hne w _ h.symm).elim
  | cons v vs ih =>
    cases ws with
    | nil => exact (hne v _ h).elim
    | cons w ws =>
      rw [List.flatMap_cons, List.flatMap_cons] at h
      obtain ⟨hhead, htail⟩ := List.append_inj h ((f v).length_eq.trans (f w).length_eq.symm)
      have htails := ih (fun a ha b hb =>
        hf a (List.mem_cons_of_mem _ ha) b (List.mem_cons_of_mem _ hb)) htail
      rw [hf v List.mem_cons_self w List.mem_cons_self (FixedBytes.eq_of_bytes hhead), htails]

section Values
variable {keccak256 : Bytes → Word}

/-- A word stands for one value of its type. -/
def Ty.Binds (keccak256 : Bytes → Word) (t : Ty) : Prop :=
  t.Fits → ∀ v w : t.Val, ¬Collision keccak256 (t.hashed keccak256 v) (t.hashed keccak256 w) →
    t.encode keccak256 v = t.encode keccak256 w → v = w

def Members.Binds (keccak256 : Bytes → Word) (ms : Members) : Prop :=
  ms.Fits → ∀ v w : ms.Val,
    ¬Collision keccak256 (ms.hashed keccak256 v) (ms.hashed keccak256 w) →
    ms.encodeData keccak256 v = ms.encodeData keccak256 w → v = w

theorem binds_uint (bits : Nat) : (Ty.uint bits).Binds keccak256 := by
  intro hfits v w _ h
  have hlt (u : BitVec bits) : u.toNat < wordSize :=
    lt_of_lt_of_le u.isLt (Nat.pow_le_pow_right (by decide) hfits)
  exact BitVec.eq_of_toNat_eq (Word.ofNat_inj (hlt v) (hlt w) h)

theorem binds_array {elem : Ty} (helem : elem.Binds keccak256) :
    (Ty.array elem).Binds keccak256 := by
  intro hfits v w hno h
  let vs : List elem.Val := v
  let ws : List elem.Val := w
  have hwords : vs.flatMap (fun v => (elem.encode keccak256 v).bytes) =
      ws.flatMap fun w => (elem.encode keccak256 w).bytes :=
    eq_of_no_collision hno List.mem_cons_self List.mem_cons_self h
  refine words_inj ?_ hwords
  intro a ha b hb
  refine helem hfits a b fun hcol => hno (hcol.mono ?_ ?_)
  · exact fun q hq => List.mem_cons_of_mem _ (List.mem_flatMap.mpr ⟨a, ha, hq⟩)
  · exact fun q hq => List.mem_cons_of_mem _ (List.mem_flatMap.mpr ⟨b, hb, hq⟩)

theorem binds_struct {name : String} {members : Members} (hmembers : members.Binds keccak256) :
    (Ty.struct name members).Binds keccak256 := by
  intro hfits v w hno h
  have hbuf := eq_of_no_collision hno List.mem_cons_self List.mem_cons_self h
  have hsub (u : members.Val) :
      members.hashed keccak256 u ⊆ (Ty.struct name members).hashed keccak256 u :=
    fun q hq => List.mem_cons_of_mem _ (List.mem_cons_of_mem _ hq)
  exact hmembers hfits v w (fun hcol => hno (hcol.mono (hsub v) (hsub w)))
    (List.append_cancel_left hbuf)

theorem binds_cons {name : String} {type : Ty} {rest : Members} (htype : type.Binds keccak256)
    (hrest : rest.Binds keccak256) : (Members.cons name type rest).Binds keccak256 := by
  intro hfits v w hno h
  obtain ⟨hhead, htail⟩ := List.append_inj h
    ((type.encode keccak256 v.1).length_eq.trans (type.encode keccak256 w.1).length_eq.symm)
  refine Prod.ext ?_ ?_
  · exact htype hfits.1 _ _ (fun hcol => hno (hcol.mono
      (List.subset_append_left _ _) (List.subset_append_left _ _))) (FixedBytes.eq_of_bytes hhead)
  · exact hrest hfits.2 _ _ (fun hcol => hno (hcol.mono
      (List.subset_append_right _ _) (List.subset_append_right _ _))) htail

/-- Without a collision a value is determined by its word, one case per type. -/
theorem Ty.binds (t : Ty) : t.Binds keccak256 :=
  @Ty.rec (Ty.Binds keccak256) (Members.Binds keccak256)
    binds_uint
    (fun _ _ _ _ h => Word.leftPad_inj h)
    (fun _ _ _ _ h => h)
    (fun _ _ _ hno h =>
      utf8_injective (eq_of_no_collision hno List.mem_cons_self List.mem_cons_self h))
    (fun _ _ _ hno h => eq_of_no_collision hno List.mem_cons_self List.mem_cons_self h)
    (fun _ => binds_array)
    (fun _ _ => binds_struct)
    (fun _ _ _ _ _ => rfl)
    (fun _ _ _ => binds_cons)
    t

end Values

/-! ## Messages -/

theorem Struct.value_inj {name : String} {members : Members} {v w : members.Val}
    (h : (⟨name, members, v⟩ : Struct) = ⟨name, members, w⟩) : v = w :=
  eq_of_heq (Struct.mk.inj h).2.2

section Messages
variable {keccak256 : Bytes → Word}

/-- One hash, one type text. -/
theorem Struct.encodeType_eq {s s' : Struct}
    (hno : ¬Collision keccak256 (s.hashed keccak256) (s'.hashed keccak256))
    (h : hashStruct keccak256 s = hashStruct keccak256 s') :
    encodeType s.name s.members = encodeType s'.name s'.members := by
  have hbuf := eq_of_no_collision hno List.mem_cons_self List.mem_cons_self h
  have htype := List.append_inj_left hbuf
    ((typeHash keccak256 s.name s.members).length_eq.trans
      (typeHash keccak256 s'.name s'.members).length_eq.symm)
  have hsnd (u : Struct) : utf8 (encodeType u.name u.members) ∈ u.hashed keccak256 :=
    List.mem_cons_of_mem _ List.mem_cons_self
  exact utf8_injective (eq_of_no_collision hno (hsnd s) (hsnd s') (FixedBytes.eq_of_bytes htype))

/-- One hash and one type, one value. -/
theorem Struct.eq_of_hash {s s' : Struct} (hname : s.name = s'.name)
    (hmembers : s.members = s'.members) (hfits : s.members.Fits)
    (hno : ¬Collision keccak256 (s.hashed keccak256) (s'.hashed keccak256))
    (h : hashStruct keccak256 s = hashStruct keccak256 s') : s = s' := by
  obtain ⟨name, members, value⟩ := s
  obtain ⟨name', members', value'⟩ := s'
  obtain rfl : name = name' := hname
  obtain rfl : members = members' := hmembers
  have hvalue : value = value' := (Ty.struct name members).binds hfits value value' hno h
  rw [hvalue]

end Messages

/-! ## Requests for a signature -/

/-- The prefix of `eth_sign` in front of a message. -/
def personalInput (message : Bytes) : Bytes :=
  utf8 ("\x19Ethereum Signed Message:\n" ++ message.length.repr) ++ message

/-- A message a key is asked to sign: its digest, or its digest behind the prefix. -/
structure Request where
  personal : Bool
  domain : Struct
  message : Struct

namespace Request

section
variable (keccak256 : Bytes → Word)

def digestInput (r : Request) : Bytes :=
  [0x19, 0x01] ++ (hashStruct keccak256 r.domain).bytes ++ (hashStruct keccak256 r.message).bytes

/-- What the key signs. -/
def hash (r : Request) : Word :=
  let digest := keccak256 (r.digestInput keccak256)
  if r.personal then keccak256 (personalInput digest.bytes) else digest

def hashed (r : Request) : List Bytes :=
  [r.digestInput keccak256, personalInput (keccak256 (r.digestInput keccak256)).bytes] ++
    (r.domain.hashed keccak256 ++ r.message.hashed keccak256)

end

theorem personalInput_ne (digest domain message : Word) :
    personalInput digest.bytes ≠ [0x19, 0x01] ++ domain.bytes ++ message.bytes := by
  intro h
  have hlen : digest.bytes.length = 32 := digest.length_eq
  rw [personalInput, hlen] at h
  have htwo := congrArg (List.take 2) h
  have hprefix : List.take 2 ([0x19, 0x01] ++ domain.bytes ++ message.bytes) = [0x19, 0x01] := rfl
  rw [List.take_append_of_le_length (by decide +kernel), hprefix] at htwo
  exact absurd htwo (by decide +kernel)

variable {keccak256 : Bytes → Word}

/-- One signed hash: both are prefixed or neither is, and the hashes of the domains and of
the messages agree. -/
theorem parts_of_hash {r r' : Request}
    (hno : ¬Collision keccak256 (r.hashed keccak256) (r'.hashed keccak256))
    (h : r.hash keccak256 = r'.hash keccak256) :
    r.personal = r'.personal ∧ hashStruct keccak256 r.domain = hashStruct keccak256 r'.domain ∧
      hashStruct keccak256 r.message = hashStruct keccak256 r'.message := by
  have hfst (u : Request) : u.digestInput keccak256 ∈ u.hashed keccak256 := List.mem_cons_self
  have hsnd (u : Request) : personalInput (keccak256 (u.digestInput keccak256)).bytes ∈
      u.hashed keccak256 := List.mem_cons_of_mem _ List.mem_cons_self
  have hinput : r.personal = r'.personal ∧ r.digestInput keccak256 = r'.digestInput keccak256 := by
    cases hp : r.personal <;> cases hp' : r'.personal <;> simp only [hash, hp, hp', if_true,
      Bool.false_eq_true, if_false] at h
    · exact ⟨rfl, eq_of_no_collision hno (hfst r) (hfst r') h⟩
    · exact (personalInput_ne _ _ _ (eq_of_no_collision hno (hfst r) (hsnd r') h).symm).elim
    · exact (personalInput_ne _ _ _ (eq_of_no_collision hno (hsnd r) (hfst r') h)).elim
    · have hinner := eq_of_no_collision hno (hsnd r) (hsnd r') h
      have hdigest := (List.append_inj' hinner ((FixedBytes.length_eq _).trans
        (FixedBytes.length_eq _).symm)).2
      exact ⟨rfl, eq_of_no_collision hno (hfst r) (hfst r') (FixedBytes.eq_of_bytes hdigest)⟩
  obtain ⟨hpersonal, hinput⟩ := hinput
  obtain ⟨hdomain, hmessage⟩ := List.append_inj' hinput
    ((FixedBytes.length_eq _).trans (FixedBytes.length_eq _).symm)
  exact ⟨hpersonal, FixedBytes.eq_of_bytes (List.append_cancel_left hdomain),
    FixedBytes.eq_of_bytes hmessage⟩

/-- The two types a request hashes. -/
def typeTexts (r : Request) : String × String :=
  (encodeType r.domain.name r.domain.members, encodeType r.message.name r.message.members)

theorem not_collision_parts {r r' : Request}
    (hno : ¬Collision keccak256 (r.hashed keccak256) (r'.hashed keccak256)) :
    ¬Collision keccak256 (r.domain.hashed keccak256) (r'.domain.hashed keccak256) ∧
      ¬Collision keccak256 (r.message.hashed keccak256) (r'.message.hashed keccak256) := by
  have hdomain (u : Request) : u.domain.hashed keccak256 ⊆ u.hashed keccak256 :=
    fun q hq => List.mem_append_right _ (List.mem_append_left _ hq)
  have hmessage (u : Request) : u.message.hashed keccak256 ⊆ u.hashed keccak256 :=
    fun q hq => List.mem_append_right _ (List.mem_append_right _ hq)
  exact ⟨fun hcol => hno (hcol.mono (hdomain r) (hdomain r')),
    fun hcol => hno (hcol.mono (hmessage r) (hmessage r'))⟩

theorem typeTexts_eq_of_hash {r r' : Request}
    (hno : ¬Collision keccak256 (r.hashed keccak256) (r'.hashed keccak256))
    (h : r.hash keccak256 = r'.hash keccak256) : r.typeTexts = r'.typeTexts := by
  obtain ⟨_, hdomain, hmessage⟩ := parts_of_hash hno h
  obtain ⟨hnodom, hnomsg⟩ := not_collision_parts hno
  exact Prod.ext (Struct.encodeType_eq hnodom hdomain) (Struct.encodeType_eq hnomsg hmessage)

/-- Requests of one pair of types. -/
structure SameTypes (r r' : Request) : Prop where
  domain_name : r.domain.name = r'.domain.name
  domain_members : r.domain.members = r'.domain.members
  message_name : r.message.name = r'.message.name
  message_members : r.message.members = r'.message.members

theorem eq_of_hash {r r' : Request} (htypes : r.SameTypes r') (hdomain : r.domain.members.Fits)
    (hmessage : r.message.members.Fits)
    (hno : ¬Collision keccak256 (r.hashed keccak256) (r'.hashed keccak256))
    (h : r.hash keccak256 = r'.hash keccak256) : r = r' := by
  obtain ⟨hpersonal, hdom, hmsg⟩ := parts_of_hash hno h
  obtain ⟨hnodom, hnomsg⟩ := not_collision_parts hno
  have hd := Struct.eq_of_hash htypes.domain_name htypes.domain_members hdomain hnodom hdom
  have hm := Struct.eq_of_hash htypes.message_name htypes.message_members hmessage hnomsg hmsg
  cases r
  cases r'
  simp only [Request.mk.injEq]
  exact ⟨hpersonal, hd, hm⟩

end Request

end Eggplant.Lib.Eip712
