import Eggplant.Lib.Serde

/-!
# Enums tagged inside their object

The tag of an internally tagged enum stands among the fields of its variant. It may stand
anywhere in an object; in an array it comes first. A string that is borrowed from the text
must stand there without escapes.
-/
namespace Eggplant.Lib.Serde

set_option autoImplicit false

variable {α β : Type}

/-- A string borrowed from the text; `plain` tells which strings it spells without escapes. -/
def borrowed (plain : String → Bool) : Decoder String
  | .str s => if plain s then some s else none
  | _ => none

/-- The variant is read from what is left without the tag. -/
def tagged (tag : String) (variant : String → Decoder α) : Decoder α
  | .obj members =>
    match members.filter (fun member => member.1 = tag) with
    | [(_, .str name)] => variant name (.obj (members.filter fun member => member.1 ≠ tag))
    | _ => none
  | .arr (.str name :: rest) => variant name (.arr rest)
  | _ => none

/-- A variant without contents ignores the members of an object; an array must be used up. -/
def unit : Decoder Unit
  | .obj _ => some ()
  | .arr [] => some ()
  | _ => none

/-- A field with a second name, which counts as the same field. -/
def renamed (name second : String) (members : List (String × Value)) : List (String × Value) :=
  members.map fun member => if member.1 = second then (name, member.2) else member

/-! ## Members -/

/-- An object holds a value under a name, and no other value. -/
def Holds (members : List (String × Value)) (name : String) (v : Value) : Prop :=
  members.filter (fun member => member.1 = name) = [(name, v)]

def Lacks (members : List (String × Value)) (name : String) : Prop :=
  members.filter (fun member => member.1 = name) = []

instance (members : List (String × Value)) (name : String) : Decidable (Lacks members name) :=
  decidable_of_iff (∀ member ∈ members, member.1 ≠ name) (by simp [Lacks, List.filter_eq_nil_iff])

variable {members : List (String × Value)} {name tag : String} {v : Value}

theorem Holds.field (h : Holds members name v) (missing : Option α) (decode : Decoder α) :
    field (ofMembers members) name missing decode = decode v := by
  have hfields : ofMembers members name = some (some v) := by
    rw [ofMembers, h]
  rw [Serde.field, hfields]

theorem Lacks.field (h : Lacks members name) (missing : Option α) (decode : Decoder α) :
    Serde.field (ofMembers members) name missing decode = missing := by
  have hfields : ofMembers members name = some none := by
    rw [ofMembers, h]
  rw [Serde.field, hfields]

/-- Members of other names do not matter to a name. -/
theorem filter_without (hne : name ≠ tag) :
    (members.filter fun member => member.1 ≠ tag).filter (fun member => member.1 = name) =
      members.filter fun member => member.1 = name := by
  rw [List.filter_filter]
  congr 1
  funext member
  by_cases hname : member.1 = name
  · simp [hname, hne]
  · simp [hname]

theorem Holds.without (h : Holds members name v) (hne : name ≠ tag) :
    Holds (members.filter fun member => member.1 ≠ tag) name v :=
  (filter_without hne).trans h

theorem Lacks.without (h : Lacks members name) (hne : name ≠ tag) :
    Lacks (members.filter fun member => member.1 ≠ tag) name :=
  (filter_without hne).trans h

/-- An object with one tag is read as the variant of that tag. -/
theorem tagged_of_holds {kind : String} (h : Holds members tag (.str kind))
    (variant : String → Decoder α) :
    tagged tag variant (.obj members) =
      variant kind (.obj (members.filter fun member => member.1 ≠ tag)) := by
  rw [tagged, h]

end Eggplant.Lib.Serde
