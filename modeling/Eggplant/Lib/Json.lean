import Eggplant.Lib.Text

/-!
# JSON values

The values a serializer hands to a JSON writer, without arrays and nulls. A reader
asks for the member of an object by name and for a value of the kind it expects.
-/
namespace Eggplant.Lib

set_option autoImplicit false

inductive Json where
  | num (n : Nat)
  | str (s : String)
  | bool (b : Bool)
  | obj (members : List (String × Json))

namespace Json

def member (key : String) : Json → Option Json
  | obj members => members.lookup key
  | _ => none

def asNum : Json → Option Nat
  | num n => some n
  | _ => none

def asStr : Json → Option String
  | str s => some s
  | _ => none

def asBool : Json → Option Bool
  | bool b => some b
  | _ => none

end Json

end Eggplant.Lib
