/-!
JSON values as they are written: members keep their order and repetitions, and a number written with a
fraction or an exponent is not an integer. A string may be well formed and yet spell no text.
-/

namespace ReplicatedStore

inductive Json where
  | null
  | bool (value : Bool)
  | integer (value : Int)
  | decimal (mantissa exponent : Int)
  | string (text : String)
  | array (items : List Json)
  | object (members : List (String × Json))
  | unreadable
  deriving Repr, Inhabited

namespace Json

def isNull : Json → Bool
  | .null => true
  | _ => false

def member? (json : Json) (name : String) : Option Json :=
  match json with
  | .object members => (members.findRev? (·.1 == name)).map (·.2)
  | _ => none

def member (json : Json) (name : String) : Json :=
  (json.member? name).getD .null

def has (json : Json) (name : String) : Bool :=
  !(json.member name).isNull

end Json

end ReplicatedStore
