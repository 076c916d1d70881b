-- JSON values. The fields of an object keep their order, and numbers are
-- decimal fractions.
namespace Assay

/-- A JSON value. A number is its mantissa divided by ten to the number of places. -/
inductive Json where
  | null
  | bool (b : Bool)
  | number (mantissa : Int) (places : Nat)
  | string (s : String)
  | array (items : List Json)
  | object (fields : List (String × Json))

namespace Json

def ofInt (n : Int) : Json := number n 0

def ofNat (n : Nat) : Json := number n 0

/-- The value of a field, if the value is an object that has the field. -/
def field? (name : String) : Json → Option Json
  | object fields => (fields.find? (fun field => field.1 = name)).map Prod.snd
  | _ => none

end Json

end Assay
