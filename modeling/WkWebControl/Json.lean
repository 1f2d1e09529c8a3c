import Mathlib.Data.Rat.Defs

namespace WebControl

/-- A double as a JSON reader produces it; a finite one is the rational it denotes. -/
inductive Double where
  | finite (value : Rat)
  | infinity (negative : Bool)
  | nan

/-- A parsed JSON text. Readers keep one field per key of an object. -/
inductive Json where
  | null
  | bool (value : Bool)
  | int (value : Int)
  | float (value : Double)
  | str (text : String)
  /-- A string with a surrogate that lacks its partner: a reader takes it, no UTF-8 text holds it. -/
  | unpaired
  | arr (items : List Json)
  | obj (fields : List (String × Json))

namespace Json

def field? (fields : List (String × Json)) (key : String) : Option Json := fields.lookup key

/-- The integer part of a number, the sign kept: what both languages truncate to. -/
def truncate (value : Rat) : Int := value.num.tdiv value.den

end Json

end WebControl
