/-!
# Structured data

What can be written in a data format: scalars, lists, and mappings whose keys have an order.
Mappings are written as they are, with whatever keys they have.
-/

namespace Configurable

inductive Data where
  | boolean (b : Bool)
  | integer (n : Int)
  | float (x : Float)
  | string (s : String)
  | list (items : List Data)
  | mapping (entries : List (String × Data))

end Configurable
