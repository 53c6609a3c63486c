/-!
# TOML values

A value of a TOML text. Tables keep their entries in the order in which they are completed; a double
is kept by its bits and a date or a time by its canonical text.
-/

set_option autoImplicit false

namespace SitePublish.Toml

inductive Value where
  | string (s : String)
  | integer (n : Int)
  | float (bits : UInt64)
  | boolean (b : Bool)
  | datetime (text : String)
  | array (items : List Value)
  | table (entries : List (String × Value))

end SitePublish.Toml
