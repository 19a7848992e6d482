/-
This file models the shared error type of `bagel-core`, restricted to the
variants the runtime raises. An input or output error is kept as its message.
-/

namespace Bagel

inductive Error where
  | config (message : String)
  | io (message : String)
  | network (message : String)
  deriving DecidableEq

/-- The text of an error, as it is kept with a lease. -/
def Error.text : Error → String
  | config message => "config error: " ++ message
  | io message => message
  | network message => "invalid network: " ++ message

end Bagel
