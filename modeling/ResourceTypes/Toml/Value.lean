/-! # TOML values

A document is a table of values. A configuration holds no numbers, truth values or dates, so
of those only the kind is kept. -/

namespace ResourceTypes.Toml

/-- Scalars other than texts. -/
inductive Scalar where
  | boolean
  | integer
  | float
  | datetime
deriving DecidableEq, Repr

/-- A value; the entries of a table stand in the order in which they were written. -/
inductive Value where
  | text (value : String)
  | scalar (kind : Scalar)
  | array (items : List Value)
  | table (entries : List (String × Value))

end ResourceTypes.Toml
