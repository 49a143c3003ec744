/-!
# Identity

Nodes and documents have an identity: they are referred to by what they are, not
by what they hold.
-/

namespace XmlGrove

structure NodeId where
  index : Nat
  deriving Repr, DecidableEq

structure DocumentId where
  index : Nat
  deriving Repr, DecidableEq

end XmlGrove
