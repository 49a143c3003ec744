/-!
# Parser options
-/

namespace XmlGrove

structure ParserOptions where
  encoding : Option String := none
  /-- What is expected as encoding is no name of one; no bytes can be decoded then. -/
  unfitEncoding : Bool := false
  preserveWhitespace : Bool := false
  removeComments : Bool := false
  removeInstructions : Bool := false
  deriving Repr, DecidableEq

end XmlGrove
