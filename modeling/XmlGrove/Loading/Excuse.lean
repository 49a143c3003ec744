import XmlGrove.Fault

/-!
# Excuses

What the loaders say of sources that are not for them.
-/

namespace XmlGrove.Loading.Excuse

def noNode : String := "The input value is not a TagNode instance."

def attachedNode : String := "Node has a parent node."

def noFile : String := "The input value is not a pathlib.Path instance."

def noStream : String := "The input value is no buffer object."

def noUrl : String := "The input value is not an URL with the http or https scheme."

def noElements : String := "The input value is neither an lxml element nor an element tree."

def noInput : String := "The input value is not a byte sequence or a string."

/-- The excuses for a source that is for the first loader only, which met a fault. -/
def allAfter (fault : Fault) : List (String × (String ⊕ Fault)) :=
  [("tag_node_loader", .inr fault), ("path_loader", .inl noFile),
    ("buffer_loader", .inl noStream), ("web_loader", .inl noUrl),
    ("lxml_loader", .inl noElements), ("text_loader", .inl noInput)]

end XmlGrove.Loading.Excuse
