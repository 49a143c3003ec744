import XmlGrove.Encoding.Detection
import XmlGrove.Parse.Document

/-!
# Input of documents

A document is given as text or as bytes, which are decoded first.
-/

namespace XmlGrove

inductive Input where
  | text (content : String)
  | bytes (data : Encoding.Bytes)
  deriving Repr, DecidableEq

namespace Input

/-- What a stream yields that hands out its data in chunks: an empty chunk is its
end. -/
def ofChunks (chunks : List Encoding.Bytes) : Input :=
  .bytes (chunks.takeWhile (!·.isEmpty)).flatten

def decode (options : ParserOptions) : Input → Except Fault (List Char)
  | text content => .ok content.toList
  | bytes data =>
    if options.unfitEncoding then .error .unfitValue
    else Encoding.decodeDocument options.encoding data

def parse (options : ParserOptions) (input : Input) :
    Except Fault (ParsedDocument × Option String) := do
  let characters ← input.decode options
  let document ← (Parse.document options characters).mapError .parsing
  match input with
  | text _ => return (document, document.warning?)
  | bytes _ => return (document, none)

end Input

end XmlGrove
