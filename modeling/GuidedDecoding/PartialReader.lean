import GuidedDecoding.Json.Repair
import GuidedDecoding.Json.Reader

/-!
# Values from text that is being generated

A partial reader collects the chunks of a generation and tells after each of them which value the
document has so far: that of the repaired text, if it can be read as the type asked for.
-/

namespace GuidedDecoding

open Json (Reader Repair)

/-- The text so far, and the scanner behind it. -/
structure PartialReader where
  text : String := ""
  scan : Repair := {}
  deriving Inhabited

namespace PartialReader

def current? (reader : Reader α) (p : PartialReader) : Option α :=
  p.scan.repaired.bind fun r => (Json.read reader r.text).toOption

/-- Takes in a chunk: the reader behind it, and the value that the document has then. An empty chunk
brings no value. -/
def push (reader : Reader α) (p : PartialReader) (chunk : String) : PartialReader × Option α :=
  if chunk.isEmpty then (p, none)
  else
    let p : PartialReader := ⟨p.text ++ chunk, chunk.toList.foldl Repair.feed p.scan⟩
    (p, p.current? reader)

/-- The values along a stream of chunks. What fails in the stream stays where it is, and a chunk that
brings no value leaves nothing. -/
def project (reader : Reader α) (p : PartialReader) :
    List (Except ε String) → List (Except ε α)
  | [] => []
  | .error e :: rest => .error e :: p.project reader rest
  | .ok chunk :: rest =>
    match p.push reader chunk with
    | (p, some a) => .ok a :: p.project reader rest
    | (p, none) => p.project reader rest

end PartialReader

end GuidedDecoding
