import TypedHeaders.Binding.Event
import TypedHeaders.Field.Extraction
import TypedHeaders.Text.AsciiCase

/-!
# Value sources

A delegate never reads headers itself. It asks a value source for the values under a key. Any source
may stand in a context, and a source is no more than what it answers to each key (`ValueSource`). The
one that a header binder sets up (`ValueSource.header`) answers every key with the tokens of its one
header. A header that is there but has no tokens still counts as a source of values, which lets a
delegate bind an empty collection.
-/

set_option autoImplicit false

namespace TypedHeaders

open TypedHeaders.Header TypedHeaders.Text

/-- What a look-up found. -/
structure Answer where
  values : List String := []
  deriving DecidableEq, Repr

namespace Answer

/-- Nothing was found. -/
def isNone (a : Answer) : Bool := a.values.isEmpty

/-- The first value. -/
def first? (a : Answer) : Option String := a.values.head?

/-- The values joined by commas. -/
def joined (a : Answer) : String := ",".intercalate a.values

end Answer

/-- The tokens that were taken from a header, with its name. -/
structure HeaderTokens where
  name : String
  extraction : Extraction
  deriving DecidableEq, Repr

/-- A source of values. Its answers may depend on the key in any way. -/
structure ValueSource where
  /-- Whether the source has values for keys under the given one. -/
  covers : String → Bool
  /-- The values for a key. -/
  lookup : String → Answer
  /-- What looking up a key reports. -/
  notices : String → List Event
  /-- The header that the source was made of, if it was made of one. -/
  header? : Option HeaderTokens

namespace ValueSource

/-- The source that has no values. -/
def empty : ValueSource where
  covers _ := false
  lookup _ := {}
  notices _ := []
  header? := none

/-- The source of the tokens that were taken from a header. It answers all keys alike, and reports
the redirection if the key is not the name of the header. -/
def header (name : String) (x : Extraction) : ValueSource where
  covers _ := x.present
  lookup _ := ⟨x.tokens⟩
  notices key := if sameName key name then [] else [.redirected name key]
  header? := some ⟨name, x⟩

/-- The source of the tokens that a store holds for a header. -/
def ofHeader (headers : HeaderStore) (name : String) (shape : Shape) : ValueSource :=
  .header name (extract headers name shape)

/-- The name of the header behind the source. -/
def headerName? (s : ValueSource) : Option String := s.header?.map HeaderTokens.name

/-- How the header behind the source was read. -/
def reading? (s : ValueSource) : Option Reading := s.header?.map fun t => t.extraction.reading

/-- Whether the header behind the source has any token. -/
def hasValue (s : ValueSource) : Bool := s.header?.any fun t => !t.extraction.tokens.isEmpty

end ValueSource

/-- A value source as it is asked for: none, a header read for a shape, or any source at hand. -/
inductive SourceRequest where
  | empty
  | header (name : String) (shape : Shape)
  | given (source : ValueSource)

/-- The source that is asked for, over the headers of a request. -/
def SourceRequest.resolve (headers : HeaderStore) : SourceRequest → ValueSource
  | .empty => .empty
  | .header name shape => .ofHeader headers name shape
  | .given source => source

end TypedHeaders
