import TypedHeaders.Header.Table
import TypedHeaders.Text.AsciiCase
import TypedHeaders.Text.Utf8
import TypedHeaders.TokenList.Scan

/-!
# Header stores

A request comes with header lines, each a name and a value, and a name may have several lines. Three
stores hold them. `OwnedHeaders` keeps any texts as they are. `HeaderTable` checks each line and keeps
the values as octets, which are read back by lossy decoding. A `Request` carries such a table.

`HeaderStore` is any of the three and answers the same questions: whether a name has a line, what
the values of its lines are, what they are when joined by commas, and which tokens the joined value
holds. Names are compared without regard to ASCII case.
-/

set_option autoImplicit false

namespace TypedHeaders.Header

open TypedHeaders.Text

/-- The value of a line as it is handed to a store. -/
inductive LineValue where
  | text (s : String)
  | octets (bs : List UInt8)
  deriving DecidableEq, Repr

namespace LineValue

/-- The value as octets. -/
def toOctets : LineValue → List UInt8
  | .text s => Utf8.encode s
  | .octets bs => bs

/-- The value as a text. -/
def toText : LineValue → String
  | .text s => s
  | .octets bs => Utf8.decode bs

end LineValue

/-! ## Lines as they are -/

/-- Header lines of any texts, in the order in which they were added. -/
structure OwnedHeaders where
  lines : List (String × String) := []
  deriving DecidableEq, Repr

namespace OwnedHeaders

/-- Add a line at the end. -/
def add (h : OwnedHeaders) (name value : String) : OwnedHeaders := ⟨h.lines ++ [(name, value)]⟩

/-- The number of lines. -/
def size (h : OwnedHeaders) : Nat := h.lines.length

/-- Whether there is no line. -/
def isEmpty (h : OwnedHeaders) : Bool := h.lines.isEmpty

/-- Whether a line has the name. -/
def contains (h : OwnedHeaders) (name : String) : Bool := h.lines.any fun l => sameName l.1 name

/-- The values of the lines that have the name, in order. -/
def getAll (h : OwnedHeaders) (name : String) : List String :=
  (h.lines.filter fun l => sameName l.1 name).map Prod.snd

end OwnedHeaders

/-! ## Checked lines -/

namespace HeaderTable

/-- The texts of the values of the lines that have the name, in order. -/
def getAll (h : HeaderTable) (name : String) : List String :=
  (h.getOctets name).map Utf8.decode

end HeaderTable

/-- A request, of which only the header lines matter. -/
structure Request where
  headers : HeaderTable := {}
  deriving DecidableEq, Repr

/-! ## Any store -/

/-- The kinds of header store. -/
inductive StoreKind where
  | owned
  | table
  | request
  deriving DecidableEq, Repr

/-- A header store of one of the three kinds. -/
inductive HeaderStore where
  | owned (h : OwnedHeaders)
  | table (h : HeaderTable)
  | request (r : Request)
  deriving DecidableEq, Repr

/-- A line's name and value. -/
abbrev Line := String × LineValue

namespace HeaderStore

/-- The store of a kind that holds no line. -/
def empty : StoreKind → HeaderStore
  | .owned => .owned {}
  | .table => .table {}
  | .request => .request {}

/-- Add a line at the end. -/
def add (h : HeaderStore) (line : Line) : Except LineError HeaderStore :=
  match h with
  | .owned o => .ok (.owned (o.add line.1 line.2.toText))
  | .table t => (t.add line.1 line.2.toOctets).map .table
  | .request r => (r.headers.add line.1 line.2.toOctets).map fun t => .request ⟨t⟩

/-- Add lines one after another, until one is refused. -/
def addAll (h : HeaderStore) (lines : List Line) : Except LineError HeaderStore :=
  lines.foldlM add h

/-- The store of a kind that holds the lines. -/
def ofLines (kind : StoreKind) (lines : List Line) : Except LineError HeaderStore :=
  (empty kind).addAll lines

/-- Whether a line has the name. -/
def contains : HeaderStore → String → Bool
  | .owned o, name => o.contains name
  | .table t, name => t.contains name
  | .request r, name => r.headers.contains name

/-- The values of the lines that have the name, in order. -/
def getAll : HeaderStore → String → List String
  | .owned o, name => o.getAll name
  | .table t, name => t.getAll name
  | .request r, name => r.headers.getAll name

/-- The values of the lines that have the name, joined by commas, if there is such a line. -/
def getJoined (h : HeaderStore) (name : String) : Option String :=
  if (h.getAll name).isEmpty then none else some (",".intercalate (h.getAll name))

/-- The tokens of the joined value; none if no line has the name. -/
def getCommaSeparated (h : HeaderStore) (name : String) : List String :=
  match h.getJoined name with
  | none => []
  | some joined => TokenList.split joined

end HeaderStore

/-! ## How adding a line changes the answers -/

theorem OwnedHeaders.getAll_add (h : OwnedHeaders) (name value key : String) :
    (h.add name value).getAll key
      = h.getAll key ++ if sameName name key then [value] else [] := by
  simp only [OwnedHeaders.add, OwnedHeaders.getAll, List.filter_append, List.map_append]
  by_cases hkey : sameName name key
  · simp [hkey]
  · simp [hkey]

theorem OwnedHeaders.contains_add (h : OwnedHeaders) (name value key : String) :
    (h.add name value).contains key = (h.contains key || sameName name key) := by
  simp [OwnedHeaders.add, OwnedHeaders.contains]

/-- A name has a line in the owned store exactly if its lines have values. -/
theorem OwnedHeaders.contains_eq_not_isEmpty (h : OwnedHeaders) (name : String) :
    h.contains name = !(h.getAll name).isEmpty := by
  rw [Bool.eq_iff_iff]
  simp [OwnedHeaders.contains, OwnedHeaders.getAll]

/-- A name has a line in the table exactly if its lines have values. -/
theorem HeaderTable.contains_eq_not_isEmpty (h : HeaderTable) (name : String) :
    h.contains name = !(h.getAll name).isEmpty := by
  rw [isLineTable.contains_eq, getAll, List.isEmpty_map]

/-- A name has a line exactly if its lines have values. -/
theorem HeaderStore.contains_eq_not_isEmpty (h : HeaderStore) (name : String) :
    h.contains name = !(h.getAll name).isEmpty := by
  cases h with
  | owned o => exact o.contains_eq_not_isEmpty name
  | table t => exact t.contains_eq_not_isEmpty name
  | request r => exact r.headers.contains_eq_not_isEmpty name

/-- A name has a joined value exactly if it has a line. -/
theorem HeaderStore.isSome_getJoined (h : HeaderStore) (name : String) :
    (h.getJoined name).isSome = h.contains name := by
  rw [h.contains_eq_not_isEmpty name, HeaderStore.getJoined]
  cases (h.getAll name).isEmpty with
  | false => rfl
  | true => rfl

/-- A name that has a line has the values of its lines joined. -/
theorem HeaderStore.getJoined_of_contains {h : HeaderStore} {name : String}
    (hcontains : h.contains name = true) :
    h.getJoined name = some (",".intercalate (h.getAll name)) := by
  rw [h.contains_eq_not_isEmpty, Bool.not_eq_true'] at hcontains
  rw [HeaderStore.getJoined, hcontains]
  rfl

end TypedHeaders.Header
