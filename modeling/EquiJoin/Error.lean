/-
Everything that a relation, its rows, its columns and its registries can refuse. An error is a cause; its kind says
how a caller should take it, and its message is worded here and nowhere else. Only contract violations are fatal: they
say that the caller misused the interface, and retrying cannot help.
-/
import EquiJoin.Config
import EquiJoin.Key.Type
import EquiJoin.Location
import EquiJoin.Table.Error
import EquiJoin.Text.Quoted

namespace EquiJoin

/-- how a caller should take an error -/
inductive ErrorKind where
  | capacity
  | invalidState
  | contractViolation
  | unsupportedType
  | invalidArgument
  | config
  /-- an operation on whole arrays failed -/
  | array
  | internal
  deriving DecidableEq, Repr

namespace ErrorKind

def name : ErrorKind → String
  | capacity => "Capacity"
  | invalidState => "InvalidState"
  | contractViolation => "ContractViolation"
  | unsupportedType => "UnsupportedType"
  | invalidArgument => "InvalidArgument"
  | config => "Config"
  | array => "Arrow"
  | internal => "Internal"

/-- what a message of this kind begins with -/
def label : ErrorKind → String
  | capacity => "Capacity error: "
  | invalidState => "Invalid state: "
  | contractViolation => "Contract violation: "
  | unsupportedType => "Unsupported type: "
  | invalidArgument => "Invalid argument: "
  | config => "Configuration error: "
  | array => "Arrow error: "
  | internal => "Internal error: "

def all : List ErrorKind :=
  [capacity, invalidState, contractViolation, unsupportedType, invalidArgument, config, array, internal]

def ofName? (n : String) : Option ErrorKind := all.find? fun k => k.name == n

end ErrorKind

namespace TableError

/-- the kind of error that a table's refusal becomes -/
def kind : TableError → ErrorKind
  | capacity .. | capacityOverflow .. | entryTooLarge .. => .capacity
  | keySizeMismatch .. => .invalidArgument
  | invalidHandles .. | layoutMismatch .. => .invalidState
  | invalidConfig .. => .config

/-- the refusal as a value, fields and all -/
def shown : TableError → String
  | capacity n b => Text.record "Capacity" [("requested", toString n), ("max_bytes", toString b)]
  | capacityOverflow c => Text.record "CapacityOverflow" [("capacity", toString c)]
  | entryTooLarge n => Text.wrapped "EntryTooLarge" (toString n)
  | keySizeMismatch e a => Text.record "KeySizeMismatch" [("expected", toString e), ("actual", toString a)]
  | invalidHandles why => Text.wrapped "InvalidHandles" (Text.quoted why.detail)
  | layoutMismatch why => Text.wrapped "LayoutMismatch" (Text.quoted why.detail)
  | invalidConfig report => Text.wrapped "InvalidConfig" (Text.quoted report)

end TableError

/-- why a call is refused -/
inductive Error where
  | table (e : TableError)
  | config (f : ConfigFault)
  /- key types -/
  | notAKey (t : DataType)
  | notAComponent (t : DataType)
  | emptyComposite
  /- columns and rows -/
  | noColumn (t : DataType)
  | wrongChunk (actual : DataType) (expected : ColumnType)
  | noChunks (t : ColumnType)
  | fieldTooLong (bytes : Nat)
  | rowFull (fields : Nat)
  | columnLengths (rows expected : Nat)
  | encoderFields (fields columns : Nat)
  | encoderRow (row rows : Nat)
  /- building -/
  | compositeRelation
  | singleRelation
  | keyChunkType (actual expected : DataType)
  | keyChunkColumns (actual expected : List DataType)
  | hashCount (hashes rows : Nat)
  | importedTable
  | builtWithoutTable
  /- probing -/
  | probedWithoutTable
  | probeDomain (domain : KeyDomain) (key : KeyType)
  /- payload columns -/
  | payloadColumn (index columns : Nat)
  | payloadLocation (l : Location) (index : Nat)
  | payloadFields (fields columns : Nat)
  | rowLocation (l : Location)
  /- handing over -/
  | nothingToExport
  | foreignTag (tag : UInt64) (key : KeyType) (expected : UInt64)
  | foreignKeySize (actual expected : Option Nat)
  /- registries -/
  | noRelation (t : DataType)
  | noComponentColumn (t : DataType)
  /-- a refusal that a caller words itself -/
  | stated (kind : ErrorKind) (text : String)
  deriving DecidableEq, Repr

namespace Error

def kind : Error → ErrorKind
  | table e => e.kind
  | config _ => .config
  | notAKey _ | notAComponent _ | noColumn _ | noRelation _ | noComponentColumn _ => .unsupportedType
  | emptyComposite | wrongChunk .. | fieldTooLong _ | rowFull _ | columnLengths .. | encoderFields .. | encoderRow ..
  | keyChunkType .. | keyChunkColumns .. | hashCount .. | payloadColumn .. | payloadLocation .. | payloadFields ..
  | rowLocation _ => .invalidArgument
  | noChunks _ | nothingToExport => .invalidState
  | compositeRelation | singleRelation | importedTable | builtWithoutTable | probedWithoutTable | probeDomain ..
  | foreignTag .. | foreignKeySize .. => .contractViolation
  | stated k _ => k

/-- `Some(n)` or `None` -/
def shownSize (n : Option Nat) : String := Text.optional (n.map toString)

/-- the message without its label -/
def detail : Error → String
  | table e => e.message
  | config f => f.detail
  | notAKey t => t.name ++ " cannot be a join key"
  | notAComponent t => t.name ++ " cannot be part of a composite join key"
  | emptyComposite => "composite key needs at least one column"
  | noColumn t => "no hash relation column for " ++ t.name
  | wrongChunk a e => s!"cannot append a {a.name} chunk to a {e.name} column"
  | noChunks t => t.name ++ " column has no chunks yet"
  | fieldTooLong n => s!"row field of {n} bytes is too long"
  | rowFull n => s!"row already holds all {n} fields"
  | columnLengths n m => s!"row columns differ in length: {n} vs {m}"
  | encoderFields n m => s!"row has {n} fields but the encoder has {m} columns"
  | encoderRow n m => s!"row {n} out of range for {m} rows"
  | compositeRelation => "composite-key relation needs append_key_columns"
  | singleRelation => "single-key relation needs append_key_column"
  | keyChunkType a e => s!"key chunk is {a.name} but the relation is keyed by {e.name}"
  | keyChunkColumns a e =>
    "key chunk columns " ++ KeyType.shownTypes a ++ " do not match the relation key " ++ KeyType.shownTypes e
  | hashCount n m => s!"{n} hashes for {m} key rows"
  | importedTable => "cannot modify an imported hash table"
  | builtWithoutTable => "hash relation built before its hash table was created"
  | probedWithoutTable => "hash relation probed before its hash table was created"
  | probeDomain d k => s!"{d.name} probe key for a relation keyed by {k.shown}"
  | payloadColumn i n => s!"payload column {i} out of range for {n} columns"
  | payloadLocation l i => s!"row location {l.text} out of range for payload column {i}"
  | payloadFields n m => s!"row has {n} fields but the relation has {m} payload columns"
  | rowLocation l => s!"row location {l.text} out of range"
  | nothingToExport => "cannot export handles: hash relation has no hash table"
  | foreignTag tag k e =>
    s!"imported arena key tag 0x{Text.hex tag.toNat} does not match {k.shown} (tag 0x{Text.hex e.toNat})"
  | foreignKeySize a e => s!"imported arena key size {shownSize a} does not match the relation's {shownSize e}"
  | noRelation t => s!"no hash relation for {t.name} keys"
  | noComponentColumn t => "no hash relation column for composite key component " ++ t.name
  | stated _ text => text

def message (e : Error) : String := e.kind.label ++ e.detail

/-- the error as a value: its kind around its quoted detail -/
def shown (e : Error) : String := Text.wrapped e.kind.name (Text.quoted e.detail)

def isFatal (e : Error) : Bool := e.kind = .contractViolation

end Error

end EquiJoin
