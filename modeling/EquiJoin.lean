import EquiJoin.Config.Source
import EquiJoin.Fixture
import EquiJoin.Observed
import EquiJoin.Registry
import EquiJoin.Relation.Builder
import EquiJoin.Relation.Handoff
import EquiJoin.Relation.Payload
import EquiJoin.Proofs.Table.Codec
import EquiJoin.Proofs.Table.Image
import EquiJoin.Proofs.Table.Growth
import EquiJoin.Proofs.Table.Invariant
import EquiJoin.Proofs.Table.Multimap
import EquiJoin.Proofs.Table.Reachable
import EquiJoin.Proofs.Table.Batch
import EquiJoin.Proofs.Table.Attach
import EquiJoin.Proofs.Table.Foreign
import EquiJoin.Proofs.Table.RoundTrip
import EquiJoin.Proofs.Table.Validation
import EquiJoin.Proofs.Table.Representation
import EquiJoin.Proofs.Table.Canonical
import EquiJoin.Proofs.Table.Load
import EquiJoin.Proofs.Table.Membership
import EquiJoin.Proofs.Table.Rehash
import EquiJoin.Proofs.Table.Sizing
import EquiJoin.Proofs.Table.Admission
import EquiJoin.Proofs.Hash.Scalar
import EquiJoin.Proofs.Key.Float
import EquiJoin.Proofs.Key.Value
import EquiJoin.Proofs.Key.Numeric
import EquiJoin.Proofs.Row.Encoding
import EquiJoin.Proofs.Row.Decoding
import EquiJoin.Proofs.Row.Reuse
import EquiJoin.Proofs.Row.Encoder
import EquiJoin.Proofs.Row.Width
import EquiJoin.Proofs.Relation.Recording
import EquiJoin.Proofs.Relation.Calls
import EquiJoin.Proofs.Relation.Atomic
import EquiJoin.Proofs.Relation.Places
import EquiJoin.Proofs.Relation.Rows
import EquiJoin.Proofs.Relation.History
import EquiJoin.Proofs.Relation.Answers
import EquiJoin.Proofs.Relation.Join
import EquiJoin.Proofs.Relation.Content
import EquiJoin.Proofs.Relation.Materialize
import EquiJoin.Proofs.Relation.Handover
import EquiJoin.Proofs.Relation.Numbering
import EquiJoin.Proofs.Relation.NullFlag
import EquiJoin.Proofs.Relation.Configuration
import EquiJoin.Proofs.Relation.Builder
import EquiJoin.Proofs.Relation.HashChoice
import EquiJoin.Proofs.Relation.RowPaths
import EquiJoin.Proofs.Relation.OwnHashes
import EquiJoin.Proofs.Relation.KeyWidth
