import KindQuery.Builder.Query
import KindQuery.Codec.Project
import KindQuery.Config
import KindQuery.Error.Outline
import KindQuery.Index.File
import KindQuery.Model.Sample
import KindQuery.Query.Bind
import KindQuery.Session
import KindQuery.Session.Advisor
import KindQuery.Proofs.Query.Run
import KindQuery.Proofs.Query.Meaning
import KindQuery.Proofs.Query.Parameters
import KindQuery.Proofs.Query.Rendered
import KindQuery.Proofs.Query.Supported
import KindQuery.Proofs.Query.Grammar
import KindQuery.Proofs.Query.Collected
import KindQuery.Proofs.Query.Reordered
import KindQuery.Proofs.Query.Spelled
import KindQuery.Proofs.Query.Collapsed
import KindQuery.Proofs.Query.Masked
import KindQuery.Proofs.Query.Conjoined
import KindQuery.Proofs.Query.Inlined
import KindQuery.Proofs.Query.Evaluated
import KindQuery.Proofs.Query.Matched
import KindQuery.Proofs.Query.KeyCompared
import KindQuery.Proofs.Query.Shown
import KindQuery.Proofs.Query.Described
import KindQuery.Proofs.Query.Selected
import KindQuery.Proofs.Query.Built
import KindQuery.Proofs.Query.Canonical
import KindQuery.Proofs.Codec.RoundTrip
import KindQuery.Proofs.Codec.Dividers
import KindQuery.Proofs.Codec.Decoded
import KindQuery.Proofs.Codec.Shuffled
import KindQuery.Proofs.Codec.Padded
import KindQuery.Proofs.Codec.Unpersisted
import KindQuery.Proofs.Codec.Projected
import KindQuery.Proofs.Codec.Columns
import KindQuery.Proofs.Codec.Assigned
import KindQuery.Proofs.Codec.KeyApart
import KindQuery.Proofs.Codec.Data
import KindQuery.Proofs.Codec.Indexed
import KindQuery.Proofs.Codec.Rewritten
import KindQuery.Proofs.Session.Calls
import KindQuery.Proofs.Session.RowWise
import KindQuery.Proofs.Session.Loaded
import KindQuery.Proofs.Index.Written
import KindQuery.Proofs.Index.Needed
import KindQuery.Proofs.Index.Composite
import KindQuery.Proofs.Index.Known
import KindQuery.Proofs.Index.Layout
