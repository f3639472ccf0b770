import Catalina.Storage.Commit
import Catalina.Storage.Refinement
import Catalina.Storage.Isolation
import Catalina.Storage.Reject
import Catalina.Storage.Conservation
import Catalina.Storage.Contract
import Catalina.Storage.Acknowledge
import Catalina.Storage.Discipline
import Catalina.Storage.Drained
import Catalina.Storage.Exact
import Catalina.Storage.Reopen
import Catalina.Storage.Ownership
import Catalina.Storage.Interchange
import Catalina.Storage.Sync
import Catalina.Zlib.RoundTrip
import Catalina.Zlib.Stored
import Catalina.Zlib.Narrowing
import Catalina.Zlib.Damaged
import Catalina.Formatter.Outcome
import Catalina.Formatter.Abort
import Catalina.Formatter.Format
import Catalina.Formatter.Inside
import Catalina.Formatter.Layout
import Catalina.Formatter.Recursion
import Catalina.Formatter.Align
import Catalina.Formatter.RoundTrip
import Catalina.Formatter.Unwritable
import Catalina.Formatter.Portable
import Catalina.Formatter.WholeNumbers
import Catalina.Formatter.Scalars
import Catalina.Formatter.Unaltered
import Catalina.Formatter.Migration
import Catalina.Formatter.Effort
import Catalina.Formatter.Canonical
import Catalina.Formatter.Precision
import Catalina.Storage.StoredValues
import Catalina.Storage.Hazards
import Catalina.Storage.Delivery
import Catalina.Storage.References
import Catalina.Storage.Linearizable
