import ResourceUrl.Draft.Basic
import ResourceUrl.Filter.Cursor
import ResourceUrl.Proofs.Balance
import ResourceUrl.Proofs.Bounds
import ResourceUrl.Proofs.Composition
import ResourceUrl.Proofs.Cursors
import ResourceUrl.Proofs.Depth
import ResourceUrl.Proofs.Descent
import ResourceUrl.Proofs.Faults
import ResourceUrl.Proofs.Orders
import ResourceUrl.Proofs.Readings
import ResourceUrl.Proofs.Runs
import ResourceUrl.Proofs.Scanning
import ResourceUrl.Proofs.Spacing
import ResourceUrl.Proofs.Urls
import ResourceUrl.Query.Attempt
import ResourceUrl.Query.Event
import ResourceUrl.Query.RoundTrip
import ResourceUrl.Vocabulary
