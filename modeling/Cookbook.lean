import Cookbook.Compiled.Json
import Cookbook.Definition.Packaged
import Cookbook.Http.Route
import Cookbook.Predicate.Expression
import Cookbook.Predicate.Holds
import Cookbook.Proofs.Definition.Loaded
import Cookbook.Proofs.Listing.Answered
import Cookbook.Proofs.Listing.Arrange
import Cookbook.Proofs.Listing.Exact
import Cookbook.Proofs.Listing.Outage
import Cookbook.Proofs.Listing.Percent
import Cookbook.Proofs.Query.Exact
import Cookbook.Proofs.Query.Matches
import Cookbook.Proofs.Query.Simplified
import Cookbook.Proofs.Rule.Dropped
import Cookbook.Proofs.Rule.Meaning
import Cookbook.Proofs.Rule.Wire
import Cookbook.Proofs.Schema.Reading
import Cookbook.Proofs.Shelf.Accurate
import Cookbook.Proofs.Shelf.Commit
import Cookbook.Proofs.Shelf.Evaluated
import Cookbook.Proofs.Shelf.Follows
import Cookbook.Proofs.Shelf.Operations
import Cookbook.Proofs.Shelf.Publication
import Cookbook.Proofs.Shelf.Reading
import Cookbook.Proofs.Shelf.Run
import Cookbook.Proofs.Shelf.Runs
import Cookbook.Proofs.Shelf.Snapshots
import Cookbook.Proofs.Shelf.Steps
import Cookbook.Proofs.Shelf.Traceless
import Cookbook.Proofs.Shelf.Trials
import Cookbook.Proofs.Shelf.Unconditional
import Cookbook.Proofs.Shelf.Updates
import Cookbook.Proofs.Shelf.WellKept
import Cookbook.Shelf.Call
import Cookbook.Yaml.Reader
import Cookbook.Proofs.Shelf.Batch
import Cookbook.Proofs.Shelf.Drawn
import Cookbook.Proofs.Shelf.Sources
import Cookbook.Proofs.Shelf.Defined
import Cookbook.Proofs.Shelf.Linking
import Cookbook.Proofs.Shelf.Synced
import Cookbook.Proofs.Shelf.Startup
import Cookbook.Proofs.Definition.Registered
import Cookbook.Proofs.Definition.Skipped
import Cookbook.Proofs.Compiled.Fingerprint
import Cookbook.Proofs.Compiled.ReadBack
import Cookbook.Proofs.Rule.Lossless
import Cookbook.Proofs.Number.Rounding
import Cookbook.Proofs.Listing.Merged
import Cookbook.Proofs.Listing.Newest
import Cookbook.Proofs.Rule.Located
import Cookbook.Proofs.Shelf.Rows
import Cookbook.Proofs.Shelf.Staleness
import Cookbook.Proofs.Predicate.Size
import Cookbook.Proofs.Listing.Counted
import Cookbook.Proofs.Listing.Unresolved
import Cookbook.Proofs.Rule.Complete
import Cookbook.Proofs.Shelf.Overrides
import Cookbook.Proofs.Shelf.Details
import Cookbook.Proofs.Shelf.Searched
import Cookbook.Proofs.Shelf.Offered
