import EventScript.Keyword
import EventScript.Statement.Control
import EventScript.Event.Edit
import EventScript.Jump.Skip
import EventScript.Diagnostic
import EventScript.Format
import EventScript.Settings.Toml
import EventScript.Catalog.Document
import EventScript.Proofs.Jump.Verified
import EventScript.Proofs.Jump.Frame
import EventScript.Proofs.Listing.Waiting
import EventScript.Proofs.Listing.Woven
import EventScript.Proofs.Listing.Mapped
import EventScript.Proofs.Listing.Joined
import EventScript.Proofs.Listing.Negation
import EventScript.Proofs.Listing.Unambiguous
import EventScript.Proofs.Listing.Streamed
import EventScript.Proofs.Listing.Declared
import EventScript.Proofs.Event.Edits
import EventScript.Proofs.Layout.Width
import EventScript.Proofs.Layout.Solid
import EventScript.Proofs.Statement.Above
import EventScript.Proofs.Listing.Chain
import EventScript.Proofs.Listing.Padded
import EventScript.Proofs.Reference.First
import EventScript.Proofs.Statement.Visited
import EventScript.Proofs.Layout.Height
import EventScript.Proofs.Listing.Trailing
import EventScript.Proofs.Label.Search
import EventScript.Proofs.LineMap
import EventScript.Proofs.Layers
import EventScript.Proofs.Catalog.Lookup
import EventScript.Proofs.Catalog.Unknown
