import R9P.Base.Words
import R9P.Base.Checked
import R9P.Base.Format
import R9P.Base.Runs
import R9P.Base.TreeMap
import R9P.Base.Separated
import R9P.Base.Stream
import R9P.Wire.Data
import R9P.Wire.Message
import R9P.Wire.Codec
import R9P.Wire.Layout
import R9P.Wire.Directory
import R9P.Wire.Framing
import R9P.Server.Session
import R9P.Server.Handlers
import R9P.Server.Reservations
import R9P.Server.Acquisition
import R9P.Server.Admission
import R9P.Server.Completion
import R9P.Server.Preservation
import R9P.Server.Run
import R9P.Server.Guarantees
import R9P.Server.Sentinel
import R9P.Server.Replies
import R9P.Server.History
import R9P.Server.Access
import R9P.Server.Dialect
import R9P.Server.Sizes
import R9P.Connection.Loop
import R9P.Connection.Threads
import R9P.Connection.Moves
import R9P.Connection.Exchange
import R9P.Connection.Order
import R9P.Connection.Answers
import R9P.Connection.Refinement
import R9P.Connection.Cancel
import R9P.Client.Protocol
import R9P.Client.Tags
import R9P.Client.Flush
import R9P.Client.Fids
import R9P.Client.Paging
import R9P.Multiplex.Calls
import R9P.Multiplex.Routes
import R9P.Multiplex.Delivery
import R9P.Multiplex.Guarantee
import R9P.Multiplex.Walk
import R9P.Session.Cache
import R9P.Session.Record
import R9P.Session.Coherence
import R9P.Session.Feed
import R9P.Session.Telling
import R9P.Session.Delivery
import R9P.Session.Batch
import R9P.Session.Wake
import R9P.Session.Closing
import R9P.Session.Error
import R9P.Client.Transfers
import R9P.Session.Routing
import R9P.Session.Namespace
import R9P.Session.Transparency
import R9P.Session.Bindings
import R9P.Session.Depth
import R9P.Session.Resume
import R9P.Base.Forest
import R9P.Front.Model
import R9P.Front.Owner
import R9P.Front.Tree
import R9P.Front.Links
import R9P.Front.Sweep
import R9P.Front.Growth
import R9P.Front.Logs
import R9P.Front.Upkeep
import R9P.Front.Structure
import R9P.Front.Retention
import R9P.Front.Removes
import R9P.Front.Withdrawal
import R9P.Front.Principals
import R9P.Front.Interference
import R9P.Front.Sharing
import R9P.Front.Writes
import R9P.Base.Text
import R9P.Base.Address
import R9P.Descriptor.Export
import R9P.Descriptor.Loopback
import R9P.Descriptor.RoundTrip
import R9P.Fuse.Table
import R9P.Fuse.Bridge
import R9P.Fuse.Handles
import R9P.Fuse.Effects
import R9P.Fuse.Renaming
import R9P.Fuse.Removals
import R9P.Fuse.Requests
import R9P.Fuse.Ledger
import R9P.Fuse.Entries
import R9P.Fuse.Lifetime
import R9P.Fuse.Changes
