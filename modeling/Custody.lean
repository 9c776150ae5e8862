import Custody.Attribute
import Custody.Block
import Custody.Borrow
import Custody.Error
import Custody.Handle.Node
import Custody.Handle.Owner
import Custody.Handle.Range
import Custody.Handle.Scan
import Custody.Handle.Soft
import Custody.Handle.Table
import Custody.Handle.Walk
import Custody.Heap.Basic
import Custody.Heap.Config
import Custody.Heap.Stats
import Custody.Layout
import Custody.Object.Item
import Custody.Object.Kind
import Custody.Object.Record
import Custody.Object.Traversal
import Custody.Position
import Custody.Proofs.SlotTable.Entries
import Custody.Proofs.SlotTable.FreeList
import Custody.Quarantine
import Custody.Row
import Custody.Session.Display
import Custody.Session.Machine
import Custody.Session.Memory
import Custody.Session.Names
import Custody.Session.Nodes
import Custody.Session.Objects
import Custody.Session.Owners
import Custody.Session.Positions
import Custody.Session.Quarantines
import Custody.Session.Report
import Custody.Session.Rows
import Custody.Session.Run
import Custody.Session.Scans
import Custody.Session.Slices
import Custody.Session.Slots
import Custody.Session.Softs
import Custody.Session.Step
import Custody.Session.Tables
import Custody.Slice
import Custody.SlotTable
import Custody.Text.Escapes
import Custody.Text.Fields
import Custody.Text.Quoted
import Custody.Ticket
import Custody.Workload.Basic
import Custody.Workload.Chain
import Custody.Workload.Views
import Custody.World.Action
import Custody.World.Basic
import Custody.World.Construction
import Custody.World.Destruction
import Custody.World.Guards
import Custody.World.Handles
import Custody.World.Program
import Custody.World.Recipe
import Custody.World.Filling
import Custody.Proofs.SlotTable.Visit
import Custody.Proofs.SlotTable.Registry
import Custody.Proofs.SlotTable.Exhaustion
import Custody.Proofs.Ledger.Stakes
import Custody.Proofs.Ledger.Holding
import Custody.Proofs.Ledger.Invariant
import Custody.Proofs.Ledger.Effects
import Custody.Proofs.Ledger.Books
import Custody.Proofs.Ledger.Arrivals
import Custody.Proofs.Ledger.Borrows
import Custody.Proofs.Ledger.Elements
import Custody.Proofs.Ledger.Actions
import Custody.Proofs.Ledger.Places
import Custody.Proofs.Validity
import Custody.Proofs.Registrations
import Custody.Proofs.Memory.Extents
import Custody.Proofs.Memory.Stills
import Custody.Proofs.Memory.Apart
import Custody.Proofs.Ledger.Tasks
import Custody.Proofs.Destruction
import Custody.Proofs.Heap.Ranges
import Custody.Proofs.Heap.Requests
import Custody.Proofs.Heap.Detection
import Custody.Proofs.Heap.Accounts
import Custody.Proofs.Memory.Deals
import Custody.Proofs.Heap.Conservation
import Custody.Proofs.Ledger.Sources
import Custody.Proofs.Quiescence
import Custody.Proofs.Reclamation
import Custody.Proofs.Refusals
import Custody.Proofs.Attainment
import Custody.Proofs.Positions
import Custody.Proofs.Walks.Tables
import Custody.Proofs.Walks.Handles
import Custody.Proofs.Walks.Moves
import Custody.Proofs.Walks.Visits
import Custody.Proofs.Walks.Traversal
import Custody.Proofs.Walks.Refusals
import Custody.Proofs.Lending
import Custody.Proofs.Ownership
import Custody.Proofs.Borrowing
import Custody.Proofs.Modes.Twins
import Custody.Proofs.Modes.Steps
import Custody.Proofs.Modes.Actions
import Custody.Proofs.Modes.Programs
import Custody.Proofs.Modes.Operations
import Custody.Proofs.Modes.Calls
import Custody.Proofs.Modes.Agreement
import Custody.Proofs.Scans.Following
import Custody.Proofs.Scans.Copies
import Custody.Proofs.Scans.Interchange
import Custody.Proofs.Heap.Notices
import Custody.Proofs.Writing
import Custody.Proofs.Orphans
import Custody.Proofs.Teardown
import Custody.Proofs.Draining
import Custody.Proofs.Construction
import Custody.Proofs.Panics.Muffling
import Custody.Proofs.Panics.Destruction
import Custody.Proofs.Panics.Actions
import Custody.Proofs.Panics.Outcomes
import Custody.Proofs.Confinement
import Custody.Proofs.Resets
import Custody.Proofs.Exchanges
import Custody.Proofs.Values
import Custody.Proofs.Replacement
import Custody.Proofs.Locality.Fading
import Custody.Proofs.Locality.Sealing
import Custody.Proofs.Locality.Working
import Custody.Proofs.Locality.Dooming
import Custody.Proofs.Locality.Batches
import Custody.Proofs.Locality.Spread
import Custody.Proofs.SlotTable.Recycling
import Custody.Proofs.SlotTable.Capacity
import Custody.Proofs.Scans.Fitting
import Custody.Proofs.Access
import Custody.Proofs.Memory.Remains
import Custody.Proofs.Memory.Layouts
import Custody.Proofs.Addresses
import Custody.Proofs.Heap.Rolls
import Custody.Proofs.Heap.Diary
import Custody.Proofs.Heap.Enrolments
import Custody.Proofs.Heap.Observers
import Custody.Proofs.Chains.Cascade
import Custody.Proofs.Chains.Outsiders
import Custody.Proofs.Chains.Steps
import Custody.Proofs.Chains.Building
import Custody.Proofs.Chains.Summing
import Custody.Proofs.Chains.Lifetime
import Custody.Proofs.Clamping
import Custody.Proofs.Distances
import Custody.Proofs.Scans.Comparing
import Custody.Proofs.Scans.Yielding
import Custody.Proofs.SlotTable.Threading
import Custody.Proofs.Heap.Headers
import Custody.Proofs.Heap.Lawful
import Custody.Proofs.Heap.Links
