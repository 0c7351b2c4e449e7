import TracingHeap.Address
import TracingHeap.Allocator.Alloc
import TracingHeap.Allocator.Basic
import TracingHeap.Binary.Round
import TracingHeap.Binary.Single
import TracingHeap.Census
import TracingHeap.Checked
import TracingHeap.Collection.Crew
import TracingHeap.Collection.Phases
import TracingHeap.Collection.Rendezvous
import TracingHeap.Collection.Run
import TracingHeap.Collector.Basic
import TracingHeap.Collector.Closure
import TracingHeap.Collector.Copying
import TracingHeap.Collector.Tracing
import TracingHeap.Decimal
import TracingHeap.Demand
import TracingHeap.Fault
import TracingHeap.Forwarding
import TracingHeap.Heap.Acquire
import TracingHeap.Heap.Basic
import TracingHeap.Heap.Budget
import TracingHeap.Heap.Inquiry
import TracingHeap.Heap.References
import TracingHeap.Layout
import TracingHeap.Layout.Request
import TracingHeap.Layout.System
import TracingHeap.Memory
import TracingHeap.Mutator.Alloc
import TracingHeap.Mutator.Barrier
import TracingHeap.Mutator.Basic
import TracingHeap.Numeral
import TracingHeap.Object.Access
import TracingHeap.Object.Create
import TracingHeap.Object.Header
import TracingHeap.Padding
import TracingHeap.Proofs.Headers
import TracingHeap.Proofs.Memory
import TracingHeap.Proofs.Alignments
import TracingHeap.Proofs.Outcome
import TracingHeap.Pages.Frontier
import TracingHeap.Pages.Ledger
import TracingHeap.Pages.Runs
import TracingHeap.Pages.Source
import TracingHeap.Semantics
import TracingHeap.Session.Basic
import TracingHeap.Session.Hands
import TracingHeap.Session.Registry
import TracingHeap.Settings
import TracingHeap.SideTable
import TracingHeap.SizeClass
import TracingHeap.Space.Copying
import TracingHeap.Space.Immortal
import TracingHeap.Space.Large
import TracingHeap.Space.MarkSweep
import TracingHeap.Space.Region
import TracingHeap.SpaceTag
import TracingHeap.Spaces
import TracingHeap.Step
import TracingHeap.Tally
import TracingHeap.Treadmill
import TracingHeap.Word
import TracingHeap.WordTable
import TracingHeap.Work.Backlog
import TracingHeap.Work.Buffer
import TracingHeap.Work.Packets
import TracingHeap.Work.Shared
import TracingHeap.Proofs.RunMaps
import TracingHeap.Proofs.SideTables
import TracingHeap.Proofs.Tables
import TracingHeap.Proofs.Words
import TracingHeap.Proofs.Sources
import TracingHeap.Proofs.Acquisition
import TracingHeap.Proofs.Allotments
import TracingHeap.Proofs.Claims
import TracingHeap.Proofs.Closures
import TracingHeap.Proofs.Crews
import TracingHeap.Proofs.Idleness
import TracingHeap.Proofs.Preparing
import TracingHeap.Proofs.Midway
import TracingHeap.Proofs.Consumers
import TracingHeap.Proofs.Gatherings
import TracingHeap.Proofs.Races
import TracingHeap.Proofs.Coalescing
import TracingHeap.Proofs.Endings
import TracingHeap.Proofs.Liveness
import TracingHeap.Proofs.Survivors
import TracingHeap.Proofs.Keeping
import TracingHeap.Proofs.Layouts
import TracingHeap.Proofs.Partitions
import TracingHeap.Proofs.Upkeep
import TracingHeap.Proofs.Promises
import TracingHeap.Proofs.Budgets
import TracingHeap.Proofs.Maintenance
import TracingHeap.Proofs.Conduct
import TracingHeap.Proofs.Reaches
import TracingHeap.Proofs.Worlds
import TracingHeap.Proofs.Foundings
import TracingHeap.Proofs.Frames
import TracingHeap.Proofs.Servings
import TracingHeap.Proofs.Threads
import TracingHeap.Proofs.Writes
import TracingHeap.Proofs.Makings
import TracingHeap.Proofs.Cycles
import TracingHeap.Proofs.Graphs
import TracingHeap.Proofs.Marks
import TracingHeap.Proofs.Grants
import TracingHeap.Proofs.Verdicts
import TracingHeap.Proofs.Moments
import TracingHeap.Proofs.Turns
import TracingHeap.Proofs.Cells
import TracingHeap.Proofs.Accounts
import TracingHeap.Proofs.Astray
import TracingHeap.Proofs.Intact
import TracingHeap.Proofs.Treadmills
import TracingHeap.Proofs.Vacancies
import TracingHeap.Proofs.Balances
import TracingHeap.Proofs.Roundings
import TracingHeap.Proofs.PageRuns
import TracingHeap.Proofs.Frontiers
import TracingHeap.Proofs.Combings
import TracingHeap.Proofs.Markings
import TracingHeap.Proofs.Contests
import TracingHeap.Proofs.Gains
import TracingHeap.Proofs.Strides
import TracingHeap.Proofs.Journals
import TracingHeap.Proofs.Chronicles
import TracingHeap.Proofs.Traversals
import TracingHeap.Proofs.Incidents
import TracingHeap.Proofs.Scopes
import TracingHeap.Proofs.Fittings
import TracingHeap.Proofs.Carvings
import TracingHeap.Proofs.Oversizes
import TracingHeap.Proofs.Inquiries
import TracingHeap.Proofs.Granules
import TracingHeap.Proofs.Revolutions
import TracingHeap.Proofs.Demands
import TracingHeap.Proofs.Settings
import TracingHeap.Proofs.Multiples
