import LimitOrderBook.Engine.Api
import LimitOrderBook.Lib.Machine
import LimitOrderBook.Lib.Chain
import LimitOrderBook.Reference.ReferenceBook
import LimitOrderBook.Lib.Ladder
import LimitOrderBook.Reference.PriorityBook
import LimitOrderBook.Refinement.Arena
import LimitOrderBook.Refinement.Queue
import LimitOrderBook.Refinement.Store
import LimitOrderBook.Refinement.Book
import LimitOrderBook.Refinement.Matching
import LimitOrderBook.Refinement.Exec
import LimitOrderBook.Events.Log
import LimitOrderBook.Reference.Fill
import LimitOrderBook.Reference.Invariant
import LimitOrderBook.Refinement.Run
import LimitOrderBook.Properties.Agreement
import LimitOrderBook.Refinement.Termination
import LimitOrderBook.Refinement.Kept
import LimitOrderBook.Lib.WordSum
import LimitOrderBook.Refinement.Positive
import LimitOrderBook.Metrics.TradeMetrics
import LimitOrderBook.Replay.Engine
import LimitOrderBook.Replay.Mode
import LimitOrderBook.Simulator.Runner
import LimitOrderBook.Simulator.Generator
import LimitOrderBook.Properties.EventModes
import LimitOrderBook.Properties.Replay
import LimitOrderBook.Properties.Representation
import LimitOrderBook.Metrics.BookMetrics
import LimitOrderBook.Properties.Uncrossed
import LimitOrderBook.Reference.Steps
import LimitOrderBook.Reference.Arrivals
import LimitOrderBook.Properties.Lifecycle
import LimitOrderBook.Lib.Precedes
import LimitOrderBook.Properties.Priority
import LimitOrderBook.Properties.Mirror
import LimitOrderBook.Properties.Invisible
import LimitOrderBook.Events.Projection
import LimitOrderBook.Properties.EventProjection
import LimitOrderBook.Lib.TokenBucket
import LimitOrderBook.Api.RateLimit
import LimitOrderBook.Refinement.RateLimit
import LimitOrderBook.Properties.RateLimit
import LimitOrderBook.Lib.Text
import LimitOrderBook.Api.Instruments
import LimitOrderBook.Api.CreateInstruments
import LimitOrderBook.Properties.Delisting
import LimitOrderBook.Properties.Instruments
import LimitOrderBook.Api.Auth.Database
import LimitOrderBook.Api.Auth.Sessions
import LimitOrderBook.Api.Auth.Login
import LimitOrderBook.Api.Auth.Server
import LimitOrderBook.Properties.Sessions
import LimitOrderBook.Properties.Allocation
import LimitOrderBook.Properties.Modify
import LimitOrderBook.Properties.Commuting
import LimitOrderBook.Properties.Slicing
import LimitOrderBook.Engine.Overflow
import LimitOrderBook.Properties.CachedDepth
import LimitOrderBook.Properties.ArenaPeak
import LimitOrderBook.Properties.Metrics
import LimitOrderBook.Properties.ReplayReport
import LimitOrderBook.Properties.Generator
import LimitOrderBook.Api.Auth.HashChecks
import LimitOrderBook.Lib.TableLock
import LimitOrderBook.Properties.LoginPrivacy
import LimitOrderBook.Api.Auth.Rows
import LimitOrderBook.Api.Auth.Signup
import LimitOrderBook.Bin.BootstrapAdmin
import LimitOrderBook.Properties.Bootstrap
import LimitOrderBook.Properties.ArenaSlots
import LimitOrderBook.Engine.Iterations
import LimitOrderBook.Properties.IterationCounts
import LimitOrderBook.Api.Accounts
import LimitOrderBook.Api.AdminUsers
import LimitOrderBook.Api.Auth.AtOnce
import LimitOrderBook.Api.ReadInstruments
import LimitOrderBook.Api.Router
import LimitOrderBook.Api.App
import LimitOrderBook.Properties.App
import LimitOrderBook.Lib.Past
import LimitOrderBook.Properties.Trust
import LimitOrderBook.Properties.Roles
import LimitOrderBook.Properties.Accounts
import LimitOrderBook.Properties.Integrity
import LimitOrderBook.Properties.Registration
import LimitOrderBook.Lib.Json
import LimitOrderBook.Replay.Persistence
import LimitOrderBook.Properties.Persistence
import LimitOrderBook.Cli
import LimitOrderBook.Properties.Cli
import LimitOrderBook.Properties.Relabel
import LimitOrderBook.Lib.Turns
import LimitOrderBook.Properties.Turns
import LimitOrderBook.Properties.Ledger
import LimitOrderBook.Lib.Tickets
import LimitOrderBook.Properties.Admission
import LimitOrderBook.Lib.TableTurns
import LimitOrderBook.Api.InstrumentBatch
import LimitOrderBook.Properties.InstrumentTurns
