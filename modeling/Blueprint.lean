import Blueprint.Foreign.Session
import Blueprint.Interpreter.Report
import Blueprint.Main
import Blueprint.Node.Probe
import Blueprint.Resource.Summary
import Blueprint.Run.Report
import Blueprint.Scope.Future
import Blueprint.Proofs.Interpreter.ScopeTree
import Blueprint.Proofs.Graph.Wiring
import Blueprint.Proofs.Interpreter.Calls
import Blueprint.Proofs.Interpreter.Lineage
import Blueprint.Proofs.Interpreter.Completion
import Blueprint.Proofs.Run.View
import Blueprint.Proofs.Fetch.Aloof
import Blueprint.Proofs.Run.Effects
import Blueprint.Proofs.Run.Moves
import Blueprint.Proofs.Run.Balance
import Blueprint.Proofs.Run.Continuity
import Blueprint.Proofs.Run.Reach
import Blueprint.Proofs.Run.Final
import Blueprint.Proofs.Graph.Acyclic
import Blueprint.Proofs.Run.Tasks
import Blueprint.Proofs.Run.Tame
import Blueprint.Proofs.Run.Steady
import Blueprint.Proofs.Run.Finishing
import Blueprint.Proofs.Scope.Wakeups
import Blueprint.Proofs.Run.Journal
import Blueprint.Proofs.Run.Invocations
import Blueprint.Proofs.Run.Chronicle
import Blueprint.Proofs.Run.Callers
import Blueprint.Proofs.Fetch.Once
import Blueprint.Proofs.Run.Nesting
import Blueprint.Proofs.Run.Hosting
import Blueprint.Proofs.Run.Executions
import Blueprint.Proofs.Node.Joining
import Blueprint.Proofs.Run.Onward
import Blueprint.Proofs.Run.Branches
import Blueprint.Proofs.Run.Barrier
import Blueprint.Proofs.Fetch.Transparent
import Blueprint.Proofs.Interpreter.Turns
import Blueprint.Proofs.Interpreter.Refusals
import Blueprint.Proofs.Interpreter.Isolation
import Blueprint.Proofs.Decode.Declared
import Blueprint.Proofs.Decode.Gate
import Blueprint.Proofs.Catalog.Precedence
import Blueprint.Proofs.Json.Strings
import Blueprint.Proofs.Json.Numbers
import Blueprint.Proofs.Json.Rereading
import Blueprint.Proofs.Json.Values
import Blueprint.Proofs.Catalog.Rereading
import Blueprint.Proofs.Files.Tree
import Blueprint.Proofs.Cache.Disk
import Blueprint.Proofs.Cache.Refinement
import Blueprint.Proofs.Interpreter.Pared
import Blueprint.Proofs.Fetch.Blind
import Blueprint.Proofs.Run.Pared
import Blueprint.Proofs.Run.Told
import Blueprint.Proofs.Run.Undeclared
import Blueprint.Proofs.Graph.WellFormed
import Blueprint.Proofs.Json.Records
import Blueprint.Proofs.Graph.Written
import Blueprint.Proofs.Interpreter.Starting
import Blueprint.Proofs.Interpreter.Literals
import Blueprint.Proofs.Interpreter.InputOrder
import Blueprint.Proofs.Interpreter.Overlap
import Blueprint.Proofs.Foreign.Hosts
import Blueprint.Proofs.Fetch.Deadline
import Blueprint.Proofs.Value.Words
import Blueprint.Proofs.Value.Survival
import Blueprint.Proofs.Node.Delivering
import Blueprint.Proofs.Run.Carrying
import Blueprint.Proofs.Cache.Presence
import Blueprint.Proofs.Cache.Locking
import Blueprint.Proofs.Cache.Traffic
import Blueprint.Proofs.Node.Checked
import Blueprint.Proofs.Run.Loading
import Blueprint.Proofs.Run.Checked
import Blueprint.Proofs.Node.Handles
import Blueprint.Proofs.Run.Handles
import Blueprint.Proofs.Run.Roots
import Blueprint.Proofs.Version
import Blueprint.Proofs.Json.Compact
import Blueprint.Proofs.Foreign.Delivery
import Blueprint.Proofs.Interpreter.Regularity
