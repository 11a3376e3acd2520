import RuleWalk.Act
import RuleWalk.Config
import RuleWalk.Fault.Basic
import RuleWalk.Fault.Message
import RuleWalk.Hook
import RuleWalk.Journal
import RuleWalk.Main
import RuleWalk.Number.Double
import RuleWalk.Number.Shortest
import RuleWalk.Outline
import RuleWalk.Page
import RuleWalk.Plan
import RuleWalk.Proofs.Act
import RuleWalk.Proofs.Fault
import RuleWalk.Proofs.Lists
import RuleWalk.Proofs.Outline
import RuleWalk.Proofs.Plan.Account
import RuleWalk.Proofs.Plan.Beat
import RuleWalk.Proofs.Plan.Blame
import RuleWalk.Proofs.Plan.Calls
import RuleWalk.Proofs.Plan.CountedRuns
import RuleWalk.Proofs.Plan.Failure
import RuleWalk.Proofs.Plan.Independence
import RuleWalk.Proofs.Plan.Limit
import RuleWalk.Proofs.Plan.Narrowing
import RuleWalk.Proofs.Plan.Ruling
import RuleWalk.Proofs.Plan.RunResult
import RuleWalk.Proofs.Plan.Selection
import RuleWalk.Proofs.Plan.Unfailing
import RuleWalk.Proofs.Query.Agreement
import RuleWalk.Proofs.Query.Census
import RuleWalk.Proofs.Query.Leaves
import RuleWalk.Proofs.Registries
import RuleWalk.Proofs.Registry.Chronicle
import RuleWalk.Proofs.Registry.History
import RuleWalk.Proofs.Registry.Operations
import RuleWalk.Proofs.Registry.Signature
import RuleWalk.Proofs.Registry.Table
import RuleWalk.Proofs.Rules
import RuleWalk.Proofs.Scene
import RuleWalk.Proofs.Session.Census
import RuleWalk.Proofs.Session.Counting
import RuleWalk.Proofs.Session.Interleaving
import RuleWalk.Proofs.Session.Isolation
import RuleWalk.Proofs.Session.Leaves
import RuleWalk.Proofs.Session.Ledger
import RuleWalk.Proofs.Session.Plain
import RuleWalk.Proofs.Session.Refusal
import RuleWalk.Proofs.Session.Roots
import RuleWalk.Proofs.Session.Search
import RuleWalk.Proofs.Session.Store
import RuleWalk.Proofs.Session.Walks
import RuleWalk.Proofs.Simulation
import RuleWalk.Proofs.Unfolding
import RuleWalk.Proofs.Value.Convert
import RuleWalk.Proofs.Value.Coverage
import RuleWalk.Proofs.Value.Parts
import RuleWalk.Proofs.Value.Readback
import RuleWalk.Proofs.Value.Sharing
import RuleWalk.Proofs.Value.Structure
import RuleWalk.Proofs.Value.Text
import RuleWalk.Proofs.Value.Worklist
import RuleWalk.Proofs.Walk.Conversion
import RuleWalk.Proofs.Walk.Edits
import RuleWalk.Proofs.Walk.Ending
import RuleWalk.Proofs.Walk.Extension
import RuleWalk.Proofs.Walk.Failing
import RuleWalk.Proofs.Walk.Fringe
import RuleWalk.Proofs.Walk.Growth
import RuleWalk.Proofs.Walk.Noninterference
import RuleWalk.Proofs.Walk.Once
import RuleWalk.Proofs.Walk.Paths
import RuleWalk.Proofs.Walk.Preorder
import RuleWalk.Proofs.Walk.Step
import RuleWalk.Query
import RuleWalk.Registries
import RuleWalk.Registry
import RuleWalk.Rule.Basic
import RuleWalk.Rule.Catalogue
import RuleWalk.Rule.Fields
import RuleWalk.Rule.Signature
import RuleWalk.Sample.Demo
import RuleWalk.Sample.Trees
import RuleWalk.Session
import RuleWalk.Text.Blank
import RuleWalk.Text.Mistake
import RuleWalk.Text.Printable
import RuleWalk.Text.Quoted
import RuleWalk.Toolkit
import RuleWalk.Value.Access
import RuleWalk.Value.Basic
import RuleWalk.Value.Convert
import RuleWalk.Value.Order
import RuleWalk.Value.Reader
import RuleWalk.Value.Text
import RuleWalk.Value.Worklist
import RuleWalk.Walk
