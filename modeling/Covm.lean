import Covm.Vm.Compose
import Covm.Vm.Calls
import Covm.Vm.Control
import Covm.Bytecode.FastLoop
import Covm.Bytecode.StraightLine
import Covm.Bytecode.Functions
import Covm.Bytecode.Halting
import Covm.Bytecode.Relocation
import Covm.Storage.Transactions
import Covm.Storage.Consistency
import Covm.Storage.Quota
import Covm.Storage.Conservation
import Covm.Storage.PrivateKeys
import Covm.Storage.History
import Covm.Storage.AuditLog
import Covm.Storage.OptimisticLocking
import Covm.Storage.FileUsage
import Covm.Storage.FileRollback
import Covm.Storage.FileAudit
import Covm.Storage.Agreement
import Covm.Storage.Isolation
import Covm.Vm.Simulation
import Covm.Vm.StackShape
import Covm.Vm.RoundTrip
import Covm.Vm.Harmless
import Covm.Governance.Thresholds
import Covm.Governance.LifecycleRuns
import Covm.Governance.Transitions
import Covm.Governance.ProposalLogic
import Covm.Governance.Durability
import Covm.Governance.DelegationRuns
import Covm.Governance.VoteWeight
import Covm.Governance.RankedVote
import Covm.Storage.AccountKeys
import Covm.Storage.Rejections
import Covm.Governance.PassRules
import Covm.Governance.Decision
import Covm.Number.Order
import Covm.Vm.Comparison
import Covm.Vm.Parameters
import Covm.Vm.MemoryViews
import Covm.Federation.Retries
import Covm.Storage.HalfTransfers
import Covm.Vm.FileReputation
import Covm.Governance.Legacy
import Covm.Governance.Comments
import Covm.Governance.VoteRewards
import Covm.Governance.Templates
import Covm.Governance.StoredComments
import Covm.Governance.Threads
import Covm.Ledger.Ancestry
import Covm.Partial.Views
import Covm.Partial.Walk
import Covm.Ledger.Exchange
import Covm.Ledger.UniqueIds
import Covm.Compiler.Panics
import Covm.Compiler.TwoRuns
import Covm.Compiler.Answers
import Covm.Compiler.Settings
import Covm.Compiler.Literals
import Covm.Compiler.Unclosed
import Covm.Compiler.ProposalBlock
import Covm.Compiler.Collected
import Covm.Compiler.Progress
import Covm.Compiler.ElseBranch
import Covm.Compiler.WhileBody
import Covm.Compiler.Macros
import Covm.Vm.StackCode
import Covm.Compiler.Stdlib
import Covm.Compiler.Selection
import Covm.Compiler.SumN
import Covm.Storage.NamespaceLookup
import Covm.Storage.Namespaces
import Covm.Federation.Refusal
import Covm.Federation.Legitimacy
import Covm.Federation.Restart
import Covm.Federation.Cooperatives
import Covm.Ledger.Addressing
import Covm.Ledger.Keeping
import Covm.Ledger.NamespaceExport
import Covm.Vm.Payments
import Covm.Vm.Tracing
import Covm.Compiler.Printer
import Covm.Compiler.Remarks
import Covm.Compiler.RoundTrip
import Covm.Ledger.Gossip
import Covm.Vm.Records
