import Interlock.Word.Access
import Interlock.Word.Operation
import Interlock.Word.Call
import Interlock.Word.Race
import Interlock.Word.Session
import Interlock.Word.Halves
import Interlock.Exchange
import Interlock.Text.Shown
import Interlock.Text.Number
import Interlock.Word.Display
import Interlock.Monitor.Basic
import Interlock.Monitor.Step
import Interlock.Monitor.SharedList
import Interlock.Monitor.Queue
import Interlock.Text.Blank
import Interlock.Text.Unprintable
import Interlock.Text.Quoted
import Interlock.Log
import Interlock.Cpuid.Leaf
import Interlock.Cpuid.Vendor
import Interlock.Cpuid.Version
import Interlock.Cpuid.Topology
import Interlock.Cpuid.Display
import Interlock.Fence.Program
import Interlock.Fence.Policy
import Interlock.Fence.Race
import Interlock.Fence.Mode
import Interlock.Vcpu.Id
import Interlock.Vcpu.Snapshot
import Interlock.Vcpu.Set
import Interlock.Typed.Encoding
import Interlock.Typed.Atomic
import Interlock.Blocks.Refusal
import Interlock.Blocks.Registry
import Interlock.Blocks.Control
import Interlock.Blocks.Event
import Interlock.Blocks.Request
import Interlock.Blocks.Host
import Interlock.Blocks.Waiting
import Interlock.Proofs.Monitor.Steps
import Interlock.Proofs.Monitor.Exclusion
import Interlock.Proofs.Monitor.LockWake
import Interlock.Proofs.Monitor.Notification
import Interlock.Proofs.Blocks.Waiting
import Interlock.Proofs.Monitor.Waits
import Interlock.Proofs.Monitor.Supply
import Interlock.Proofs.Word.Calls
import Interlock.Proofs.Word.History
import Interlock.Proofs.Word.Linearization
import Interlock.Proofs.Word.Totals
import Interlock.Proofs.Word.Tickets
import Interlock.Proofs.Fence.Trace
import Interlock.Proofs.Vcpu.Accounting
import Interlock.Proofs.Vcpu.Members
import Interlock.Proofs.Word.Conservation
import Interlock.Proofs.Fence.Override
import Interlock.Proofs.Blocks.PathMap
import Interlock.Proofs.Blocks.Refinement
import Interlock.Proofs.Blocks.RawControl
import Interlock.Proofs.Blocks.Ownership
import Interlock.Proofs.Typed.View
import Interlock.Proofs.Word.Retry
import Interlock.Proofs.Exchange.Rounds
import Interlock.Proofs.Exchange.Native
import Interlock.Proofs.Fence.Sequential
import Interlock.Proofs.Fence.Truthful
import Interlock.Proofs.Blocks.Replay
import Interlock.Proofs.Blocks.Closing
import Interlock.Proofs.Blocks.Listing
import Interlock.Proofs.Word.Counterparts
import Interlock.Proofs.Cpuid.Vendor
import Interlock.Proofs.Cpuid.Topology
import Interlock.Proofs.Word.Halves
import Interlock.Proofs.Typed.Signed
import Interlock.Proofs.Cpuid.Classification
import Interlock.Proofs.Vcpu.Enumeration
import Interlock.Proofs.Fence.Grammar
import Interlock.Proofs.Word.Erasure
import Interlock.Proofs.Word.Fencing
