import VfsRedirector.Library.Transition
import VfsRedirector.Library.CString
import VfsRedirector.Library.Count
import VfsRedirector.DataMap
import VfsRedirector.Client.Gate
import VfsRedirector.Client.GateSafety
import VfsRedirector.Client.Request
import VfsRedirector.Client.RequestSteps
import VfsRedirector.Client.RequestInv
import VfsRedirector.Client.ReplySafety
import VfsRedirector.Client.QueueSafety
import VfsRedirector.Client.HonestClient
import VfsRedirector.Client.HonestRun
import VfsRedirector.Client.RequestSafety
import VfsRedirector.Client.Close
import VfsRedirector.VNode
import VfsRedirector.VNode.References
import VfsRedirector.Library.Prog
import VfsRedirector.Library.Namespace
import VfsRedirector.Redirect.Kernel
import VfsRedirector.Redirect.Hooks
import VfsRedirector.Redirect.IoHooks
import VfsRedirector.Redirect.Calls
import VfsRedirector.Redirect.World
import VfsRedirector.Redirect.Dispatch
import VfsRedirector.Redirect.Upls
import VfsRedirector.Library.Account
import VfsRedirector.Library.Log
import VfsRedirector.Library.Threads
import VfsRedirector.Library.Trace
import VfsRedirector.Redirect.Ledger
import VfsRedirector.Redirect.Ownership
import VfsRedirector.Redirect.Releases
import VfsRedirector.Redirect.Given
import VfsRedirector.Redirect.Requests
import VfsRedirector.Redirect.Writes
import VfsRedirector.Redirect.Pairing
import VfsRedirector.Redirect.Rename
import VfsRedirector.Redirect.Runs
import VfsRedirector.VNodeHook.Tables
import VfsRedirector.VNodeHook.Model
import VfsRedirector.VNodeHook.Steps
import VfsRedirector.VNodeHook.Refs
import VfsRedirector.VNodeHook.Vectors
import VfsRedirector.VNodeHook.Original
import VfsRedirector.VNodeHook.Order
import VfsRedirector.VNodeHook.Counters
import VfsRedirector.VNodeHook.Accounting
import VfsRedirector.VNodeHook.Tracked
import VfsRedirector.VNodeHook.Freed
import VfsRedirector.Reclaim.Model
import VfsRedirector.Reclaim.Steps
import VfsRedirector.Reclaim.Ownership
import VfsRedirector.Reclaim.Safety
import VfsRedirector.Library.PathName
import VfsRedirector.Path.Convert
import VfsRedirector.Path.Collision
import VfsRedirector.Path.Routes
import VfsRedirector.Path.Shadow
import VfsRedirector.Path.Names
import VfsRedirector.Library.Memory
import VfsRedirector.Client.Encoding
import VfsRedirector.Client.Decoding
import VfsRedirector.Client.Notification
import VfsRedirector.Client.Copy
import VfsRedirector.Client.Copied
import VfsRedirector.Redirect.Marks
import VfsRedirector.Redirect.AllOrNothing
import VfsRedirector.Redirect.Protected
import VfsRedirector.Redirect.RenameCalls
import VfsRedirector.Redirect.RenameBlocks
import VfsRedirector.Redirect.Cookies
import VfsRedirector.Redirect.Closing
import VfsRedirector.Redirect.Reverse
import VfsRedirector.Redirect.Exchange
import VfsRedirector.Redirect.Getattr
import VfsRedirector.Redirect.Backing
import VfsRedirector.Redirect.Passing
import VfsRedirector.HashTable.Model
import VfsRedirector.HashTable.Chains
import VfsRedirector.HashTable.Entries
import VfsRedirector.HashTable.Rehash
import VfsRedirector.HashTable.Map
import VfsRedirector.HashTable.Contents
import VfsRedirector.HashTable.Shortage
import VfsRedirector.HashTable.Cleanup
import VfsRedirector.HashTable.Bounded
import VfsRedirector.Library.Recency
import VfsRedirector.HashTable.Lru
import VfsRedirector.Library.Cursor
import VfsRedirector.HashTable.Iterate
import VfsRedirector.Library.Crc
import VfsRedirector.HashTable.Hash
import VfsRedirector.VNodeHook.Hashed
import VfsRedirector.Library.Copying
import VfsRedirector.VmPmap
import VfsRedirector.Library.Circular
import VfsRedirector.Library.Allocations
import VfsRedirector.DataMap.Memory
import VfsRedirector.DataMap.Refinement
import VfsRedirector.Library.Histories
import VfsRedirector.Library.Shares
import VfsRedirector.DataMap.Threads
import VfsRedirector.DataMap.Regions
import VfsRedirector.DataMap.Linearized
import VfsRedirector.Redirect.Confined
import VfsRedirector.Redirect.Isolation
