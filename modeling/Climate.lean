import Climate.Lib.Prog
import Climate.Lib.Safe
import Climate.Lib.Exec
import Climate.Config
import Climate.Store.Digest
import Climate.Store.FileSystem
import Climate.Store.Basic
import Climate.Store.Pull
import Climate.Store.Clean
import Climate.Store.Build
import Climate.Store.Calm
import Climate.Store.Closure
import Climate.Store.PullLaws
import Climate.Store.BuildLaws
import Climate.Store.CleanLaws
import Climate.Store.Processes
import Climate.Store.Unpack
import Climate.Store.Shape
import Climate.Store.Crash
import Climate.Lib.Alone
import Climate.Lib.Reads
import Climate.Lib.TomlPaths
import Climate.Lib.Text
import Climate.Lib.ByteOrder
import Climate.Store.Mounted
import Climate.Lib.Interrupt
import Climate.Lib.LongestMatch
import Climate.Net.Addr
import Climate.Net.Localnet
import Climate.Net.RouteTable
import Climate.Seccomp.Profile
import Climate.Seccomp.UserNamespaces
import Climate.Seccomp.Decisions
import Climate.Apps.Sync
import Climate.Apps.SyncLaws
import Climate.Apps.Calm
import Climate.Apps.Mirror
import Climate.Apps.Recovery
import Climate.Net.Forward
import Climate.Net.Mirrors
import Climate.Net.Settling
import Climate.Store.CleanExact
import Climate.Apps.Definitions
import Climate.Store.Orphans
import Climate.Apps.Show
import Climate.Apps.RoundTrip
import Climate.Apps.Overrides
import Climate.Lib.UnixPath
import Climate.Spec.Host
import Climate.Spec.Mounts
import Climate.Spec.Build
import Climate.Spec.Landing
import Climate.Spec.Check
import Climate.Spec.WholeHost
import Climate.Spec.Sizes
import Climate.Spec.Limits
import Climate.Runtime.Machine
import Climate.Runtime.Run
import Climate.Runtime.Relay
import Climate.Runtime.Stub
import Climate.Runtime.Cleanup
import Climate.Runtime.Signals
import Climate.Runtime.History
import Climate.Store.Update
import Climate.Net.PortScan
import Climate.Runtime.OverlayOptions
import Climate.Lib.Owned
import Climate.Store.Willing
import Climate.Store.Fetching
import Climate.Store.Repeats
import Climate.Lib.Descriptors
import Climate.Net.Handover
import Climate.Store.Markers
import Climate.Runtime.Prune
import Climate.Spec.Untouched
import Climate.Lib.FileTree
import Climate.Store.RemoveTree
import Climate.Lib.Links
import Climate.Apps.Link
import Climate.Lib.Calls
import Climate.Net.Helper
import Climate.Net.HelperLaws
import Climate.Net.Forwarding
import Climate.Lib.RunsDown
import Climate.Net.ForwarderRuns
import Climate.Runtime.Resize
import Climate.Runtime.ResizeLaws
import Climate.Store.Catalogue
import Climate.Store.Publishing
import Climate.Lib.Copying
import Climate.Net.Lan
import Climate.Net.LanLaws
import Climate.Net.Pump
import Climate.Runtime.Output
