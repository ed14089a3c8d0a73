import Tapplet.Lib.Run
import Tapplet.Lib.Linked
import Tapplet.Lib.Ledger
import Tapplet.Lib.Forest
import Tapplet.Lib.Prefix
import Tapplet.Pool.Conservation
import Tapplet.Acl.Duplicates
import Tapplet.Acl.Crc
import Tapplet.Acl.Classify
import Tapplet.AclSync.Tables
import Tapplet.AclSync.Handshake
import Tapplet.Timer.Exact
import Tapplet.Lib.Lease
import Tapplet.Lib.Dict
import Tapplet.Huge.Journey
import Tapplet.Acl.Update
import Tapplet.Rest.AclSaved
import Tapplet.Shm.Confined
import Tapplet.Reass.Arrival
import Tapplet.Reass.Conserved
import Tapplet.Reass.Split
import Tapplet.Reass.Fragmentation
import Tapplet.Actions.RoundTrip
import Tapplet.Actions.Avoid
import Tapplet.Actions.Stable
import Tapplet.Actions.Patch
import Tapplet.Actions.PreData
import Tapplet.Net.Handoff
import Tapplet.Net.Vlan
import Tapplet.Net.Ip6
import Tapplet.Net.Decode
import Tapplet.Huge.Input
import Tapplet.Acl.HitCount
import Tapplet.Stat.Conserved
import Tapplet.Acl.HashMap
import Tapplet.Hash.Books
import Tapplet.Timer.Stops
import Tapplet.Timer.Frames
import Tapplet.Huge.Exhausted
import Tapplet.Reass.Flatten
import Tapplet.Reass.WellFormed
import Tapplet.Hash.Concurrent
import Tapplet.Cli.Reliable
import Tapplet.Net.Dispatch
import Tapplet.Net.FrameDecode
import Tapplet.Intf.RoundTrip
import Tapplet.Acl.Entry
import Tapplet.Net.Directed
import Tapplet.Net.Forwarded
