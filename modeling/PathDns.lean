import PathDns.Dns.Lifetime
import PathDns.Dns.Truncate
import PathDns.Resolver.EcsSharing
import PathDns.Resolver.Overlay
import PathDns.Resolver.Race
import PathDns.Resolver.CidrTest
import PathDns.Mrs.Bounds
import PathDns.QueryLog.IndexedPages
import PathDns.QueryLog.Segments
import PathDns.QueryLog.Api
import PathDns.Dns.EcsInject
import PathDns.Config.Servers
import PathDns.IpSet.Codec
import PathDns.IpSet.Recv
import PathDns.Cache.FileSafety
import PathDns.Verdict.Restart
import PathDns.Routing.NameKeys
import PathDns.Domain.Variants
import PathDns.Reload.Persisted
import PathDns.Reload.Watch
import PathDns.Upstream.Udp
import PathDns.Reload.RestoreIps
import PathDns.Upstream.Probe
import PathDns.Upstream.Hedge
import PathDns.Upstream.Register
import PathDns.Upstream.MuxWake
import PathDns.Upstream.ReadLoops
import PathDns.Config.Authority
import PathDns.QueryLog.Stats
