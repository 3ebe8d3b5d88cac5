import ProxyLoom.Sources.Refresh
import ProxyLoom.Catalog.History
import ProxyLoom.Subscriptions.Protocol
import ProxyLoom.Subscriptions.Safety
import ProxyLoom.Storage.Idempotency
import ProxyLoom.Secretbox.Rotation
import ProxyLoom.Jobs.Overlap
import ProxyLoom.Subscriptions.Agreement
import ProxyLoom.Adapter.Mihomo.Guard
import ProxyLoom.Adapter.Resolvers
import ProxyLoom.Sources.PreviewExact
import ProxyLoom.NetworkTest.Approval
import ProxyLoom.APIContract.NodeMemory
import ProxyLoom.Override.Restore
import ProxyLoom.NetworkTest.Usage
import ProxyLoom.Storage.EnvelopeCache
import ProxyLoom.IR.Surrogates
import ProxyLoom.IR.Bootstrap
import ProxyLoom.Jobs.Revision
