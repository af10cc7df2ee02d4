import Zooffice.Common.Effect
import Zooffice.Java.Number
import Zooffice.Java.Split
import Zooffice.Java.Throwable
/-!
# The peers of a clustered controller

`DynamicCacheConfig` makes the URLs under which the distributed caches of
the other controllers are reached, out of the cluster URIs that the
configuration lists. What the names resolve to is a parameter.
-/


namespace Zooffice

/-- `InetAddresses.isInetAddress`, and the address that
`InetAddress.getByName` finds for a host, if it knows it. -/
structure Network where
  isInetAddress : Text → Bool
  getHostAddress : Text → Option Text

/-- What `createCacheProperties` reads of the configuration. -/
structure ClusterConfig where
  clusterUris : Text
  currentIP : Text
  cacheListenerPort : Int

namespace ClusterConfig

/-- `Config.getClusterURIs`. -/
def getClusterURIs (config : ClusterConfig) : List Text := splitTokens config.clusterUris ';'

/-- An address and a port, with a colon between them. -/
def withPort (ip : Text) (port : Int) : Text := ip ++ ':' :: (toString port).toList

/-- The text that the URIs are compared with. -/
def current (config : ClusterConfig) : Text := withPort config.currentIP config.cacheListenerPort

end ClusterConfig

namespace DynamicCacheConfig

/-- The address of a host, where it is known. -/
def resolve (net : Network) (host : Text) : Option Text :=
  if net.isInetAddress host then some host else net.getHostAddress host

/-- The URL of one cache at a peer. -/
def rmiUrl (ip : Text) (port : Int) (cacheName : Text) : Text :=
  '/' :: '/' :: ClusterConfig.withPort ip port ++ '/' :: cacheName

/-- The port, from the pieces of a cluster URI behind its host. -/
def portOf (clusterListenerPort : Int) : List Text → Int
  | [] => clusterListenerPort
  | port :: _ => toInt port clusterListenerPort

/-- What the loop of `createCacheProperties` adds for one cluster URI. -/
def urisOf (net : Network) (config : ClusterConfig) (replicatedCacheNames : List Text)
    (ip : Text) : Except Throwable (List Text) :=
  if ip = config.current then .ok []
  else
    match splitTokens ip ':' with
    | [] => .error ⟨.indexOutOfBounds, some "0"⟩
    | host :: rest =>
        match resolve net host with
        -- the host is not known: the URI is skipped
        | none => .ok []
        | some ip =>
            .ok (replicatedCacheNames.map (rmiUrl ip (portOf config.cacheListenerPort rest)))

/-- The list `uris` of `createCacheProperties`. -/
def rmiUrls (net : Network) (config : ClusterConfig) (replicatedCacheNames : List Text) :
    Except Throwable (List Text) := do
  let uris ← config.getClusterURIs.mapM (urisOf net config replicatedCacheNames)
  return uris.flatten

/-- `createCacheProperties`. -/
def createCacheProperties (net : Network) (config : ClusterConfig)
    (replicatedCacheNames : List Text) : Except Throwable Text := do
  let uris ← rmiUrls net config replicatedCacheNames
  return "peerDiscovery=manual,rmiUrls=".toList ++ ['|'].intercalate uris

end DynamicCacheConfig

end Zooffice
