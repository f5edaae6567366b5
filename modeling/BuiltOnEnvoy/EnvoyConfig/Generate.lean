import BuiltOnEnvoy.EnvoyConfig.Filters

/-!
# The configuration of Envoy

The filters of all extensions in their order, each between its native filters,
and the full configuration around them: one HTTP connection manager behind the
network filters of the main listener, which ends with the router.
-/

namespace BuiltOnEnvoy.EnvoyConfig

open Foundations

structure ConfigGenerationParams where
  adminAddress : String
  listenerPort : ℕ
  dirs : Extensions.Directories
  extensions : List Manifest
  configs : List String := []
  filterTypes : List String := []
  nativeHTTPFiltersBefore : List String := []
  nativeHTTPFiltersAfter : List String := []
  clusters : List String := []
  clustersInsecure : List String := []
  clustersJSON : List String := []
  testUpstreamHost : String := ""
  testUpstreamCluster : String := ""
  listenerTLSCert : String := ""
  listenerTLSKey : String := ""

/-- The value of a flag for the extension at a position; no value is the empty one. -/
def atPosition (values : List String) (i : ℕ) : String := values.getD i ""

def ConfigGenerationParams.nativeOverride (params : ConfigGenerationParams) (i : ℕ) :
    Side → String
  | .before => atPosition params.nativeHTTPFiltersBefore i
  | .after => atPosition params.nativeHTTPFiltersAfter i

def buildTestUpstreamCluster (name hostname : String) (port : ℕ) (tls : Bool) : Cluster :=
  .strictDns name hostname port tls

def parseCluster (lib : Library) (shortSpec : String) (tls : Bool) : Except String Cluster :=
  match lib.splitHostPort shortSpec with
  | .error _ =>
    .error ("invalid cluster spec " ++ lib.quote shortSpec ++ ": must be in the format host:" ++
      if tls then "tlsPort" else "port")
  | .ok (host, portStr) => do
    let port ← (lib.parseUint32 portStr).mapError ("invalid port in cluster short format: " ++ ·)
    return buildTestUpstreamCluster shortSpec host port tls

def parseJSONCluster (lib : Library) (spec : String) : Except String Cluster :=
  (lib.unmarshalCluster spec).mapError ("invalid JSON cluster spec: " ++ ·)

/-- The clusters of one of the three flags. -/
def parseClusters (flag : String) (parse : String → Except String Cluster)
    (specs : List String) : Except Failure (List Cluster) :=
  collect (fun i spec => wrapError ("failed to parse --" ++ flag ++ "[" ++ toString i ++ "]: ")
    (parse spec)) specs

/-- An extension with several filter types needs the choice of one. -/
def selectFilterType (lib : Library) (ext : Manifest) (override : String) :
    Except Failure Manifest :=
  if ext.filterTypes.length > 1 then
    if override ≠ "" then
      if .ofString override ∈ ext.filterTypes then
        .ok { ext with filterTypes := [.ofString override] }
      else
        .error (.error ("invalid filter type override " ++ lib.quote override ++
          " for extension " ++ lib.quote ext.name ++
          ": not one of the manifest-defined filter types " ++ showFilterTypes ext.filterTypes))
    else
      .error (.error ("extension " ++ lib.quote ext.name ++
        " defines multiple filter types but no filter-type override was provided for its " ++
        "position; filter types: " ++ showFilterTypes ext.filterTypes))
  else .ok ext

/-- One iteration over the extensions. -/
def generateExtension (lib : Library) (params : ConfigGenerationParams) (i : ℕ)
    (ext : Manifest) : Except Failure ExtensionResources := do
  let ext ← selectFilterType lib ext (atPosition params.filterTypes i)
  let resources ←
    (generateFilterConfig lib params.dirs ext (atPosition params.configs i)).mapError
      (Failure.wrap ("failed to generate filter config for extension " ++
        lib.quote ext.name ++ ": "))
  let nativeBefore ← nativeFilters lib ext .before (params.nativeOverride i .before)
  let nativeAfter ← nativeFilters lib ext .after (params.nativeOverride i .after)
  return { resources with
    httpFilters := nativeBefore ++ resources.httpFilters ++ nativeAfter }

def generateConfig (lib : Library) (params : ConfigGenerationParams) :
    Except Failure ExtensionResources := do
  let parts ← collect (generateExtension lib params) params.extensions
  let clusters ← parseClusters "cluster" (parseCluster lib · true) params.clusters
  let insecure ← parseClusters "cluster-insecure" (parseCluster lib · false)
    params.clustersInsecure
  let json ← parseClusters "cluster-json" (parseJSONCluster lib) params.clustersJSON
  return {
    httpFilters := parts.flatMap (·.httpFilters)
    networkFilters := parts.flatMap (·.networkFilters)
    listenerFilters := parts.flatMap (·.listenerFilters)
    udpListenerFilters := parts.flatMap (·.udpListenerFilters)
    clusters := parts.flatMap (·.clusters) ++ clusters ++ insecure ++ json }

structure RouteAction where
  cluster : String
  hostRewriteLiteral : Option String
  deriving DecidableEq

/-- The connection manager; its only route leads every request to the action. -/
structure HttpConnectionManager where
  httpFilters : List HttpFilter
  route : RouteAction
  deriving DecidableEq

inductive NetworkFilter
  | dynamicModule (filter : ModuleFilter)
  | httpConnectionManager (hcm : HttpConnectionManager)
  deriving DecidableEq

inductive Protocol
  | tcp
  | udp
  deriving DecidableEq

/-- A listener on all addresses; the transport socket has the files of the
certificate and the key. -/
structure Listener where
  name : String
  protocol : Protocol
  port : ℕ
  filters : List NetworkFilter
  transportSocket : Option (String × String)
  listenerFilters : List ModuleFilter
  deriving DecidableEq

structure Bootstrap where
  adminHost : String
  adminPort : ℕ
  listeners : List Listener
  clusters : List Cluster
  deriving DecidableEq

def routerFilter : HttpFilter where
  name := "envoy.filters.http.router"
  typedConfig := some (.router [])

def buildRouteAction (clusterName hostRewrite : String) : RouteAction where
  cluster := clusterName
  hostRewriteLiteral := if hostRewrite ≠ "" then some hostRewrite else none

def buildHTTPConnectionManager (filters : List HttpFilter)
    (testUpstreamClusterName testUpstreamHostRewrite : String) : HttpConnectionManager where
  httpFilters := filters ++ [routerFilter]
  route := buildRouteAction testUpstreamClusterName testUpstreamHostRewrite

def buildDownstreamTLSTransportSocket (certFile keyFile : String) :
    Except Failure (String × String) :=
  if certFile = "" ∨ keyFile = "" then
    .error (.error "both the listener certificate and key must be provided")
  else .ok (certFile, keyFile)

/-- TLS on the listener, when one of its two files is given. -/
def listenerTLS (params : ConfigGenerationParams) : Except Failure (Option (String × String)) :=
  if params.listenerTLSCert ≠ "" ∨ params.listenerTLSKey ≠ "" then
    ((buildDownstreamTLSTransportSocket params.listenerTLSCert params.listenerTLSKey).mapError
      (Failure.wrap "failed to build listener TLS config: ")).map some
  else .ok none

/-- Where the test traffic goes: the cluster, the host that is written into its
requests and the cluster that is added. -/
structure Upstream where
  clusterName : String
  hostRewrite : String
  newCluster : Option Cluster

def testUpstream (lib : Library) (params : ConfigGenerationParams) (clusters : List Cluster) :
    Except Failure Upstream :=
  if params.testUpstreamCluster ≠ "" then
    if clusters.any fun c => c.name = params.testUpstreamCluster then
      .ok ⟨params.testUpstreamCluster, "", none⟩
    else
      .error (.error ("cluster " ++ lib.quote params.testUpstreamCluster ++
        " specified via --test-upstream-cluster does not exist; configure it with --cluster, " ++
        "--cluster-insecure, or --cluster-json"))
  else
    let host := if params.testUpstreamHost = "" then "httpbin.org" else params.testUpstreamHost
    .ok ⟨"test-upstream", host,
      some (buildTestUpstreamCluster "test-upstream" host 443 true)⟩

def buildFullConfig (lib : Library) (params : ConfigGenerationParams) (upstream : Upstream)
    (gen : ExtensionResources) (listenerTLS : Option (String × String)) :
    Except Failure Bootstrap := do
  let (adminHost, adminPortStr) ←
    wrapError ("invalid admin address " ++ lib.quote params.adminAddress ++ ": ")
      (lib.splitHostPort params.adminAddress)
  let adminPort ← wrapError ("invalid admin port in " ++ lib.quote params.adminAddress ++ ": ")
    (lib.parseUint32 adminPortStr)
  let hcm := buildHTTPConnectionManager gen.httpFilters upstream.clusterName upstream.hostRewrite
  let main : Listener :=
    { name := "main"
      protocol := .tcp
      port := params.listenerPort
      filters := gen.networkFilters.map .dynamicModule ++ [.httpConnectionManager hcm]
      transportSocket := listenerTLS
      listenerFilters := gen.listenerFilters }
  let udp : Listener :=
    { name := "udp"
      protocol := .udp
      port := params.listenerPort
      filters := []
      transportSocket := none
      listenerFilters := gen.udpListenerFilters }
  return {
    adminHost := adminHost
    adminPort := adminPort
    listeners := if gen.udpListenerFilters ≠ [] then [main, udp] else [main]
    clusters := upstream.newCluster.toList ++ gen.clusters }

/-- `FullConfigRenderer`, before the result is written as YAML. -/
def renderFullConfig (lib : Library) (params : ConfigGenerationParams)
    (gen : ExtensionResources) : Except Failure Bootstrap := do
  let upstream ← testUpstream lib params gen.clusters
  let tls ← listenerTLS params
  (buildFullConfig lib params upstream gen tls).mapError
    (Failure.wrap "failed to build config: ")

/-- `RenderConfig` with the full renderer. -/
def renderConfig (lib : Library) (params : ConfigGenerationParams) :
    Except Failure Bootstrap := do
  let gen ← (generateConfig lib params).mapError
    (Failure.wrap "failed to generate config resources: ")
  (renderFullConfig lib params gen).mapError (Failure.wrap "failed to render config: ")

def NetworkFilter.connectionManager? : NetworkFilter → Option HttpConnectionManager
  | .dynamicModule _ => none
  | .httpConnectionManager hcm => some hcm

/-- The connection managers of all listeners. -/
def Bootstrap.connectionManagers (config : Bootstrap) : List HttpConnectionManager :=
  config.listeners.flatMap fun listener => listener.filters.filterMap (·.connectionManager?)

end BuiltOnEnvoy.EnvoyConfig
