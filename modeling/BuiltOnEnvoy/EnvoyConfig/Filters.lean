import BuiltOnEnvoy.Extensions.Download
import BuiltOnEnvoy.Foundations.Bytes
import BuiltOnEnvoy.Foundations.Fallible

/-!
# The filters of an extension

What the configuration of Envoy is made of: the filter that each kind of
extension generates, and the native HTTP filters that a manifest declares or the
command line puts in their place. The protobuf, JSON and YAML libraries and the
file system are parameters.
-/

namespace BuiltOnEnvoy.EnvoyConfig

open Foundations

/-- A message inside another one. A message that no code looks into is kept encoded. -/
inductive AnyValue
  | stringValue (text : String)
  | other (typeName : String) (value : Bytes)
  deriving DecidableEq

structure DynamicModuleConfig where
  name : String
  loadGlobally : Bool
  metricsNamespace : String
  deriving DecidableEq

/-- The fields that the messages for the four filter chains share. -/
structure DynamicModule where
  dynamicModuleConfig : DynamicModuleConfig
  filterName : String
  filterConfig : Option AnyValue
  deriving DecidableEq

inductive HeaderSendMode
  | default
  | send
  | skip
  deriving DecidableEq

inductive BodySendMode
  | none
  | streamed
  | buffered
  | bufferedPartial
  deriving DecidableEq

structure ProcessingMode where
  requestHeaderMode : HeaderSendMode
  responseHeaderMode : HeaderSendMode
  requestBodyMode : BodySendMode
  responseBodyMode : BodySendMode
  deriving DecidableEq

/-- The typed configuration of an HTTP filter, by its message type. -/
inductive TypedConfig
  | router (value : Bytes)
  | mcpRouter (value : Bytes)
  | dynamicModule (module : DynamicModule) (terminalFilter : Bool)
  | lua (defaultSourceCode : String)
  | wasm (name : String) (filename : UnixPath) (configuration : Option AnyValue)
  | extProc (clusterName : String) (failureModeAllow : Bool)
      (processingMode : Option ProcessingMode) (messageTimeout : Option ℤ)
  | other (typeName : String) (value : Bytes)
  deriving DecidableEq

/-- Without a typed configuration the filter has none, or one that Envoy discovers. -/
structure HttpFilter where
  name : String
  typedConfig : Option TypedConfig
  deriving DecidableEq

/-- A dynamic module in one of the other filter chains. -/
structure ModuleFilter where
  name : String
  typedConfig : DynamicModule
  deriving DecidableEq

/-- A cluster: the server of an `ext_proc` extension on this host, a DNS name with
or without TLS, or one in JSON. -/
inductive Cluster
  | static (name : String) (port : ℕ)
  | strictDns (name hostname : String) (port : ℕ) (tls : Bool)
  | json (name : String) (value : Bytes)
  deriving DecidableEq

def Cluster.name : Cluster → String
  | .static name _ | .strictDns name _ _ _ | .json name _ => name

/-- Also `GeneratedConfigResources`, which has the same fields. -/
structure ExtensionResources where
  httpFilters : List HttpFilter := []
  clusters : List Cluster := []
  networkFilters : List ModuleFilter := []
  listenerFilters : List ModuleFilter := []
  udpListenerFilters : List ModuleFilter := []
  deriving DecidableEq

inductive FilterType
  | http
  | network
  | listener
  | udpListener
  | other (name : String)
  deriving DecidableEq

def FilterType.ofString : String → FilterType
  | "http" => .http
  | "network" => .network
  | "listener" => .listener
  | "udp_listener" => .udpListener
  | name => .other name

def FilterType.text : FilterType → String
  | .http => "http"
  | .network => "network"
  | .listener => "listener"
  | .udpListener => "udp_listener"
  | .other name => name

/-- The verb `%v` for a list of filter types. -/
def showFilterTypes (types : List FilterType) : String :=
  "[" ++ " ".intercalate (types.map FilterType.text) ++ "]"

def typeText : Extensions.ExtensionType → String
  | .lua => "lua"
  | .wasm => "wasm"
  | .rust => "rust"
  | .extProc => "ext_proc"
  | .go => "go"
  | .composer => "composer"
  | .other name => name

structure Lua where
  inline : String
  path : String

structure ExtProcProcessingMode where
  requestHeaderMode : String
  responseHeaderMode : String
  requestBodyMode : String
  responseBodyMode : String

structure ExtProc where
  grpcPort : ℤ
  failureModeAllow : Bool
  messageTimeout : String
  processingMode : Option ExtProcProcessingMode

/-- A value of a decoded YAML mapping; a value that is not a text is kept with the
name of its Go type. -/
inductive Value
  | text (text : String)
  | other (goType : String) (value : Bytes)
  deriving DecidableEq

abbrev Entry := GoMap String Value

inductive Side
  | before
  | after
  deriving DecidableEq

def Side.label : Side → String
  | .before => "before"
  | .after => "after"

structure NativeHTTPFilters where
  before : List Entry
  after : List Entry

def NativeHTTPFilters.entries (native : NativeHTTPFilters) : Side → List Entry
  | .before => native.before
  | .after => native.after

/-- The fields that the configuration depends on. -/
structure Manifest extends Extensions.Manifest where
  filterTypes : List FilterType := []
  lua : Option Lua := none
  extProc : Option ExtProc := none
  nativeHTTPFilters : Option NativeHTTPFilters := none
  path : String := ""
  remote : Bool := false
  sourceRegistry : String := ""
  sourceTag : String := ""

/-- An error of a library is its text. -/
structure Library where
  /-- The verb `%q`. -/
  quote : String → String
  readFile : UnixPath → Except String Bytes
  /-- The value of a text field of a message, whose encoding is checked. -/
  textField : Bytes → Except String String
  encode : String → Bytes
  yamlToJSON : Bytes → Except String Bytes
  unmarshalList : Bytes → Except String (List Bytes)
  marshalEntry : Entry → Except String Bytes
  unmarshalHttpFilter : Bytes → Except String HttpFilter
  /-- The error of `UnmarshalTo` when the message has another type. -/
  mismatchedType : TypedConfig → String
  unmarshalStruct : String → Except String Bytes
  /-- The JSON object for the plugin loader with the name, the URL and the configuration
  of a plugin, where no configuration is null, and without the strict check. -/
  marshalPlugin : String → String → Option Bytes → String
  parseDuration : String → Except String ℤ
  splitHostPort : String → Except String (String × String)
  /-- `strconv.ParseUint` for 32 bits. -/
  parseUint32 : String → Except String ℕ
  unmarshalCluster : String → Except String Cluster

/-- A call that does not return a configuration returns an error or panics. -/
inductive Failure
  | error (text : String)
  | nilDereference
  deriving DecidableEq

def Failure.wrap (lead : String) : Failure → Failure
  | .error text => .error (lead ++ text)
  | .nilDereference => .nilDereference

/-- `fmt.Errorf` with the error of a library at its end. -/
def wrapError {α : Type} (lead : String) (result : Except String α) : Except Failure α :=
  result.mapError fun err => .error (lead ++ err)

def pathText (p : UnixPath) : String :=
  if p.rooted then "/" ++ "/".intercalate p.parts
  else if p.parts = [] then "."
  else "/".intercalate p.parts

def localCacheExtension (dirs : Extensions.Directories) (m : Extensions.Manifest) : UnixPath :=
  let dir := Extensions.localCacheExtensionDir dirs m
  let lib := "lib" ++ Extensions.moduleName m ++ ".so"
  match m.type with
  | .go => dir.child (if m.cShared then lib else "plugin.so")
  | .rust | .composer => dir.child lib
  | .wasm => dir.child "plugin.wasm"
  | .extProc => dir.child "ext_proc-server"
  | .lua | .other _ => dir.child "plugin.so"

def luaCode (lib : Library) (m : Manifest) : Except Failure String :=
  match m.lua with
  | none => .error .nilDereference
  | some lua =>
    if lua.path ≠ "" then do
      let absPath := (UnixPath.ofString m.path).dir.clean.child lua.path
      let bytes ← wrapError ("failed to load Lua file " ++ lib.quote lua.path ++ ": ")
        (lib.readFile absPath)
      wrapError "failed to marshal Lua filter to Any: " (lib.textField bytes)
    else .ok lua.inline

def generateLua (lib : Library) (m : Manifest) : Except Failure ExtensionResources := do
  let code ← luaCode lib m
  return { httpFilters := [⟨m.name, some (.lua code)⟩] }

/-- The configuration string, which is passed on as it is. -/
def anyConfig (config : String) : Option AnyValue :=
  if config ≠ "" then some (.stringValue config) else none

def generateWasm (dirs : Extensions.Directories) (m : Manifest) (config : String) :
    ExtensionResources where
  httpFilters :=
    [⟨m.name, some (.wasm m.name (localCacheExtension dirs m.toManifest) (anyConfig config))⟩]

/-- The dynamic module of an extension; the composer is shared by all of its filters. -/
def dynamicModule (m : Manifest) (config : String) : DynamicModule :=
  let moduleName := Extensions.moduleName m.toManifest
  { dynamicModuleConfig :=
      { name := moduleName
        loadGlobally := moduleName = "composer" ∨ moduleName = "composer-lite"
        metricsNamespace := "builtonenvoy" }
    filterName := m.name
    filterConfig := anyConfig config }

/-- One iteration over the filter types; an unknown type is that of an HTTP filter. -/
def addModuleFilter (m : Manifest) (module : DynamicModule) (resources : ExtensionResources) :
    FilterType → ExtensionResources
  | .network =>
    { resources with networkFilters := resources.networkFilters ++ [⟨m.name, module⟩] }
  | .listener =>
    { resources with listenerFilters := resources.listenerFilters ++ [⟨m.name, module⟩] }
  | .udpListener =>
    { resources with udpListenerFilters := resources.udpListenerFilters ++ [⟨m.name, module⟩] }
  | .http | .other _ =>
    { resources with httpFilters :=
        resources.httpFilters ++ [⟨m.name, some (.dynamicModule module false)⟩] }

def generateDynamicModule (m : Manifest) (config : String) : ExtensionResources :=
  m.filterTypes.foldl (addModuleFilter m (dynamicModule m config)) {}

/-- The configuration of a plugin, which must be a JSON object if there is one. -/
def pluginConfig (lib : Library) (config : String) : Except Failure (Option Bytes) :=
  if config ≠ "" then
    (wrapError "failed to unmarshal config JSON string to Struct: "
      (lib.unmarshalStruct config)).map some
  else .ok none

def generateComposer (lib : Library) (dirs : Extensions.Directories) (m : Manifest)
    (config : String) : Except Failure ExtensionResources := do
  let pluginURL :=
    if m.remote ∧ m.sourceRegistry ≠ "" then
      "oci://" ++ Extensions.repositoryName m.sourceRegistry m.name ++ ":" ++ m.sourceTag
    else "file://" ++ pathText (localCacheExtension dirs m.toManifest)
  let configValue ← pluginConfig lib config
  let module : DynamicModule :=
    { dynamicModuleConfig := ⟨"composer-lite", true, "builtonenvoy"⟩
      filterName := "goplugin-loader"
      filterConfig := some (.stringValue (lib.marshalPlugin m.name pluginURL configValue)) }
  return { httpFilters := [⟨m.name, some (.dynamicModule module false)⟩] }

def extProcHeaderSendMode : String → HeaderSendMode
  | "SEND" => .send
  | "SKIP" => .skip
  | _ => .default

def extProcBodySendMode : String → BodySendMode
  | "BUFFERED" => .buffered
  | "STREAMED" => .streamed
  | "BUFFERED_PARTIAL" => .bufferedPartial
  | _ => .none

def extProcProcessingMode (m : ExtProcProcessingMode) : ProcessingMode where
  requestHeaderMode := extProcHeaderSendMode m.requestHeaderMode
  responseHeaderMode := extProcHeaderSendMode m.responseHeaderMode
  requestBodyMode := extProcBodySendMode m.requestBodyMode
  responseBodyMode := extProcBodySendMode m.responseBodyMode

def ExtProc.timeout (lib : Library) (cfg : ExtProc) : Except Failure (Option ℤ) :=
  if cfg.messageTimeout ≠ "" then
    (wrapError ("invalid messageTimeout " ++ lib.quote cfg.messageTimeout ++ ": ")
      (lib.parseDuration cfg.messageTimeout)).map some
  else .ok none

def generateExtProc (lib : Library) (m : Manifest) : Except Failure ExtensionResources :=
  match m.extProc with
  | none => .error .nilDereference
  | some cfg => do
    let clusterName := m.name ++ "-ext-proc"
    let port := if cfg.grpcPort = 0 then 50051 else cfg.grpcPort
    let messageTimeout ← cfg.timeout lib
    return {
      httpFilters :=
        [⟨m.name, some (.extProc clusterName cfg.failureModeAllow
          (cfg.processingMode.map extProcProcessingMode) messageTimeout)⟩]
      -- The port is converted to 32 bits without a check.
      clusters := [.static clusterName (port % 2 ^ 32).toNat] }

/-- `GenerateFilterConfig`. -/
def generateFilterConfig (lib : Library) (dirs : Extensions.Directories) (m : Manifest)
    (config : String) : Except Failure ExtensionResources :=
  match m.type with
  | .lua => generateLua lib m
  | .wasm => .ok (generateWasm dirs m config)
  | .rust => .ok (generateDynamicModule m config)
  | .go =>
    if m.cShared then .ok (generateDynamicModule m config)
    else generateComposer lib dirs m config
  | .extProc => generateExtProc lib m
  | .composer | .other _ =>
    .error (.error ("unsupported extension type: " ++ typeText m.type))

/-- The filter is recognised by its name, whose typed configuration must then be
that of a dynamic module. -/
def rejectTerminalDynamicModule (lib : Library) (f : HttpFilter) : Except String Unit :=
  if f.name ≠ "envoy.filters.http.dynamic_modules" then .ok ()
  else
    match f.typedConfig with
    | none => .ok ()
    | some (.dynamicModule _ terminalFilter) =>
      if terminalFilter then
        .error ("envoy.filters.http.dynamic_modules with terminal_filter=true is not supported " ++
          "in nativeHttpFilters")
      else .ok ()
    | some typedConfig =>
      .error ("unmarshal dynamic_modules typed_config: " ++ lib.mismatchedType typedConfig)

def checkNative (lib : Library) (raw : Bytes) : Except String HttpFilter := do
  let filter ← lib.unmarshalHttpFilter raw
  rejectTerminalDynamicModule lib filter
  return filter

/-- The error of an entry, after its place in the list. -/
def atEntry (label : String) (i : ℕ) (err : String) : String :=
  label ++ "[" ++ toString i ++ "]: " ++ err

/-- The text of an override, or of the file that it names. -/
def overrideData (lib : Library) (raw : String) : Except String Bytes :=
  if raw.toList.head? = some '@' then
    let name := String.ofList raw.toList.tail
    (lib.readFile (UnixPath.ofString name)).mapError (("read file " ++ lib.quote name ++ ": ") ++ ·)
  else .ok (lib.encode raw)

def parseNativeHTTPFiltersOverride (lib : Library) (raw : String) :
    Except String (List HttpFilter) := do
  let data ← overrideData lib raw
  let jsonData ← (lib.yamlToJSON data).mapError ("YAML to JSON: " ++ ·)
  let entries ← (lib.unmarshalList jsonData).mapError ("unmarshal filter list: " ++ ·)
  collect (fun i entry => (checkNative lib entry).mapError (atEntry "entry" i)) entries

def parseNativeHTTPFiltersFromManifest (lib : Library) (entries : List Entry) (side : Side) :
    Except String (List HttpFilter) :=
  collect (fun i entry => Except.mapError (atEntry side.label i) do
    let raw ← (lib.marshalEntry entry).mapError ("marshal entry: " ++ ·)
    checkNative lib raw) entries

/-- `parseNativeHTTPFiltersBefore` and `parseNativeHTTPFiltersAfter`. -/
def parseNativeHTTPFilters (lib : Library) (m : Manifest) (side : Side) :
    Except String (List HttpFilter) :=
  match m.nativeHTTPFilters with
  | none => .ok []
  | some native => parseNativeHTTPFiltersFromManifest lib (native.entries side) side

/-- The native filters on one side of an extension: those of a non-empty override
in place of those of the manifest. -/
def nativeFilters (lib : Library) (m : Manifest) (side : Side) (override : String) :
    Except Failure (List HttpFilter) :=
  if override ≠ "" then
    wrapError ("failed to parse --native-http-filter-" ++ side.label ++ " for extension " ++
      lib.quote m.name ++ ": ") (parseNativeHTTPFiltersOverride lib override)
  else
    wrapError ("failed to parse nativeHttpFilters." ++ side.label ++ " for extension " ++
      lib.quote m.name ++ ": ") (parseNativeHTTPFilters lib m side)

def hasHTTPAnchor (m : Manifest) : Bool :=
  match m.type with
  | .lua | .go | .extProc => true
  | .rust => m.filterTypes = [] ∨ .http ∈ m.filterTypes
  | .wasm | .composer | .other _ => false

def invalidNative (text : String) : String := "invalid nativeHttpFilters: " ++ text

/-- The checks of one entry; the result is its name. -/
def entryName (lib : Library) (side : Side) (i : ℕ) (entry : Entry) : Except String String :=
  let place := "nativeHttpFilters." ++ side.label ++ "[" ++ toString i ++ "]"
  match entry.get? "name" with
  | none => .error (invalidNative (place ++ " is missing a name"))
  | some (.other goType _) =>
    .error (invalidNative (place ++ ".name must be a string, got " ++ goType))
  | some (.text name) =>
    if name = "" then .error (invalidNative (place ++ ".name is empty"))
    else if name = "envoy.filters.http.router" then
      .error (invalidNative (place ++ ": " ++ lib.quote name ++
        " is appended by BOE and cannot be declared"))
    else if name = "envoy.filters.http.mcp_router" then
      .error (invalidNative (place ++ ": " ++ lib.quote name ++
        " is a terminal router replacement and is not supported"))
    else .ok name

/-- The loop over one list, with the names seen before. -/
def checkEntries (lib : Library) (side : Side) : ℕ → List Entry → List String →
    Except String (List String)
  | _, [], seen => .ok seen
  | i, entry :: rest, seen => do
    let name ← entryName lib side i entry
    if name ∈ seen then
      .error (invalidNative ("nativeHttpFilters contains duplicate name " ++ lib.quote name))
    else checkEntries lib side (i + 1) rest (name :: seen)

def validateNativeHTTPFilters (lib : Library) (m : Manifest) : Except String Unit :=
  match m.nativeHTTPFilters with
  | none => .ok ()
  | some native =>
    if !hasHTTPAnchor m then
      if m.type = .wasm then
        .error (invalidNative ("nativeHttpFilters is not supported on " ++
          lib.quote (typeText m.type) ++ " extensions"))
      else
        .error (invalidNative ("nativeHttpFilters requires an extension that generates an HTTP " ++
          "filter; " ++ lib.quote (typeText m.type) ++ " with filterTypes " ++
          showFilterTypes m.filterTypes ++ " has no HTTP anchor"))
    else do
      let seen ← checkEntries lib .before 0 native.before []
      let _ ← checkEntries lib .after 0 native.after seen
      return ()

end BuiltOnEnvoy.EnvoyConfig
