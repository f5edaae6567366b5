import BuiltOnEnvoy.EnvoyConfig.Generate
import BuiltOnEnvoy.Foundations.TextParsing

/-!
# The terminal filter of the connection manager

Envoy wants exactly one terminal filter, at the end of the chain; which filter is
terminal depends on its typed configuration alone. The generated filters never
are, so the router at the end is the only one unless a native filter is terminal
under a name that no check looks for.
-/

namespace BuiltOnEnvoy.EnvoyConfig

open Foundations List

def TypedConfig.isTerminal : TypedConfig → Bool
  | .router _ | .mcpRouter _ => true
  | .dynamicModule _ terminalFilter => terminalFilter
  | .lua _ | .wasm _ _ _ | .extProc _ _ _ _ | .other _ _ => false

def HttpFilter.isTerminal (f : HttpFilter) : Bool :=
  f.typedConfig.any TypedConfig.isTerminal

/-- One terminal filter, and it is the last one. -/
def OneTerminalLast (filters : List HttpFilter) : Prop :=
  filters.countP HttpFilter.isTerminal = 1 ∧ filters.getLast?.any HttpFilter.isTerminal

instance (filters : List HttpFilter) : Decidable (OneTerminalLast filters) :=
  inferInstanceAs (Decidable (_ ∧ _))

/-- A native filter that takes effect, of a manifest or of its override, is terminal. -/
def NativeTerminal (lib : Library) (params : ConfigGenerationParams) : Prop :=
  ∃ i ext side filters, params.extensions[i]? = some ext ∧
    nativeFilters lib ext side (params.nativeOverride i side) = .ok filters ∧
    ∃ f ∈ filters, f.isTerminal

theorem oneTerminalLast_append_router (filters : List HttpFilter) :
    OneTerminalLast (filters ++ [routerFilter]) ↔ ¬∃ f ∈ filters, f.isTerminal := by
  have hrouter : routerFilter.isTerminal = true := rfl
  rw [OneTerminalLast, getLast?_concat, countP_append]
  simp [hrouter, countP_eq_zero]

/-- No HTTP filter among the resources is terminal. -/
def ExtensionResources.Passing (resources : ExtensionResources) : Prop :=
  ∀ f ∈ resources.httpFilters, f.isTerminal = false

theorem passing_singleton {name : String} {typedConfig : TypedConfig} {clusters : List Cluster}
    (h : typedConfig.isTerminal = false) :
    ExtensionResources.Passing
      { httpFilters := [⟨name, some typedConfig⟩], clusters := clusters } := by
  intro f hf
  rw [mem_singleton.mp hf]
  exact h

variable {resources : ExtensionResources}

theorem addModuleFilter_passing {m : Manifest} {module : DynamicModule} (h : resources.Passing)
    (type : FilterType) :
    (addModuleFilter m module resources type).Passing := by
  have happend : ∀ f ∈ resources.httpFilters ++
      [(⟨m.name, some (.dynamicModule module false)⟩ : HttpFilter)], f.isTerminal = false := by
    intro f hf
    rcases mem_append.mp hf with hf | hf
    · exact h f hf
    · rw [mem_singleton.mp hf]
      rfl
  cases type with
  | network | listener | udpListener => exact h
  | http | other name => exact happend

theorem generateDynamicModule_passing (m : Manifest) (config : String) :
    (generateDynamicModule m config).Passing := by
  have hfold : ∀ (types : List FilterType) (resources : ExtensionResources),
      resources.Passing →
      (types.foldl (addModuleFilter m (dynamicModule m config)) resources).Passing := by
    intro types
    induction types with
    | nil =>
      intro resources h
      exact h
    | cons type types ih =>
      intro resources h
      exact ih _ (addModuleFilter_passing h type)
  exact hfold m.filterTypes {} (by simp [ExtensionResources.Passing])

variable {lib : Library}

theorem generateFilterConfig_passing {dirs : Extensions.Directories} {m : Manifest}
    {config : String} (h : generateFilterConfig lib dirs m config = .ok resources) :
    resources.Passing := by
  unfold generateFilterConfig at h
  split at h
  · obtain ⟨code, -, h⟩ := bind_eq_ok h
    cases h
    exact passing_singleton rfl
  · cases h
    exact passing_singleton rfl
  · cases h
    exact generateDynamicModule_passing m config
  · split_ifs at h
    · cases h
      exact generateDynamicModule_passing m config
    · unfold generateComposer at h
      obtain ⟨configValue, -, h⟩ := bind_eq_ok h
      cases h
      exact passing_singleton rfl
  · unfold generateExtProc at h
    split at h
    · cases h
    · obtain ⟨messageTimeout, -, h⟩ := bind_eq_ok h
      cases h
      exact passing_singleton rfl
  · cases h
  · cases h

theorem nativeFilters_of_selectFilterType {ext chosen : Manifest} {override : String}
    (h : selectFilterType lib ext override = .ok chosen) (side : Side) (native : String) :
    nativeFilters lib chosen side native = nativeFilters lib ext side native := by
  unfold selectFilterType at h
  split_ifs at h
  · cases h
    rfl
  · cases h
    rfl

variable {params : ConfigGenerationParams} {ext : Manifest}

/-- An accepted extension contributes its native filters around filters that are not terminal. -/
theorem generateExtension_ok {i : ℕ} (h : generateExtension lib params i ext = .ok resources) :
    ∃ nativeBefore own nativeAfter,
      nativeFilters lib ext .before (params.nativeOverride i .before) = .ok nativeBefore ∧
      nativeFilters lib ext .after (params.nativeOverride i .after) = .ok nativeAfter ∧
      resources.httpFilters = nativeBefore ++ own ++ nativeAfter ∧
      ∀ f ∈ own, f.isTerminal = false := by
  obtain ⟨chosen, hchosen, h⟩ := bind_eq_ok h
  obtain ⟨generated, hgenerated, h⟩ := bind_eq_ok h
  obtain ⟨nativeBefore, hbefore, h⟩ := bind_eq_ok h
  obtain ⟨nativeAfter, hafter, h⟩ := bind_eq_ok h
  rw [nativeFilters_of_selectFilterType hchosen] at hbefore hafter
  cases h
  exact ⟨nativeBefore, generated.httpFilters, nativeAfter, hbefore, hafter, rfl,
    generateFilterConfig_passing (mapError_eq_ok.mp hgenerated)⟩

/-- A terminal filter of an accepted extension is one of its native filters. -/
theorem generateExtension_terminal {i : ℕ}
    (h : generateExtension lib params i ext = .ok resources) :
    (∃ f ∈ resources.httpFilters, f.isTerminal) ↔
      ∃ side filters, nativeFilters lib ext side (params.nativeOverride i side) = .ok filters ∧
        ∃ f ∈ filters, f.isTerminal := by
  obtain ⟨nativeBefore, own, nativeAfter, hbefore, hafter, heq, hown⟩ := generateExtension_ok h
  rw [heq]
  constructor
  · rintro ⟨f, hf, hterminal⟩
    rcases mem_append.mp hf with hf | hf
    · rcases mem_append.mp hf with hf | hf
      · exact ⟨.before, nativeBefore, hbefore, f, hf, hterminal⟩
      · rw [hown f hf] at hterminal
        cases hterminal
    · exact ⟨.after, nativeAfter, hafter, f, hf, hterminal⟩
  · rintro ⟨side, filters, hfilters, f, hf, hterminal⟩
    cases side with
    | before =>
      rw [hbefore, Except.ok.injEq] at hfilters
      exact ⟨f, by simp [hfilters, hf], hterminal⟩
    | after =>
      rw [hafter, Except.ok.injEq] at hfilters
      exact ⟨f, by simp [hfilters, hf], hterminal⟩

theorem generateConfig_terminal {gen : ExtensionResources}
    (h : generateConfig lib params = .ok gen) :
    (∃ f ∈ gen.httpFilters, f.isTerminal) ↔ NativeTerminal lib params := by
  obtain ⟨parts, hparts, h⟩ := bind_eq_ok h
  obtain ⟨clusters, -, h⟩ := bind_eq_ok h
  obtain ⟨insecure, -, h⟩ := bind_eq_ok h
  obtain ⟨json, -, h⟩ := bind_eq_ok h
  cases h
  constructor
  · rintro ⟨f, hf, hterminal⟩
    obtain ⟨resources, hmem, hf⟩ := mem_flatMap.mp hf
    obtain ⟨i, ext, hext, hgen⟩ := (mem_collect hparts).mp hmem
    obtain ⟨side, filters, hnative⟩ :=
      (generateExtension_terminal hgen).mp ⟨f, hf, hterminal⟩
    exact ⟨i, ext, side, filters, hext, hnative⟩
  · rintro ⟨i, ext, side, filters, hext, hnative⟩
    obtain ⟨resources, hgen⟩ := collect_defined hparts hext
    obtain ⟨f, hf, hterminal⟩ :=
      (generateExtension_terminal hgen).mpr ⟨side, filters, hnative⟩
    have hmem : resources ∈ parts := (mem_collect hparts).mpr ⟨i, ext, hext, hgen⟩
    exact ⟨f, mem_flatMap.mpr ⟨resources, hmem, hf⟩, hterminal⟩

theorem buildFullConfig_connectionManagers {upstream : Upstream} {gen : ExtensionResources}
    {listenerTLS : Option (String × String)} {config : Bootstrap}
    (h : buildFullConfig lib params upstream gen listenerTLS = .ok config) :
    config.connectionManagers =
      [buildHTTPConnectionManager gen.httpFilters upstream.clusterName upstream.hostRewrite] := by
  obtain ⟨⟨adminHost, adminPortStr⟩, -, h⟩ := bind_eq_ok h
  obtain ⟨adminPort, -, h⟩ := bind_eq_ok h
  cases h
  unfold Bootstrap.connectionManagers
  split_ifs <;> simp [NetworkFilter.connectionManager?]

theorem renderConfig_connectionManagers {config : Bootstrap}
    (h : renderConfig lib params = .ok config) :
    ∃ gen hcm, generateConfig lib params = .ok gen ∧ config.connectionManagers = [hcm] ∧
      hcm.httpFilters = gen.httpFilters ++ [routerFilter] := by
  obtain ⟨gen, hgen, h⟩ := bind_eq_ok h
  obtain ⟨upstream, -, h⟩ := bind_eq_ok (mapError_eq_ok.mp h)
  obtain ⟨tls, -, h⟩ := bind_eq_ok h
  exact ⟨gen, _, mapError_eq_ok.mp hgen,
    buildFullConfig_connectionManagers (mapError_eq_ok.mp h), rfl⟩

/-- An accepted configuration has one connection manager. Exactly one of its filters is
terminal, the last one, when no native filter that takes effect is terminal by its typed
configuration, whatever its name. -/
theorem oneTerminalLast_iff {lib : Library} {params : ConfigGenerationParams}
    {config : Bootstrap} (h : renderConfig lib params = .ok config) :
    ∃ hcm, config.connectionManagers = [hcm] ∧
      (OneTerminalLast hcm.httpFilters ↔ ¬NativeTerminal lib params) := by
  obtain ⟨gen, hcm, hgen, hmanagers, hfilters⟩ := renderConfig_connectionManagers h
  have hterminal := generateConfig_terminal hgen
  refine ⟨hcm, hmanagers, ?_⟩
  rw [hfilters, oneTerminalLast_append_router, hterminal]

/-- The JSON of a native filter with an empty typed configuration of the given type. -/
def nativeJSON (name : String) (typeName : Bytes) : Bytes :=
  ascii "\x7b\"name\":\"" ++ ascii name ++ ascii "\",\"typed_config\":\x7b\"@type\":\"" ++
    ascii "type.googleapis.com/" ++ typeName ++ ascii "\"\x7d\x7d"

def nativeEntry (name : String) (typeName : Bytes) : Entry where
  entries := [("name", .text name),
    ("typed_config", .other "map[string]interface \x7b\x7d" typeName)]
  nodup := by simp

def routerName : Bytes := ascii "envoy.extensions.filters.http.router.v3.Router"

def corsName : Bytes := ascii "envoy.extensions.filters.http.cors.v3.Cors"

def corsFilter : HttpFilter :=
  ⟨"cors", some (.other "envoy.extensions.filters.http.cors.v3.Cors" [])⟩

/-- A library for lists of one filter, which has the typed configuration of the router or of the
CORS filter, and a file with such a list. -/
def plainLibrary : Library where
  quote text := "\"" ++ text ++ "\""
  readFile name :=
    if name = UnixPath.ofString "router.json" then
      .ok (ascii "[" ++ nativeJSON "envoy.filters.http.router" routerName ++ ascii "]")
    else .error "no such file or directory"
  textField _ := .error "string field contains invalid UTF-8"
  encode := ascii
  yamlToJSON data := .ok data
  unmarshalList data := .ok [data.tail.dropLast]
  marshalEntry entry :=
    match entry.get? "name", entry.get? "typed_config" with
    | some (.text name), some (.other _ typeName) => .ok (nativeJSON name typeName)
    | _, _ => .error "unsupported value"
  unmarshalHttpFilter raw :=
    if raw = nativeJSON "cors" corsName then .ok corsFilter
    else match ["audit", "envoy.filters.http.router"].find? (nativeJSON · routerName = raw) with
    | some name => .ok ⟨name, some (.router [])⟩
    | none => .error "unexpected token"
  mismatchedType _ := "mismatched message type"
  unmarshalStruct _ := .error "unexpected token"
  marshalPlugin _ _ _ := ""
  parseDuration _ := .error "invalid duration"
  splitHostPort text :=
    match splitHostPort text with
    | some parts => .ok parts
    | none => .error "missing port in address"
  parseUint32 text :=
    match parseUint text.toList with
    | some n => if n < 2 ^ 32 then .ok n else .error "value out of range"
    | none => .error "invalid syntax"
  unmarshalCluster _ := .error "unexpected token"

def luaManifest (native : Option NativeHTTPFilters) : Manifest where
  name := "example"
  version := "1.0.0"
  type := .lua
  filterTypes := [.http]
  lua := some ⟨"function envoy_on_request(handle) end", ""⟩
  nativeHTTPFilters := native

def luaParams (native : Option NativeHTTPFilters) (override : String) :
    ConfigGenerationParams where
  adminAddress := "127.0.0.1:9901"
  listenerPort := 10000
  dirs := ⟨"/home/user/.local/share"⟩
  extensions := [luaManifest native]
  nativeHTTPFiltersBefore := [override]

/-- The connection manager with the given filters before that of the extension. -/
def luaManager (native : List HttpFilter) : HttpConnectionManager where
  httpFilters :=
    native ++ [⟨"example", some (.lua "function envoy_on_request(handle) end")⟩, routerFilter]
  route := ⟨"test-upstream", some "httpbin.org"⟩

def luaConfig (native : List HttpFilter) : Bootstrap where
  adminHost := "127.0.0.1"
  adminPort := 9901
  listeners :=
    [{ name := "main"
       protocol := .tcp
       port := 10000
       filters := [.httpConnectionManager (luaManager native)]
       transportSocket := none
       listenerFilters := [] }]
  clusters := [.strictDns "test-upstream" "httpbin.org" 443 true]

/-- A native filter that is not terminal stands before the router. -/
theorem lua_oneTerminalLast :
    renderConfig plainLibrary (luaParams (some ⟨[nativeEntry "cors" corsName], []⟩) "") =
        .ok (luaConfig [corsFilter]) ∧
      (luaConfig [corsFilter]).connectionManagers = [luaManager [corsFilter]] ∧
      OneTerminalLast (luaManager [corsFilter]).httpFilters ∧
      ¬NativeTerminal plainLibrary
        (luaParams (some ⟨[nativeEntry "cors" corsName], []⟩) "") := by
  have hrender : renderConfig plainLibrary
      (luaParams (some ⟨[nativeEntry "cors" corsName], []⟩) "") =
        .ok (luaConfig [corsFilter]) := by
    decide +kernel
  have hlast : OneTerminalLast (luaManager [corsFilter]).httpFilters := by decide
  obtain ⟨hcm, hmanagers, hiff⟩ := oneTerminalLast_iff hrender
  have hmanager : (luaConfig [corsFilter]).connectionManagers = [luaManager [corsFilter]] := rfl
  cases hmanager.symm.trans hmanagers
  exact ⟨hrender, rfl, hlast, hiff.mp hlast⟩

/-- A router under another name in a valid manifest, and one under its own name in an
override, are both accepted: the connection manager then has two routers. -/
theorem second_router_accepted :
    (validateNativeHTTPFilters plainLibrary
        (luaManifest (some ⟨[nativeEntry "audit" routerName], []⟩)) = .ok () ∧
      renderConfig plainLibrary (luaParams (some ⟨[nativeEntry "audit" routerName], []⟩) "") =
        .ok (luaConfig [⟨"audit", some (.router [])⟩]) ∧
      (luaConfig [⟨"audit", some (.router [])⟩]).connectionManagers =
        [luaManager [⟨"audit", some (.router [])⟩]] ∧
      ¬OneTerminalLast (luaManager [⟨"audit", some (.router [])⟩]).httpFilters) ∧
    renderConfig plainLibrary (luaParams none "@router.json") =
      .ok (luaConfig [routerFilter]) ∧
    (luaConfig [routerFilter]).connectionManagers = [luaManager [routerFilter]] ∧
    ¬OneTerminalLast (luaManager [routerFilter]).httpFilters := by
  decide +kernel

end BuiltOnEnvoy.EnvoyConfig
