import Beluga.Apisix.Plugins

/-! # Route entries

The global rules and plugin configs of all documents, and the entries of ApisixRoutes, Ingresses and
route files in ConfigMaps with their effective plugins. -/

namespace Apisix

open Py

section Extract

variable (rt : Runtime)

def shown (v : Value) : String := v.text rt.py

/-- `yaml.safe_load(text)`, where a `YAMLError` becomes a `ValueError`. -/
def loadYaml (text : String) (failed : String → String) : Try Value :=
  match rt.safeLoad text with
  | .error (.invalid exc) => .error (.invalid (failed exc))
  | result => result

/-- The namespace and the name in `doc.get("metadata") or {}`. -/
def metadataOf (doc : Entries) : Try (Value × Value) := do
  let metadata ← entries (orElse (get doc "metadata") (.dict []))
  .ok (getD metadata "namespace" (.str "default"), getD metadata "name" (.str ""))

/-- `{ns}/{name}`. -/
def objectName (ns name : Value) : String := shown rt ns ++ "/" ++ shown rt name

/-! ## Global rules and plugin configs -/

structure PluginConfig where
  ns : Value
  name : Value
  plugins : List Plugin

structure Globals where
  plugins : List Plugin := []
  configs : List PluginConfig := []

def Globals.join (parts : List Globals) : Globals where
  plugins := parts.flatMap (·.plugins)
  configs := parts.flatMap (·.configs)

def namedConfig (ns name : Value) (plugins : List Plugin) : Try Globals := do
  let ns ← hashed ns
  let name ← hashed name
  .ok { configs := [⟨ns, name, plugins⟩] }

/-- `(doc.get("spec") or {}).get("plugins")`. -/
def specPlugins (doc : Entries) : Try Value := do
  let spec ← entries (orElse (get doc "spec") (.dict []))
  .ok (get spec "plugins")

def globalRule (context : String) (item : Value × ℕ) : Try Globals :=
  match item.1 with
  | .dict rule => do
      let plugins ← normalize_plugin_list (get rule "plugins")
        (context ++ " global_rules[" ++ toString item.2 ++ "]")
      .ok { plugins }
  | _ => .error (.invalid (context ++ " global_rules[" ++ toString item.2 ++ "] is not a dict"))

def fileConfig (context : String) (ns : Value) (item : Value × ℕ) : Try Globals :=
  match item.1 with
  | .dict config =>
      let id := shown rt (orElse (orElse (get config "id") (get config "name")) (.str ""))
      if id = "" then
        .error (.invalid (context ++ " plugin_configs[" ++ toString item.2 ++ "] missing id/name"))
      else do
        let plugins ← normalize_plugin_list (get config "plugins")
          (context ++ " plugin_configs '" ++ id ++ "'")
        namedConfig ns (.str id) plugins
  | _ => .error (.invalid (context ++ " plugin_configs[" ++ toString item.2 ++ "] is not a dict"))

/-- The items of a field that is a list. -/
def listItems (v : Value) : List (Value × ℕ) :=
  match v with
  | .list items => items.zipIdx
  | _ => []

def fileGlobals (context : String) (ns : Value) (file : String × Value) : Try Globals :=
  match file.2 with
  | .str raw =>
      if hasText "global_rules" raw || hasText "plugin_configs" raw then do
        let content ← loadYaml rt raw fun exc =>
          context ++ " key '" ++ file.1 ++ "' invalid YAML: " ++ exc
        match content with
        | .dict content => do
            let rules ← (listItems (get content "global_rules")).mapM (globalRule context)
            let configs ← (listItems (get content "plugin_configs")).mapM (fileConfig rt context ns)
            .ok (.join (rules ++ configs))
        | _ => .ok {}
      else .ok {}
  | _ => .ok {}

def docGlobals (doc : Entries) : Try Globals := do
  let metadata ← metadataOf doc
  let ns := metadata.1
  let name := metadata.2
  let kind := get doc "kind"
  if kind.eq (.str "ApisixGlobalRule") then do
    let raw ← specPlugins doc
    let plugins ← normalize_plugin_list raw ("ApisixGlobalRule '" ++ objectName rt ns name ++ "'")
    .ok { plugins }
  else if kind.eq (.str "ApisixPluginConfig") then do
    let raw ← specPlugins doc
    let plugins ← normalize_plugin_list raw ("ApisixPluginConfig '" ++ objectName rt ns name ++ "'")
    namedConfig ns name plugins
  else if kind.eq (.str "ConfigMap") then
    match orElse (get doc "data") (.dict []) with
    | .dict data => do
        let parts ← data.mapM (fileGlobals rt ("ConfigMap '" ++ objectName rt ns name ++ "'") ns)
        .ok (.join parts)
    | _ => .ok {}
  else .ok {}

def extract_globals (docs : List Entries) : Try Globals := do
  let parts ← docs.mapM (docGlobals rt)
  .ok (.join parts)

/-- The plugins of a config, of the namespace before all others; the last one of a name counts. -/
def lookupConfig (configs : List PluginConfig) (ns name : Value) : Option (List Plugin) :=
  ((configs.reverse.find? fun config => config.ns.eq ns && config.name.eq name).or
    (configs.reverse.find? fun config => config.name.eq name)).map (·.plugins)

/-- The plugins of the config that is referred to, if one is. -/
def configPlugins (configs : List PluginConfig) (ns name : Value) (unknown : String) :
    Try (List Plugin) :=
  if !name.truthy then .ok []
  else if !(hashable ns && hashable name) then .error .raised
  else match lookupConfig configs ns name with
    | some plugins => .ok plugins
    | none => .error (.invalid unknown)

/-! ## Entries -/

inductive RouteKind where
  | ApisixRoute
  | Ingress
  | ConfigMapRoute
  deriving DecidableEq

structure Entry where
  identity : String
  kind : RouteKind
  ns : Value
  /-- The name of the object. -/
  name : Value
  entry_name : Option Value := none
  hosts : Value
  paths : Value
  plugins : List Value
  effective : List Plugin

/-- `[p["name"] for p in plugins]`. -/
def pluginNames (plugins : List Plugin) : List Value := plugins.map fun p => get p "name"

def httpEntry (g : Globals) (ns cr_name : Value) (item : Value × ℕ) : Try Entry :=
  match item.1 with
  | .dict rule => do
      let entry_name := getD rule "name" (.str ("rule-" ++ toString item.2))
      let identity := objectName rt ns cr_name ++ "/" ++ shown rt entry_name
      let rule_match ← entries (getD rule "match" (.dict []))
      let route_plugins ← normalize_plugin_list (orElse (get rule "plugins") (.list []))
        ("ApisixRoute '" ++ identity ++ "'")
      let pc_name := get rule "plugin_config_name"
      let pc_plugins ← configPlugins g.configs ns pc_name ("ApisixRoute '" ++ identity ++
        "' references unknown ApisixPluginConfig '" ++ shown rt pc_name ++ "'")
      let effective ← merge_plugins [g.plugins, pc_plugins, route_plugins]
      .ok {
        identity
        kind := .ApisixRoute
        ns
        name := cr_name
        entry_name := some entry_name
        hosts := orElse (get rule_match "hosts") (.list [])
        paths := orElse (get rule_match "paths") (.list [])
        plugins := pluginNames route_plugins
        effective }
  | _ => .error (.invalid ("ApisixRoute '" ++ objectName rt ns cr_name ++ "' spec.http[" ++
      toString item.2 ++ "] is not a dict"))

/-- The http entries of an ApisixRoute. -/
def apisixRouteEntries (g : Globals) (doc : Entries) : Try (List Entry) := do
  let metadata ← metadataOf doc
  let ns := metadata.1
  let cr_name := metadata.2
  let spec ← entries (orElse (get doc "spec") (.dict []))
  match get spec "http" with
  | .list (item :: items) => (item :: items).zipIdx.mapM (httpEntry rt g ns cr_name)
  | _ => .error (.invalid ("ApisixRoute '" ++ objectName rt ns cr_name ++
      "' spec.http is empty or not a list"))

/-- The annotations of an Ingress; of other values only the truth is asked for a class. -/
def ingressClass (spec : Entries) (annotations : Value) : Try Value :=
  if (get spec "ingressClassName").truthy then .ok (get spec "ingressClassName")
  else do
    let annotations ← entries annotations
    .ok (get annotations "kubernetes.io/ingress.class")

/-- The plugins in the annotation of an Ingress. -/
def annotationPlugins (context : String) (raw_plugins : Value) : Try (List Plugin) :=
  if !raw_plugins.truthy then .ok []
  else match raw_plugins with
    | .str raw => do
        let parsed ← loadYaml rt raw fun exc => context ++ " has invalid plugins annotation: " ++ exc
        normalize_plugin_list parsed context
    | _ => .error .raised

/-- An entry of an Ingress, by what follows its name. -/
structure IngressPlugins where
  ns : Value
  name : Value
  own : List Plugin
  effective : List Plugin

def ingressEntry (p : IngressPlugins) (rest : String) (host path : Value) : Entry where
  identity := objectName rt p.ns p.name ++ "/" ++ rest
  kind := .Ingress
  ns := p.ns
  name := p.name
  hosts := .list [host]
  paths := .list [path]
  plugins := pluginNames p.own
  effective := p.effective

def pathEntry (p : IngressPlugins) (host v : Value) : Try Entry := do
  let path_entry ← entries v
  let path := orElse (get path_entry "path") (.str "/*")
  .ok (ingressEntry rt p (shown rt host ++ ":" ++ shown rt path) host path)

def ingressRule (p : IngressPlugins) (v : Value) : Try (List Entry) := do
  let rule ← entries v
  let host := orElse (get rule "host") (.str "*")
  let http ← entries (getD rule "http" (.dict []))
  let paths := orElse (get http "paths") (.list [])
  if !paths.truthy then .ok [ingressEntry rt p (shown rt host) host (.str "/*")]
  else do
    let items ← iter paths
    items.mapM (pathEntry rt p host)

def ingressPlugins (g : Globals) (ns name : Value) (annotations : Entries) : Try IngressPlugins := do
  let context := "Ingress '" ++ objectName rt ns name ++ "'"
  let pc_name := get annotations "k8s.apisix.apache.org/plugin-config-name"
  let pc_plugins ← configPlugins g.configs ns pc_name (context ++
    " references unknown ApisixPluginConfig '" ++ shown rt pc_name ++ "'")
  let route_plugins ← annotationPlugins rt context (get annotations "k8s.apisix.apache.org/plugins")
  let effective ← merge_plugins [g.plugins, pc_plugins ++ route_plugins]
  .ok ⟨ns, name, pc_plugins ++ route_plugins, effective⟩

/-- The paths of an Ingress of class apisix. -/
def ingressEntries (g : Globals) (doc : Entries) : Try (List Entry) := do
  let metadata ← entries (orElse (get doc "metadata") (.dict []))
  let ns := getD metadata "namespace" (.str "default")
  let name := getD metadata "name" (.str "")
  let annotations := orElse (get metadata "annotations") (.dict [])
  let spec ← entries (orElse (get doc "spec") (.dict []))
  let ingress_class ← ingressClass spec annotations
  if !ingress_class.eq (.str "apisix") then .ok []
  else do
    let annotations ← entries annotations
    let p ← ingressPlugins rt g ns name annotations
    let rules := orElse (get spec "rules") (.list [])
    if !rules.truthy then .ok [ingressEntry rt p "default" (.str "*") (.str "/*")]
    else do
      let items ← iter rules
      let lists ← items.mapM (ingressRule rt p)
      .ok lists.flatten

def fileEntry (g : Globals) (ns name : Value) (filename : String) (item : Value × ℕ) : Try Entry :=
  match item.1 with
  | .dict r => do
      let r_id := shown rt (orElse (orElse (get r "name") (get r "id"))
        (.str ("route-" ++ toString item.2)))
      let identity := objectName rt ns name ++ "/" ++ r_id
      let route_plugins ← normalize_plugin_list (get r "plugins") ("ConfigMap route '" ++ identity ++ "'")
      let pc_name := orElse (get r "plugin_config_id") (get r "plugin_config_name")
      let pc_key := if pc_name.truthy then .str (shown rt pc_name) else .none
      let pc_plugins ← configPlugins g.configs ns pc_key ("ConfigMap route '" ++ identity ++
        "' references unknown plugin config '" ++ shown rt pc_name ++ "'")
      let effective ← merge_plugins [g.plugins, pc_plugins, route_plugins]
      .ok {
        identity
        kind := .ConfigMapRoute
        ns
        name
        hosts := orElse (get r "hosts") (.list (r.lookup "host").toList)
        paths := orElse (get r "paths") (.list [(r.lookup "uri").getD (.str "/*")])
        plugins := pluginNames route_plugins
        effective }
  | _ => .error (.invalid ("ConfigMap '" ++ objectName rt ns name ++ "' key '" ++ filename ++
      "' route #" ++ toString item.2 ++ " is not a dict"))

def isCandidate (filename raw : String) : Bool :=
  filename ∈ ["apisix.yaml", "apisix.yml", "routes.yaml", "routes.yml"] ||
    hasText "routes" (rt.lower filename) || hasText "routes:" raw

def routesEntries (g : Globals) (ns name : Value) (filename : String) (content : Entries) :
    Try (List Entry) :=
  match get content "routes" with
  | .none => .ok []
  | .list items => items.zipIdx.mapM (fileEntry rt g ns name filename)
  | _ => .error (.invalid ("ConfigMap '" ++ objectName rt ns name ++ "' key '" ++ filename ++
      "' 'routes' field must be a list"))

def fileEntries (g : Globals) (ns name : Value) (file : String × Value) : Try (List Entry) :=
  match file.2 with
  | .str raw =>
      if !isCandidate rt file.1 raw then .ok []
      else do
        let content ← loadYaml rt raw fun exc => "ConfigMap '" ++ objectName rt ns name ++ "' key '" ++
          file.1 ++ "' has invalid YAML: " ++ exc
        match content with
        | .dict content => routesEntries rt g ns name file.1 content
        | _ => .ok []
  | _ => .ok []

/-- The routes of the route files in a ConfigMap. -/
def configMapEntries (g : Globals) (doc : Entries) : Try (List Entry) := do
  let metadata ← entries (getD doc "metadata" (.dict []))
  let ns := getD metadata "namespace" (.str "default")
  let name := getD metadata "name" (.str "")
  match getD doc "data" (.dict []) with
  | .dict data => do
      let lists ← data.mapM (fileEntries rt g ns name)
      .ok lists.flatten
  | _ => .ok []

/-- The entries of a document, in order. -/
def docEntries (g : Globals) (doc : Entries) : Try (List Entry) :=
  let kind := get doc "kind"
  if kind.eq (.str "ApisixRoute") then apisixRouteEntries rt g doc
  else if kind.eq (.str "Ingress") then ingressEntries rt g doc
  else if kind.eq (.str "ConfigMap") then configMapEntries rt g doc
  else .ok []

end Extract

end Apisix
