import SiteAtlas.Catalog.Entity
import SiteAtlas.Data.Value

/-!
# Catalogs as data

A catalog as a nested table, with every part under its name, in a fixed order.
-/

namespace SiteAtlas

open SiteAtlas.Data (Value)
open SiteAtlas.Source (DataDependency Import Property)

/-- Texts as a list. -/
def textsValue (items : List String) : Value :=
  .list (items.map .text)

/-- A text, or null. -/
def optionalTextValue : Option String → Value
  | some s => .text s
  | none => .null

/-- A part that may be absent as data. -/
def optionalValue {α : Type} (toValue : α → Value) : Option α → Value
  | some a => toValue a
  | none => .null

namespace Source

/-- The record of an import. -/
def Import.toValue (i : Import) : Value :=
  .table [("names", textsValue i.names), ("source", .text i.source), ("is_local", .bool i.isLocal),
    ("aliases", .table (i.aliases.map fun (name, localName) => (name, .text localName))),
    ("is_default", .bool i.isDefault), ("is_namespace", .bool i.isNamespace),
    ("is_type_only", .bool i.isTypeOnly), ("is_side_effect", .bool i.isSideEffect),
    ("namespace_name", optionalTextValue i.namespaceName), ("type_names", textsValue i.typeNames)]

/-- The record of a data access. -/
def DataDependency.toValue (d : DataDependency) : Value :=
  .table [("kind", .text d.kind.label), ("source", .text d.source), ("line", .int d.line)]

/-- The record of a property. -/
def Property.toValue (p : Property) : Value :=
  .table [("name", .text p.name), ("type", .text p.type), ("required", .bool p.required),
    ("default_value", optionalTextValue p.defaultValue)]

end Source

/-- The record of a page. -/
def Page.toValue (p : Page) : Value :=
  .table [("route", .text p.route), ("file_path", .text p.filePath),
    ("file_name", .text p.fileName), ("is_layout", .bool p.roles.layout),
    ("is_loading", .bool p.roles.loading), ("is_error", .bool p.roles.error),
    ("is_template", .bool p.roles.template), ("is_not_found", .bool p.roles.notFound),
    ("is_global_error", .bool p.roles.globalError), ("is_default", .bool p.roles.default),
    ("is_api_route", .bool p.roles.apiRoute), ("component_name", optionalTextValue p.componentName),
    ("components", textsValue p.components), ("links_to", textsValue p.linksTo),
    ("data_dependencies", .list (p.dataDependencies.map (·.toValue)))]

/-- The record of a reference. -/
def ServerActionRef.toValue (r : ServerActionRef) : Value :=
  .table [("function_name", .text r.functionName), ("import_path", .text r.importPath),
    ("source_file_path", .text r.sourceFilePath)]

/-- The record of a closure. -/
def DependencyClosure.toValue (c : DependencyClosure) : Value :=
  .table [("components", textsValue c.components), ("hooks", textsValue c.hooks),
    ("contexts", textsValue c.contexts), ("utilities", textsValue c.utilities)]

/-- The record of a component. -/
def Component.toValue (c : Component) : Value :=
  .table [("name", .text c.name), ("file_path", .text c.filePath), ("file_name", .text c.fileName),
    ("is_client_component", .bool c.isClient), ("props", .list (c.props.map (·.toValue))),
    ("imports", textsValue c.imports), ("exports", textsValue c.exports),
    ("data_dependencies", .list (c.dataDependencies.map (·.toValue))),
    ("server_actions", .list (c.serverActions.map (·.toValue))),
    ("used_in_pages", textsValue c.usedInPages),
    ("used_in_components", textsValue c.usedInComponents),
    ("all_dependencies", optionalValue DependencyClosure.toValue c.allDependencies),
    ("import_records", .list (c.importRecords.map (·.toValue)))]

/-- The record of a hook. -/
def Hook.toValue (h : Hook) : Value :=
  .table [("name", .text h.name), ("file_path", .text h.filePath), ("file_name", .text h.fileName),
    ("dependencies", textsValue h.dependencies), ("used_in", textsValue h.usedIn)]

/-- The record of a context. -/
def Context.toValue (c : Context) : Value :=
  .table [("name", .text c.name), ("provider_name", .text c.providerName),
    ("file_path", .text c.filePath), ("file_name", .text c.fileName),
    ("used_in", textsValue c.usedIn)]

/-- The record of a utility. -/
def Utility.toValue (u : Utility) : Value :=
  .table [("name", .text u.name), ("file_path", .text u.filePath), ("file_name", .text u.fileName),
    ("exports", textsValue u.exports), ("used_in", textsValue u.usedIn)]

/-- The record of a store. -/
def Store.toValue (s : Store) : Value :=
  .table [("name", .text s.name), ("file_path", .text s.filePath), ("file_name", .text s.fileName),
    ("kind", .text s.kind.label), ("exports", textsValue s.exports),
    ("used_in", textsValue s.usedIn)]

/-- The record of a file of server actions. -/
def ServerActionFile.toValue (a : ServerActionFile) : Value :=
  .table [("file_path", .text a.filePath), ("relative_path", .text a.relativePath),
    ("exported_functions", textsValue a.exportedFunctions)]

/-- The record of the middleware. -/
def Middleware.toValue (m : Middleware) : Value :=
  .table [("file_path", .text m.filePath), ("file_name", .text m.fileName),
    ("matcher_patterns", textsValue m.matcherPatterns), ("used_in", textsValue m.usedIn)]

/-- A request handler as data. -/
def ApiRoute.toValue (r : ApiRoute) : Value :=
  .table [("route", .text r.route), ("file_path", .text r.filePath),
    ("file_name", .text r.fileName), ("methods", textsValue r.methods)]

mutual

/-- The record of a layout. -/
def LayoutNode.toValue : LayoutNode → Value
  | .node route filePath children =>
    .table [("route", .text route), ("file_path", .text filePath),
      ("children", .list (layoutValues children))]

/-- The records of layouts. -/
def layoutValues : List LayoutNode → List Value
  | [] => []
  | n :: rest => n.toValue :: layoutValues rest

end

/-- The record of an edge. -/
def Edge.toValue (e : Edge) : Value :=
  .table [("src", .text e.source), ("dst", .text e.target), ("edge_type", .text e.kind.label)]

/-- The record of a catalog. -/
def Catalog.toValue (c : Catalog) : Value :=
  .table [("project_path", .text c.projectPath), ("project_name", .text c.projectName),
    ("framework", .text c.framework.label), ("router_type", .text c.router.label),
    ("pages", .list (c.pages.map (·.toValue))),
    ("components", .list (c.components.map (·.toValue))),
    ("hooks", .list (c.hooks.map (·.toValue))), ("contexts", .list (c.contexts.map (·.toValue))),
    ("utilities", .list (c.utilities.map (·.toValue))),
    ("stores", .list (c.stores.map (·.toValue))),
    ("server_action_files", .list (c.serverActionFiles.map (·.toValue))),
    ("middleware", optionalValue Middleware.toValue c.middleware),
    ("api_routes", .list (c.apiRoutes.map (·.toValue))),
    ("layout_hierarchy", optionalValue LayoutNode.toValue c.layoutHierarchy),
    ("edges", .list (c.edges.map (·.toValue))), ("scanned_at", .text c.scannedAt)]

end SiteAtlas
