import SiteAtlas.Graph.ActionMatch
import SiteAtlas.Graph.CandidateIndex

/-!
# References between entities

Which entities names refer to. What a component imports is looked up among components, hooks,
contexts, utilities and stores, in this order, itself apart.
-/

namespace SiteAtlas

/-- Kinds of entities that an import can refer to. -/
inductive TargetKind where
  | component
  | hook
  | context
  | utility
  | store
  deriving DecidableEq, Inhabited

namespace TargetKind

/-- All kinds in order of precedence. -/
def all : List TargetKind :=
  [.component, .hook, .context, .utility, .store]

/-- The name of a kind in reports. -/
def label : TargetKind → String
  | .component => "component"
  | .hook => "hook"
  | .context => "context"
  | .utility => "utility"
  | .store => "store"

end TargetKind

/-- Something for each kind of target. -/
structure PerKind (α : Type) where
  component : α
  hook : α
  context : α
  utility : α
  store : α

namespace PerKind

variable {α : Type}

/-- What there is for a kind. -/
def get (p : PerKind α) : TargetKind → α
  | .component => p.component
  | .hook => p.hook
  | .context => p.context
  | .utility => p.utility
  | .store => p.store

/-- Make something for each kind. -/
def ofFn (f : TargetKind → α) : PerKind α :=
  { component := f .component, hook := f .hook, context := f .context, utility := f .utility
    store := f .store }

/-- An entry is the function's value. -/
@[simp] theorem get_ofFn (f : TargetKind → α) (kind : TargetKind) : (ofFn f).get kind = f kind := by
  cases kind <;> rfl

end PerKind

/-- An index for each kind. -/
abbrev Indexes := PerKind CandidateIndex

/-- Names that a kind is registered under, exports last. -/
def registrations (c : Catalog) : TargetKind → List (String × String)
  | .component => c.components.map (fun x => (x.name, x.id)) ++
      c.components.flatMap fun x => x.exports.map (·, x.id)
  | .hook => c.hooks.map fun x => (x.name, x.id)
  | .context => c.contexts.map (fun x => (x.name, x.id)) ++
      c.contexts.map fun x => (x.providerName, x.id)
  | .utility => c.utilities.map (fun x => (x.name, x.id)) ++
      c.utilities.flatMap fun x => x.exports.map (·, x.id)
  | .store => c.stores.map (fun x => (x.name, x.id)) ++
      c.stores.flatMap fun x => x.exports.map (·, x.id)

/-- The index of a kind. -/
def indexOf (c : Catalog) (kind : TargetKind) : CandidateIndex :=
  ({} : CandidateIndex).registerAll (registrations c kind)

/-- The indexes of a catalog. -/
def Indexes.ofCatalog (c : Catalog) : Indexes :=
  .ofFn (indexOf c)

/-- A page renders a component. -/
structure PageReference where
  page : Page
  target : String

/-- Names that a page may render. -/
def Page.referenceNames (p : Page) : List String :=
  (p.componentName.filter (!·.isEmpty)).toList ++ p.components

/-- The components that pages render, in order. -/
def pageReferences (indexes : Indexes) (c : Catalog) : List PageReference :=
  c.pages.flatMap fun page =>
    page.referenceNames.filterMap fun name =>
      (indexes.component.lookup name).map (⟨page, ·⟩)

/-- The entity of a kind that a name in a component refers to. -/
def targetIn (indexes : Indexes) (component : Component) (name : String) (kind : TargetKind) :
    Option (TargetKind × String) :=
  (((indexes.get kind).lookup name).filter
    fun id => !(kind == .component && id == component.id)).map
    (kind, ·)

/-- What a name in a component refers to: the first kind's answer. -/
def importTarget (indexes : Indexes) (component : Component) (name : String) :
    Option (TargetKind × String) :=
  TargetKind.all.findSome? (targetIn indexes component name)

/-- A component imports an entity. -/
structure ImportReference where
  component : Component
  kind : TargetKind
  target : String

/-- The entities that a component imports, in order. -/
def importReferencesOf (indexes : Indexes) (component : Component) : List ImportReference :=
  component.imports.filterMap fun name =>
    (importTarget indexes component name).map fun (kind, id) => ⟨component, kind, id⟩

/-- The entities that components import, in order. -/
def importReferences (indexes : Indexes) (c : Catalog) : List ImportReference :=
  c.components.flatMap (importReferencesOf indexes)

/-- Identifiers of a kind that a component imports, each once. -/
def targetsOf (indexes : Indexes) (component : Component) (kind : TargetKind) : List String :=
  Text.unique (((importReferencesOf indexes component).filter (·.kind == kind)).map (·.target))

/-- A component imports a function of a server action file. -/
structure ActionReference where
  action : ServerActionFile
  function : String

/-- Names that an import brings in as values in braces. -/
def namedValues (i : Source.Import) : List String :=
  if i.isTypeOnly || i.isSideEffect then [] else i.braceNames.filter (!i.typeNames.contains ·)

/-- The functions that a component imports, in order. -/
def actionReferencesOf (table : AliasTable) (c : Catalog) (component : Component) :
    List ActionReference :=
  component.importRecords.flatMap fun i =>
    c.serverActionFiles.flatMap fun action =>
      if matchesAction table i.source.toList action (.ofString component.filePath) then
        ((namedValues i).filter action.exportedFunctions.contains).map (⟨action, ·⟩)
      else []

end SiteAtlas
