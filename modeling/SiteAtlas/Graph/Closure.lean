import SiteAtlas.Graph.Reference

/-!
# Dependency closures

Everything that a component reaches through its imports, each component visited once. Names are in
the order of a depth-first walk that follows imports from first to last and notes them from last to
first.
-/

namespace SiteAtlas

/-- The last item with an identifier. -/
def lastWith? {α : Type} (id : α → String) (items : List α) (wanted : String) : Option α :=
  (items.filter (id · == wanted)).getLast?

/-- What a component imports, kind by kind. -/
abbrev Targets := PerKind (List String)

/-- What each component imports, the last of each identifier. -/
abbrev Adjacency := Keyed Targets

/-- What a component imports. -/
def Targets.ofComponent (indexes : Indexes) (component : Component) : Targets :=
  .ofFn (targetsOf indexes component)

/-- What all components import. -/
def Adjacency.ofCatalog (indexes : Indexes) (c : Catalog) : Adjacency :=
  c.components.foldl (fun table component =>
    table.put component.id (Targets.ofComponent indexes component)) []

/-- What the component with an identifier imports of a kind. -/
def Adjacency.targets (adjacency : Adjacency) (id : String) (kind : TargetKind) : List String :=
  ((adjacency.get? id).map (·.get kind)).getD []

/-- The state of a walk. -/
structure Walk where
  /-- Components still to visit, next first. -/
  stack : List String
  /-- Components that were met, in order. -/
  met : List String
  /-- Components that were visited, in order. -/
  visited : List String

/-- Visit a component and note what it imports anew. -/
def Walk.visit (children : String → List String) (current : String) (rest : List String)
    (w : Walk) : Walk :=
  let new := (children current).reverse.filter (!w.met.contains ·)
  { stack := new.reverse ++ rest, met := w.met ++ new, visited := w.visited ++ [current] }

/-- Walk on while there are components to visit. -/
def Walk.finish (children : String → List String) : Nat → Walk → Walk
  | 0, w => w
  | fuel + 1, w =>
    match w.stack with
    | [] => w
    | current :: rest => finish children fuel (w.visit children current rest)

/-- The walk over at most `size` components. -/
def Walk.from (children : String → List String) (size : Nat) (start : String) : Walk :=
  finish children (size + 1) ⟨[start], [start], []⟩

/-- The names of a hook and of the hooks it depends on. -/
def hookReach (c : Catalog) (hook : Hook) : List String :=
  hook.name :: hook.dependencies.filter fun name => c.hooks.any (·.name == name)

/-- The closure of a component. -/
def closureOf (c : Catalog) (adjacency : Adjacency) (component : Component) : DependencyClosure :=
  let walk := Walk.from (adjacency.targets · .component) c.components.length component.id
  let reached (kind : TargetKind) : List String := walk.visited.flatMap (adjacency.targets · kind)
  { components := Text.unique ((walk.met.drop 1).filterMap fun id =>
      (lastWith? Component.id c.components id).map (·.name))
    hooks := Text.unique (((reached .hook).filterMap (lastWith? Hook.id c.hooks)).flatMap
      (hookReach c))
    contexts := Text.unique ((reached .context).filterMap fun id =>
      (lastWith? Context.id c.contexts id).map (·.name))
    utilities := Text.unique ((reached .utility).filterMap fun id =>
      (lastWith? Utility.id c.utilities id).map (·.name)) }

end SiteAtlas
