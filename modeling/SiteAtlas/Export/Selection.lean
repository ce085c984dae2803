import SiteAtlas.Catalog.Query

/-!
# Selecting a part of the usage graph

The usage graph has a node for each identifier and the edges of a catalog. A focus selects the
nodes whose identifier or name contains it, and their neighbours, or everything if nothing does.
-/

namespace SiteAtlas

/-- A node of the usage graph. -/
structure Node where
  id : String
  kind : String
  name : String
  filePath : String
  deriving DecidableEq, Inhabited

/-- The node of an entity. -/
def Node.ofEntity (e : Entity) : Node :=
  ⟨e.id, e.kind, e.name, e.filePath⟩

/-- The nodes of a catalog, the last of each identifier. -/
def Catalog.nodes (c : Catalog) : Keyed Node :=
  c.entities.foldl (fun table e => table.put e.id (.ofEntity e)) []

/-- A part of the usage graph. -/
structure Selection where
  /-- Nodes in order of identifiers. -/
  nodes : List Node
  edges : List Edge

namespace Selection

/-- Nodes in order of identifiers. -/
def sortNodes (nodes : List Node) : List Node :=
  nodes.mergeSort fun a b => decide (a.id ≤ b.id)

/-- Edges between given nodes. -/
def innerEdges (nodes : Keyed Node) (edges : List Edge) : List Edge :=
  edges.filter fun e => nodes.has e.source && nodes.has e.target

/-- Whether a node's identifier or name contains a focus. -/
def inFocus (focus : String) (node : Node) : Bool :=
  Text.stringContains focus node.id || Text.stringContains focus node.name

/-- The edges with an end among some identifiers. -/
def touching (ids : List String) (edges : List Edge) : List Edge :=
  edges.filter fun e => ids.contains e.source || ids.contains e.target

/-- Whether an identifier is an end of some edge. -/
def isEnd (edges : List Edge) (id : String) : Bool :=
  edges.any fun e => e.source == id || e.target == id

/-- What a focus selects. -/
def ofGraph (nodes : Keyed Node) (edges : List Edge) (focus : String) : Selection :=
  let all := nodes.map (·.2)
  let inner := innerEdges nodes edges
  let ids := (all.filter (inFocus focus)).map (·.id)
  if focus.isEmpty || ids.isEmpty then ⟨sortNodes all, inner⟩
  else
    let near := touching ids inner
    ⟨sortNodes (all.filter fun node => ids.contains node.id || isEnd near node.id), near⟩

/-- The part of a catalog's usage graph that a focus selects. -/
def ofCatalog (c : Catalog) (focus : String) : Selection :=
  ofGraph c.nodes c.edges focus

end Selection

end SiteAtlas
