import SiteAtlas.Project.Pages

/-!
# Layout hierarchy

Each layout hangs below the closest layout whose directory holds it.
-/

namespace SiteAtlas.Project

/-- Whether a layout's directory lies above another layout. -/
def layoutContains (outer inner : Path) : Bool :=
  (inner.below? outer.parent).any (!·.isEmpty)

mutual

/-- Hang a layout below the first child that contains it. -/
def insertLayout (new : LayoutNode) : LayoutNode → LayoutNode
  | .node route filePath children => .node route filePath (insertAmong new children)

/-- Hang a layout below the first that contains it, or beside. -/
def insertAmong (new : LayoutNode) : List LayoutNode → List LayoutNode
  | [] => [new]
  | child :: rest =>
    if layoutContains (.ofString child.filePath) (.ofString new.filePath) then
      insertLayout new child :: rest
    else child :: insertAmong new rest

end

/-- The order of hanging: by depth, then by path text. -/
def layoutLE (a b : Path) : Bool :=
  a.names.length < b.names.length ||
    (a.names.length == b.names.length && decide (a.toString ≤ b.toString))

/-- The node of a layout file below a routing directory. -/
def layoutNode (directory file : Path) : LayoutNode :=
  .node (Route.ofNames ((file.below? directory).getD []) .nextjsApp) file.toString []

/-- The layout files of a directory, in hanging order. -/
def layoutFiles (p : Project) (directory : Path) : List Path :=
  ((p.routeFilesBelow directory).filter (·.stem == "layout")).mergeSort layoutLE

/-- The tree of layouts of the first routing directory. -/
def layouts (p : Project) : Option LayoutNode :=
  match p.appDirectories with
  | [] => none
  | directory :: _ =>
    match p.layoutFiles directory with
    | [] => none
    | first :: rest =>
      if first.parent = directory then
        some ((rest.map (layoutNode directory)).foldl (fun tree node => insertLayout node tree)
          (layoutNode directory first))
      else none

end SiteAtlas.Project
