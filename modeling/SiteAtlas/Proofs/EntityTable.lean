import SiteAtlas.Export.Selection
import SiteAtlas.Proofs.Latest

/-!
# The table of entities

An identifier begins with the label of its kind and a colon, so different kinds never share one.
Finding an entity among all is finding it in its kind, and the nodes of the usage graph are the
identifiers.
-/

namespace SiteAtlas

variable (c : Catalog) (kind : TargetKind) (id : String)

/-- The kind of an identifier: all before the first colon. -/
def idLabel (id : String) : List Char :=
  id.toList.takeWhile (· ≠ ':')

/-- The kind's label of an entity. -/
def Entity.label : Entity → String
  | .page _ => "page"
  | .component _ => "component"
  | .hook _ => "hook"
  | .context _ => "context"
  | .utility _ => "utility"
  | .store _ => "store"
  | .action _ => "action"

/-- The identifier of an entity tells its kind. -/
theorem Entity.idLabel_id (e : Entity) : idLabel e.id = e.label.toList := by
  cases e <;>
    simp [idLabel, Entity.id, Entity.label, Page.id, Component.id, Hook.id, Context.id, Utility.id,
      Store.id, ServerActionFile.id]

/-- Entities with one identifier are of one kind. -/
theorem Entity.label_eq_of_id_eq (a b : Entity) (h : a.id = b.id) : a.label = b.label := by
  have hlabel := congrArg idLabel h
  rw [a.idLabel_id, b.idLabel_id] at hlabel
  exact String.toList_inj.mp hlabel

namespace Catalog

/-- The entity of an identifier, the last of several. -/
def entity? (c : Catalog) (id : String) : Option Entity :=
  lastWith? Entity.id c.entities id

/-- The entities of a kind that imports can refer to. -/
def entitiesOf (c : Catalog) : TargetKind → List Entity
  | .component => c.components.map .component
  | .hook => c.hooks.map .hook
  | .context => c.contexts.map .context
  | .utility => c.utilities.map .utility
  | .store => c.stores.map .store

/-- The entities of a kind are those with the kind's label. -/
theorem filter_label_entities : c.entities.filter (·.label == kind.label) = c.entitiesOf kind := by
  cases kind <;>
    simp [entities, entitiesOf, List.filter_map, Function.comp_def, Entity.label, TargetKind.label]

/-- An entity of a kind is in the catalog, under the kind's label. -/
theorem mem_entitiesOf (e : Entity) :
    e ∈ c.entitiesOf kind ↔ e ∈ c.entities ∧ e.label = kind.label := by
  rw [← filter_label_entities, List.mem_filter, beq_iff_eq]

/-- An identifier of a kind is looked up within the kind. -/
theorem entity?_eq_of_label (h : idLabel id = kind.label.toList) :
    c.entity? id = lastWith? Entity.id (c.entitiesOf kind) id := by
  rw [entity?, ← filter_label_entities]
  symm
  apply lastWith?_filter
  intro e _ hid
  rw [← hid, e.idLabel_id, String.toList_inj] at h
  simp [h]

/-- An identifier stands for an entity if some has it. -/
theorem isSome_entity? : (c.entity? id).isSome = true ↔ ∃ e ∈ c.entities, e.id = id := by
  constructor
  · intro h
    obtain ⟨e, he⟩ := Option.isSome_iff_exists.mp h
    obtain ⟨hmem, hid⟩ := mem_of_lastWith? _ _ _ _ he
    exact ⟨e, hmem, hid⟩
  · rintro ⟨e, hmem, rfl⟩
    obtain ⟨found, hfound⟩ := exists_lastWith? Entity.id c.entities e hmem
    exact Option.isSome_iff_exists.mpr ⟨found, hfound⟩

/-- The node of an identifier is that of its entity. -/
theorem get?_nodes : c.nodes.get? id = (c.entity? id).map Node.ofEntity := by
  rw [nodes, get?_foldl_put, Keyed.get?_nil, Option.or_none, entity?]

/-- There is a node for exactly the identifiers of entities. -/
theorem has_nodes : c.nodes.has id = true ↔ id ∈ c.entities.map Entity.id := by
  rw [Keyed.has, get?_nodes, Option.isSome_map, isSome_entity?, List.mem_map]

end Catalog

end SiteAtlas
