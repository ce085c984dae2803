import SiteAtlas.Proofs.Collecting
import SiteAtlas.Proofs.EntityTable
import SiteAtlas.Proofs.Sorting

/-!
# What a selection holds

A selection has one node for each identifier, and both ends of each edge, whatever the focus is. So
every name that an edge leads to can be looked up, and going through nodes and outgoing edges meets
every edge once.
-/

namespace SiteAtlas

open List

namespace Keyed

variable {α : Type}

/-- Writing to a key adds it to the keys unless it is there. -/
theorem map_fst_put (table : Keyed α) (key : String) (value : α) :
    (table.put key value).map (·.1) = Text.addUnique (table.map (·.1)) key := by
  induction table with
  | nil => rfl
  | cons entry rest ih =>
    obtain ⟨k, v⟩ := entry
    unfold put
    by_cases hk : k = key
    · simp [hk, Text.addUnique]
    · rw [if_neg hk, map_cons, ih, map_cons]
      by_cases hmem : key ∈ rest.map (·.1)
      · rw [addUnique_of_mem _ _ hmem, addUnique_of_mem _ _ (mem_cons_of_mem k hmem)]
      · have hnew : key ∉ k :: rest.map (·.1) := by
          rw [mem_cons, not_or]
          exact ⟨Ne.symm hk, hmem⟩
        rw [addUnique_of_not_mem _ _ hmem, addUnique_of_not_mem _ _ hnew, cons_append]

/-- An entry after writing was there before or was written. -/
theorem mem_of_mem_put {table : Keyed α} {key : String} {value : α} {entry : String × α}
    (h : entry ∈ table.put key value) : entry ∈ table ∨ entry = (key, value) := by
  induction table with
  | nil => exact .inr (mem_singleton.mp h)
  | cons first rest ih =>
    unfold put at h
    split at h
    · rename_i hkey
      rcases mem_cons.mp h with rfl | hrest
      · exact .inr (by rw [hkey])
      · exact .inl (mem_cons_of_mem _ hrest)
    · rcases mem_cons.mp h with rfl | hrest
      · exact .inl mem_cons_self
      · exact (ih hrest).imp_left (mem_cons_of_mem _)

/-- A key has a value exactly if it is among the keys. -/
theorem has_iff (table : Keyed α) (key : String) :
    table.has key = true ↔ key ∈ table.map (·.1) := by
  induction table with
  | nil => simp [has]
  | cons entry rest ih =>
    obtain ⟨k, v⟩ := entry
    rw [has, get?_cons, map_cons, mem_cons, ← ih, has]
    by_cases hk : key = k <;> simp [hk]

/-- Writing values in order keeps the keys apart. -/
theorem nodup_foldl_put {β : Type} (key : β → String) (value : β → α) (items : List β)
    (table : Keyed α) (h : (table.map (·.1)).Nodup) :
    ((items.foldl (fun table b => table.put (key b) (value b)) table).map (·.1)).Nodup := by
  induction items generalizing table with
  | nil => exact h
  | cons b items ih =>
    refine ih _ ?_
    rw [map_fst_put]
    exact nodup_addUnique _ _ h

/-- What holds of all written entries holds of all entries. -/
theorem forall_foldl_put {β : Type} {P : String × α → Prop} (key : β → String) (value : β → α)
    (items : List β) (table : Keyed α) (htable : ∀ entry ∈ table, P entry)
    (hitems : ∀ b, P (key b, value b)) :
    ∀ entry ∈ items.foldl (fun table b => table.put (key b) (value b)) table, P entry := by
  induction items generalizing table with
  | nil => exact htable
  | cons b items ih =>
    refine ih _ fun entry hentry => ?_
    rcases mem_of_mem_put hentry with hold | rfl
    · exact htable entry hold
    · exact hitems b

end Keyed

namespace Selection

/-- Identifiers differ, and both ends of every edge are among the nodes. -/
structure Closed (s : Selection) : Prop where
  nodup : (s.nodes.map (·.id)).Nodup
  source_mem : ∀ e ∈ s.edges, e.source ∈ s.nodes.map (·.id)
  target_mem : ∀ e ∈ s.edges, e.target ∈ s.nodes.map (·.id)

/-- The nodes of a catalog are kept under their identifiers. -/
theorem map_id_nodes (c : Catalog) : (c.nodes.map (·.2)).map (·.id) = c.nodes.map (·.1) := by
  rw [map_map]
  refine map_congr_left fun entry hentry => ?_
  exact Keyed.forall_foldl_put (P := fun entry => entry.2.id = entry.1) Entity.id Node.ofEntity
    c.entities [] (forall_mem_nil _) (fun _ => rfl) entry hentry

/-- The nodes of a catalog have different identifiers. -/
theorem nodup_ids_nodes (c : Catalog) : ((c.nodes.map (·.2)).map (·.id)).Nodup := by
  rw [map_id_nodes]
  exact Keyed.nodup_foldl_put Entity.id Node.ofEntity c.entities [] nodup_nil

/-- Sorting keeps the identifiers. -/
theorem mem_ids_sortNodes (nodes : List Node) (id : String) :
    id ∈ (sortNodes nodes).map (·.id) ↔ id ∈ nodes.map (·.id) :=
  ((mergeSort_perm nodes _).map (·.id)).mem_iff

/-- Sorting nodes keeps their identifiers apart. -/
theorem nodup_ids_sortNodes (nodes : List Node) :
    ((sortNodes nodes).map (·.id)).Nodup ↔ (nodes.map (·.id)).Nodup :=
  ((mergeSort_perm nodes _).map (·.id)).nodup_iff

/-- Inner edges have both ends. -/
theorem ends_of_mem_innerEdges {c : Catalog} {e : Edge} (h : e ∈ innerEdges c.nodes c.edges) :
    e.source ∈ (c.nodes.map (·.2)).map (·.id) ∧ e.target ∈ (c.nodes.map (·.2)).map (·.id) := by
  have hends := (mem_filter.mp h).2
  rw [Bool.and_eq_true, Keyed.has_iff, Keyed.has_iff] at hends
  rwa [map_id_nodes]

/-- Whatever the focus, a selection is closed. -/
theorem closed_ofCatalog (c : Catalog) (focus : String) : (ofCatalog c focus).Closed := by
  unfold ofCatalog ofGraph
  dsimp only
  split
  · refine ⟨(nodup_ids_sortNodes _).mpr (nodup_ids_nodes c), fun e he => ?_, fun e he => ?_⟩
    · exact (mem_ids_sortNodes _ _).mpr (ends_of_mem_innerEdges he).1
    · exact (mem_ids_sortNodes _ _).mpr (ends_of_mem_innerEdges he).2
  · set all := c.nodes.map (·.2) with hall
    set ids := (all.filter (inFocus focus)).map (·.id)
    set near := touching ids (innerEdges c.nodes c.edges)
    -- A node at the end of a selected edge is selected with it.
    have hselected : ∀ id ∈ all.map (·.id), isEnd near id = true →
        id ∈ (sortNodes (all.filter fun n => ids.contains n.id || isEnd near n.id)).map (·.id) := by
      intro id hid hend
      obtain ⟨n, hn, rfl⟩ := mem_map.mp hid
      rw [mem_ids_sortNodes]
      exact mem_map_of_mem (mem_filter.mpr ⟨hn, by rw [hend, Bool.or_true]⟩)
    refine ⟨?_, fun e he => ?_, fun e he => ?_⟩
    · rw [nodup_ids_sortNodes]
      exact (nodup_ids_nodes c).sublist (filter_sublist.map _)
    · refine hselected _ (ends_of_mem_innerEdges (mem_of_mem_filter he)).1 ?_
      exact any_eq_true.mpr ⟨e, he, by simp⟩
    · refine hselected _ (ends_of_mem_innerEdges (mem_of_mem_filter he)).2 ?_
      exact any_eq_true.mpr ⟨e, he, by simp⟩

end Selection

namespace Selection

/-- A node whose identifier or name contains the focus. -/
def Focused (c : Catalog) (focus : String) (node : Node) : Prop :=
  node ∈ c.nodes.map (·.2) ∧ (focus.toList <:+: node.id.toList ∨ focus.toList <:+: node.name.toList)

/-- An edge between two nodes. -/
def Inner (c : Catalog) (e : Edge) : Prop :=
  e.source ∈ (c.nodes.map (·.2)).map (·.id) ∧ e.target ∈ (c.nodes.map (·.2)).map (·.id)

/-- A selection has the given nodes, strictly ordered by identifier, and the given edges between
them, in order. -/
structure Holds (s : Selection) (c : Catalog) (nodes : Node → Prop) (edges : Edge → Prop) :
    Prop where
  mem_nodes : ∀ node, node ∈ s.nodes ↔ nodes node
  edges_eq : ∃ keep : Edge → Bool, s.edges = c.edges.filter keep ∧ ∀ e, keep e = true ↔ edges e
  increasing : s.nodes.Pairwise fun a b => a.id < b.id
  ends : ∀ e ∈ s.edges, e.source ∈ s.nodes.map (·.id) ∧ e.target ∈ s.nodes.map (·.id)

/-- An edge is inner by its ends. -/
theorem inner_iff (c : Catalog) (e : Edge) :
    (c.nodes.has e.source && c.nodes.has e.target) = true ↔ Inner c e := by
  rw [Bool.and_eq_true, Keyed.has_iff, Keyed.has_iff, Inner, map_id_nodes]

/-- The nodes in focus are listed. -/
theorem focused_iff (c : Catalog) (focus : String) (node : Node) :
    node ∈ (c.nodes.map (·.2)).filter (inFocus focus) ↔ Focused c focus node := by
  rw [mem_filter, inFocus, Bool.or_eq_true, Text.stringContains, Text.stringContains,
    Text.contains_iff, Text.contains_iff, Focused]

/-- Sorted nodes with different identifiers are in strict order. -/
theorem pairwise_sortNodes {nodes : List Node} (h : (nodes.map (·.id)).Nodup) :
    (sortNodes nodes).Pairwise fun a b => a.id < b.id := by
  have hsorted := pairwise_mergeSort_of_key (fun a b : Node => decide (a.id ≤ b.id)) (·.id)
    (fun _ _ => decide_eq_true_iff) nodes
  have hdistinct := pairwise_map.mp ((nodup_ids_sortNodes nodes).mpr h)
  exact hsorted.imp₂ (fun _ _ hle hne => lt_of_le_of_ne hle hne) hdistinct

section Near

variable (c : Catalog) (focus : String)

/-- The identifiers in focus. -/
def focusedIds : List String :=
  ((c.nodes.map (·.2)).filter (inFocus focus)).map (·.id)

/-- The edges at nodes in focus. -/
def nearEdges : List Edge :=
  touching (focusedIds c focus) (innerEdges c.nodes c.edges)

/-- The identifiers in focus are listed. -/
theorem contains_focusedIds_iff (id : String) :
    (focusedIds c focus).contains id = true ↔ ∃ node, Focused c focus node ∧ id = node.id := by
  rw [contains_iff_mem, focusedIds, mem_map]
  simp only [focused_iff, eq_comm]

/-- Nothing is in focus if none is listed. -/
theorem focusedIds_isEmpty_iff :
    (focusedIds c focus).isEmpty = true ↔ ∀ node, ¬ Focused c focus node := by
  rw [List.isEmpty_iff, focusedIds, map_eq_nil_iff, eq_nil_iff_forall_not_mem]
  simp only [focused_iff]

/-- The edges near a focus are the inner ones with an end in it. -/
theorem nearEdges_eq : ∃ keep : Edge → Bool, nearEdges c focus = c.edges.filter keep ∧
    ∀ e, keep e = true ↔ Inner c e ∧
      ∃ node, Focused c focus node ∧ (e.source = node.id ∨ e.target = node.id) := by
  refine ⟨fun e => ((focusedIds c focus).contains e.source ||
    (focusedIds c focus).contains e.target) && (c.nodes.has e.source && c.nodes.has e.target),
    filter_filter .., fun e => ?_⟩
  rw [Bool.and_eq_true, inner_iff, Bool.or_eq_true, contains_focusedIds_iff,
    contains_focusedIds_iff, ← exists_or, and_comm]
  simp only [and_or_left]

/-- A node at an edge near the focus is in it or next to it. -/
theorem focused_or_joined_iff {node : Node} (hnode : node ∈ c.nodes.map (·.2)) :
    ((focusedIds c focus).contains node.id || isEnd (nearEdges c focus) node.id) = true ↔
      Focused c focus node ∨ ∃ e ∈ c.edges, Inner c e ∧ ∃ other, Focused c focus other ∧
        (e.source = node.id ∧ e.target = other.id ∨ e.source = other.id ∧ e.target = node.id) := by
  have hsame {other : Node} (hother : Focused c focus other) (hid : node.id = other.id) :
      Focused c focus node :=
    inj_on_of_nodup_map (nodup_ids_nodes c) hnode hother.1 hid ▸ hother
  obtain ⟨keep, hnear, hkeep⟩ := nearEdges_eq c focus
  rw [Bool.or_eq_true, contains_focusedIds_iff, isEnd, any_eq_true, hnear]
  simp only [mem_filter, hkeep, Bool.or_eq_true, beq_iff_eq]
  constructor
  · rintro (⟨other, hother, hid⟩ | ⟨e, ⟨he, hinner, other, hother, hid⟩, hend⟩)
    · exact .inl (hsame hother hid)
    · rcases hid with hid | hid <;> rcases hend with hend | hend
      · exact .inl (hsame hother (hend.symm.trans hid))
      · exact .inr ⟨e, he, hinner, other, hother, .inr ⟨hid, hend⟩⟩
      · exact .inr ⟨e, he, hinner, other, hother, .inl ⟨hend, hid⟩⟩
      · exact .inl (hsame hother (hend.symm.trans hid))
  · rintro (hnode | ⟨e, he, hinner, other, hother, ⟨hend, hid⟩ | ⟨hid, hend⟩⟩)
    · exact .inl ⟨node, hnode, rfl⟩
    · exact .inr ⟨e, ⟨he, hinner, other, hother, .inr hid⟩, .inl hend⟩
    · exact .inr ⟨e, ⟨he, hinner, other, hother, .inl hid⟩, .inr hend⟩

end Near

/-- A focus selects the nodes that contain it, their neighbours, and the edges at the former. The
empty focus, or one that no node contains, selects everything. -/
theorem focus_selects_neighbourhood (c : Catalog) (focus : String) :
    (focus = "" ∨ (∀ node, ¬ Focused c focus node) →
      (ofCatalog c focus).Holds c (· ∈ c.nodes.map (·.2)) (Inner c)) ∧
    (focus ≠ "" → (∃ node, Focused c focus node) → (ofCatalog c focus).Holds c
      (fun node => node ∈ c.nodes.map (·.2) ∧ (Focused c focus node ∨
        ∃ e ∈ c.edges, Inner c e ∧ ∃ other, Focused c focus other ∧
          (e.source = node.id ∧ e.target = other.id ∨ e.source = other.id ∧ e.target = node.id)))
      fun e => Inner c e ∧
        ∃ node, Focused c focus node ∧ (e.source = node.id ∨ e.target = node.id)) := by
  have hclosed := closed_ofCatalog c focus
  have hends := fun e he => And.intro (hclosed.source_mem e he) (hclosed.target_mem e he)
  have hids := nodup_ids_nodes c
  constructor
  · intro h
    have hall : ofCatalog c focus =
        ⟨sortNodes (c.nodes.map (·.2)), innerEdges c.nodes c.edges⟩ := by
      refine if_pos (Bool.or_eq_true_iff.mpr ?_)
      rwa [String.isEmpty_iff, ← focusedIds, focusedIds_isEmpty_iff]
    rw [hall] at hends ⊢
    exact ⟨fun node => (mergeSort_perm _ _).mem_iff, ⟨_, rfl, inner_iff c⟩,
      pairwise_sortNodes hids, hends⟩
  · intro hne hfocused
    have hnear : ofCatalog c focus = ⟨sortNodes ((c.nodes.map (·.2)).filter fun node =>
        (focusedIds c focus).contains node.id || isEnd (nearEdges c focus) node.id),
        nearEdges c focus⟩ := by
      refine if_neg fun h => ?_
      rw [Bool.or_eq_true, String.isEmpty_iff, ← focusedIds, focusedIds_isEmpty_iff] at h
      exact h.elim hne fun hnone => hnone _ hfocused.choose_spec
    rw [hnear] at hends ⊢
    refine ⟨fun node => ?_, nearEdges_eq c focus,
      pairwise_sortNodes (hids.sublist (filter_sublist.map _)), hends⟩
    refine (mergeSort_perm _ _).mem_iff.trans ?_
    rw [mem_filter]
    exact and_congr_right (focused_or_joined_iff c focus)

/-- A utility of a given name. -/
def strandUtility (name : String) : Utility where
  name
  filePath := "/" ++ name
  fileName := name

/-- Utilities in a row, and an edge to nowhere. -/
def strandCatalog : Catalog where
  projectPath := "/"
  projectName := ""
  framework := .react
  router := .unknown
  utilities := [strandUtility "b", strandUtility "a"]
  edges := [⟨"", "", .imports⟩, ⟨(strandUtility "a").id, (strandUtility "b").id, .imports⟩]

/-- The neighbour of a node in focus is selected. -/
theorem focus_selects_neighbourhood_strandCatalog :
    "a" ≠ "" ∧ Focused strandCatalog "a" (.ofEntity (.utility (strandUtility "a"))) ∧
    .ofEntity (.utility (strandUtility "b")) ∈ (ofCatalog strandCatalog "a").nodes := by
  have hfocused : Focused strandCatalog "a" (.ofEntity (.utility (strandUtility "a"))) := by
    unfold Focused
    decide +kernel
  have hselects := (focus_selects_neighbourhood strandCatalog "a").2 (by decide) ⟨_, hfocused⟩
  refine ⟨by decide, hfocused, (hselects.mem_nodes _).mpr ⟨by decide +kernel, .inr ?_⟩⟩
  refine ⟨⟨(strandUtility "a").id, (strandUtility "b").id, .imports⟩, by simp [strandCatalog], ?_,
    _, hfocused, .inr ⟨rfl, rfl⟩⟩
  exact ⟨by decide +kernel, by decide +kernel⟩

end Selection

end SiteAtlas
