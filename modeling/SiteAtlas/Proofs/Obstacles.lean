import SiteAtlas.Proofs.Linked
import SiteAtlas.Proofs.Nesting
import SiteAtlas.Proofs.ProjectListings
import SiteAtlas.Proofs.Refusals
import SiteAtlas.Scan

/-!
# What keeps a project from being scanned

Some content gets in the way of a scan: a configuration or a manifest nested too deeply, paths that
are too long, be it of a component that a declared route names, a matcher that asks for too much,
and directories or groups nested beyond the room of the stack. A scan returns a catalog exactly if
there is no such obstacle, and each leaves a sign in the files.
-/

namespace SiteAtlas

open List

variable {tree : Tree} {file : Path}

namespace Project

variable [Host] (p : Project)

/-- The search for a configuration stops at a fault not passed over. -/
def AliasesFail (e : ScanError) : Prop :=
  StopsAt (fun name => AliasTable.readConfig p.tree (p.root / name) = .ok none)
    (fun name => AliasTable.readConfig p.tree (p.root / name) = .error e) AliasTable.configFiles

/-- The search for a component stops at a path not to be looked up. -/
def ComponentFails (component : String) (e : LookupError) : Prop :=
  StopsAt (fun file => p.tree.checkFile file = .ok false)
    (fun file => p.tree.checkFile file = .error e) ((conventionalFiles component).map (p.root / ·))

/-- Pages are declared, and one's component cannot be looked for. -/
def PagesFail (router : Router) (e : LookupError) : Prop :=
  (router ≠ .nextjsApp ∧ router ≠ .nextjsPages) ∧
    ∃ page ∈ p.declaredRoutes, p.ComponentFails (page.componentName.getD "") e

/-- Aliases are found unless the search for a configuration stops. -/
theorem ends_ofProject : Ends (fun _ => ∀ e, ¬ p.AliasesFail e) p.AliasesFail
    (AliasTable.ofProject p.tree p.root) := by
  have hsearch := ends_findSomeM?
    (fun name : String => AliasTable.readConfig p.tree (p.root / name))
    (fun name value => value.map (p.root / name, ·)) AliasTable.configFiles
  have hpassed : (fun name : String => ∃ value,
      AliasTable.readConfig p.tree (p.root / name) = .ok value ∧
        value.map (p.root / name, ·) = none) =
      fun name => AliasTable.readConfig p.tree (p.root / name) = .ok none := by
    funext name
    simp
  rw [hpassed] at hsearch
  exact hsearch.map fun _ h => h.2

/-- A page is led back unless its component cannot be looked for. -/
theorem ends_locatePage (page : Page) :
    Ends (fun _ => ∀ e, ¬ p.ComponentFails (page.componentName.getD "") e)
      (p.ComponentFails (page.componentName.getD "")) (p.locatePage page) := by
  have hfile : Ends (fun _ => ∀ e, ¬ p.ComponentFails (page.componentName.getD "") e)
      (p.ComponentFails (page.componentName.getD ""))
      (p.componentFile (page.componentName.getD "")) :=
    (ends_findM? p.tree.checkFile _).bind fun _ h => .ok h.2
  refine hfile.bind fun found h => ?_
  cases found with
  | none => exact .ok h
  | some file => exact .ok h

/-- Pages are found unless a declared component cannot be looked for. -/
theorem ends_pages (router : Router) :
    Ends (fun _ => ∀ e, ¬ p.PagesFail router e) (p.PagesFail router) (p.pages router) := by
  unfold pages
  split
  · exact .ok fun e h => h.1.1 rfl
  · exact .ok fun e h => h.1.2 rfl
  · next happ hpages =>
    refine (ends_mapM p.locatePage p.declaredRoutes).imp (fun candidates hcandidates e => ?_) ?_
    · rintro ⟨-, page, hpage, he⟩
      obtain ⟨candidate, hok⟩ := exists_of_mem_forall₂ hcandidates page hpage
      exact (hok ▸ p.ends_locatePage page).of_ok e he
    · rintro e ⟨page, hpage, he⟩
      exact ⟨⟨happ, hpages⟩, page, hpage, (he ▸ p.ends_locatePage page).of_error⟩

/-- A catalog is built unless its pages cannot be found. -/
theorem ends_build (schedule : Schedule) (framework : Framework) (router : Router) : Ends
      (fun c => (∀ e, ¬ p.PagesFail router e) ∧
        c.middleware = if framework = .nextjs then p.middleware else none)
      (p.PagesFail router) (Catalog.build p schedule framework router) :=
  (p.ends_pages router).bind fun _ h => .ok ⟨h, rfl⟩

end Project

namespace Project

variable [Host] (p : Project)

variable {p}

end Project

/-- What is read as a text is a file. -/
theorem Tree.isFile_of_readText? {t : Tree} {content : List Char}
    (h : t.readText? file = some content) : t.isFile file = true := by
  obtain ⟨bytes, hbytes, -⟩ := Option.bind_eq_some_iff.mp h
  obtain ⟨place, hplace, hfile⟩ := Option.bind_eq_some_iff.mp hbytes
  rw [isFile, hplace, Option.map_some, Option.getD_some, hasFileAt, hfile, Option.isSome_some]

/-- A configuration that can be looked up gives what its text is read as. -/
theorem AliasTable.of_readConfig_eq_ok [Host] {found : Option Data.Value}
    (h : readConfig tree file = .ok found) : tree.readText? file = none ∧ found = none ∨
      ∃ content, tree.readText? file = some content ∧
        Data.Json.readIfWellFormed Host.configRoom (Data.Json.strip content) = .ok found := by
  obtain ⟨isFile, hcheck, h⟩ := exists_of_bind_eq_ok h
  cases hcontent : tree.readText? file with
  | none =>
    rw [hcontent] at h
    cases isFile <;> exact .inl ⟨rfl, (Except.ok.inj h).symm⟩
  | some content =>
    have htrue : isFile = true := by
      have hok := eq_ok_of_mapError hcheck
      unfold Tree.checkFile at hok
      split at hok
      · cases hok
      · rw [← Except.ok.inj hok, tree.isFile_of_readText? hcontent]
    rw [htrue, hcontent] at h
    exact .inr ⟨content, rfl, eq_ok_of_mapError h⟩

/-- A configuration that is missing says nothing. -/
theorem AliasTable.readConfig_of_missing [Host] (h : tree.checkFile file = .ok false) :
    readConfig tree file = .ok none := by
  rw [readConfig, h]
  rfl

/-- Without configurations, only the usual aliases are there. -/
theorem AliasTable.ofProject_of_missing [Host] {root : Path}
    (h : ∀ name ∈ configFiles, tree.checkFile (root / name) = .ok false) :
    ofProject tree root = .ok (ofConfig root none) := by
  have hconfig : config tree root = .ok none := by
    unfold config
    generalize configFiles = names at h ⊢
    induction names with
    | nil => rfl
    | cons name rest ih =>
      rw [forall_mem_cons] at h
      rw [findSomeM?, readConfig_of_missing h.1]
      exact ih h.2
  rw [ofProject, hconfig]
  rfl

/-- Where the manifest is missing, it has no entries. -/
theorem Project.manifest_of_missing [Host] {p : Project}
    (h : p.tree.checkFile (p.root / "package.json") = .ok false) : p.manifest = .ok [] := by
  rw [manifest, h]
  rfl

section

attribute [local instance] Host.usual

end

end SiteAtlas
