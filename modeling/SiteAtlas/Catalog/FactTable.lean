import SiteAtlas.Source.Fact
import SiteAtlas.Tree.Basic

/-!
# Fact tables

The facts of all files of a scan, each read once. Results of several workers arrive in any order;
each goes into the slot of its file, and the slots are taken into the table in path order.
-/

namespace SiteAtlas

open SiteAtlas.Source (Fact)

/-- Paths in order: roots first, then name by name. -/
def pathLE (a b : Path) : Bool :=
  if a.root.text < b.root.text then true
  else if a.root = b.root then namesLE a.names b.names
  else false

/-- How jobs are spread over workers. -/
structure Schedule where
  /-- How many workers there are. -/
  workers : Nat
  /-- The order in which so many workers finish so many jobs. -/
  arrival : Nat → Nat → List Nat

/-- The order in which `n` jobs finish. -/
def Schedule.order (s : Schedule) (n : Nat) : List Nat :=
  s.arrival s.workers n

/-- Jobs finish in the order in which they were handed out. -/
def Schedule.inOrder (workers : Nat) : Schedule :=
  ⟨workers, fun _ => List.range⟩

/-- Facts by file. -/
abbrev FactTable := List (Path × Fact)

namespace FactTable

/-- The facts of a file. -/
def fact? (table : FactTable) (file : Path) : Option Fact :=
  List.lookup file table

/-- The facts of a file; none if it is no text. -/
def extract? (tree : Tree) (file : Path) : Option Fact :=
  (tree.readText? file).map Fact.ofContent

/-- Files not in the table yet, each once, in path order. -/
def pending (table : FactTable) (files : List Path) : List Path :=
  (Text.unique (files.filter fun file => (table.fact? file).isNone)).mergeSort pathLE

/-- Put a result into its slot. -/
def fillSlot (slots : List (Option Fact)) (arrived : Nat × Option Fact) : List (Option Fact) :=
  slots.set arrived.1 arrived.2

/-- The results of all jobs, each in its file's slot. -/
def results (tree : Tree) (schedule : Schedule) (files : List Path) : List (Option Fact) :=
  let arrivals := (schedule.order files.length).map fun i =>
    (i, (files[i]?).bind (extract? tree))
  arrivals.foldl fillSlot (files.map fun _ => none)

/-- Take the facts of more readable files into the table. -/
def load (tree : Tree) (schedule : Schedule) (table : FactTable) (files : List Path) : FactTable :=
  let waiting := table.pending files
  table ++ (waiting.zip (results tree schedule waiting)).filterMap fun (file, found) =>
    found.map (file, ·)

end FactTable

end SiteAtlas
