import SiteAtlas.Keyed
import SiteAtlas.Text.Lower

/-!
# Candidate indexes

An index finds an entity by a name, failing that by its lower-case form, and failing that without
hyphens and underscores. The first registration of a key stands; others are counted as collisions.
-/

namespace SiteAtlas

/-- A name without hyphens and underscores, in lower case. -/
def normalizeKey (name : String) : String :=
  String.ofList (Text.lower (name.toList.filter fun c => c != '-' && c != '_'))

/-- Identifiers of entities by name, in three tiers. -/
structure CandidateIndex where
  exact : Keyed String := []
  lowered : Keyed String := []
  normalized : Keyed String := []
  collisions : Nat := 0
  deriving DecidableEq

namespace CandidateIndex

/-- Whether a tier has another identifier for a key. -/
def clashes (tier : Keyed String) (key id : String) : Bool :=
  ((tier.get? key).map (· != id)).getD false

/-- Register an entity under a name; an empty name is no name. -/
def register (index : CandidateIndex) (name id : String) : CandidateIndex :=
  if name.isEmpty then index
  else
    let low := Text.lowerString name
    let key := normalizeKey name
    { exact := index.exact.putNew name id, lowered := index.lowered.putNew low id
      normalized := index.normalized.putNew key id
      collisions := index.collisions + (clashes index.exact name id).toNat +
        (clashes index.lowered low id).toNat + (clashes index.normalized key id).toNat }

/-- Register several names. -/
def registerAll (index : CandidateIndex) (entries : List (String × String)) : CandidateIndex :=
  entries.foldl (fun index (name, id) => index.register name id) index

/-- The entity that a name refers to. -/
def lookup (index : CandidateIndex) (name : String) : Option String :=
  ((index.exact.get? name).or (index.lowered.get? (Text.lowerString name))).or
    (index.normalized.get? (normalizeKey name))

/-- The number of distinct names. -/
def size (index : CandidateIndex) : Nat :=
  index.exact.length

end CandidateIndex

end SiteAtlas
