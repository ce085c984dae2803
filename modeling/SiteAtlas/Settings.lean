import SiteAtlas.Data.Toml.Fault
import SiteAtlas.Number.IntegerText
import SiteAtlas.Text.Utf8

/-!
# Settings

A file with a table `scan`. If missing or malformed it counts as empty, and a setting that makes no
sense as absent. Saving a setting keeps everything else. How texts are read and written is up to a
library.
-/

namespace SiteAtlas

open SiteAtlas.Data (Value)
open SiteAtlas.Data.Value (plain)
open SiteAtlas.Number (IntegerError Binary64)

/-- What is at the place of the settings file. -/
inductive SettingsFile where
  | missing
  /-- A directory is in its place. -/
  | directory
  /-- The directory for it cannot exist. -/
  | blocked
  | content (bytes : List UInt8)
  deriving DecidableEq

/-- Settings of scans. -/
structure Settings where
  /-- How many files are read at a time. -/
  maxWorkers : Int := 4
  /-- Names of directories to pass over. -/
  ignoreDirs : List String := []
  deriving DecidableEq

/-- The settings by name. -/
inductive SettingKey where
  | maxWorkers
  | ignoreDirs
  deriving DecidableEq

namespace SettingKey

/-- All settings. -/
def all : List SettingKey :=
  [.maxWorkers, .ignoreDirs]

/-- How a setting is named. -/
def label : SettingKey → String
  | .maxWorkers => "max_workers"
  | .ignoreDirs => "ignore_dirs"

/-- The setting of a name. -/
def ofLabel? (label : String) : Option SettingKey :=
  all.find? (·.label == label)

end SettingKey

/-- Why settings cannot be read or saved. -/
inductive SettingsError where
  /-- The file is not text. -/
  | notText
  /-- The file holds a fault that goes beyond a malformed text. -/
  | broken (fault : Data.Toml.Fault)
  | infiniteWorkers
  /-- There is no such setting. -/
  | unknownKey (key : String)
  /-- The number of workers is no integer. -/
  | notAnInteger (text : String) (cause : IntegerError)
  /-- The number of workers is less than one. -/
  | tooFewWorkers
  /-- A document has no text; the file is left empty. -/
  | unwritable (fault : Data.Toml.Fault)
  /-- The text of a document has no bytes; the file is left empty. -/
  | unencodable (e : Text.EncodeError)
  deriving DecidableEq

/-- What is said about an error. -/
def SettingsError.message [Host] : SettingsError → String
  | .notText => "the settings file is not text"
  | .broken fault => fault.message
  | .infiniteWorkers => "cannot convert float infinity to integer"
  | .unknownKey key => key
  | .notAnInteger text cause => cause.message text.toList
  | .tooFewWorkers => "max_workers must be at least 1"
  | .unwritable fault => fault.message
  | .unencodable e => e.message

/-- The table of scan settings. -/
def scanTable : String := "scan"

namespace SettingsFile

/-- Everything in the file; nothing if it is malformed. -/
def document (toml : Data.Toml.Library) : SettingsFile → Except SettingsError (Keyed Value)
  | .content bytes =>
    match Text.ofBytes? bytes with
    | some cs =>
      match toml.read cs with
      | .ok top => .ok top
      | .error .malformed => .ok []
      | .error fault => .error (.broken fault)
    | none => .error .notText
  | _ => .ok []

end SettingsFile

namespace Settings

variable [Host] (toml : Data.Toml.Library)

/-- The workers that a value gives, at least one, if it gives a number. -/
def workersOf : Value → Except SettingsError (Option Int)
  | .int n => .ok (some (max 1 n))
  | .bool b => .ok (some (max 1 (if b then 1 else 0)))
  | .float (.infinite _) => .error .infiniteWorkers
  | .float x => .ok (x.truncate?.map (max 1 ·))
  | .text s => .ok ((Number.readInteger s.toList).toOption.map (max 1 ·))
  | _ => .ok none

/-- The directories that a value names; none if it is no list. -/
def directoriesOf : Value → Option (List String)
  | .list items => some (items.map plain)
  | _ => none

/-- The settings in a document, with defaults for what makes no sense. -/
def ofDocument (top : Keyed Value) : Except SettingsError Settings :=
  match top.get? scanTable with
  | some (.table entries) => do
    let workers ← match Keyed.get? entries SettingKey.maxWorkers.label with
      | some value => workersOf value
      | none => .ok none
    let directories := (Keyed.get? entries SettingKey.ignoreDirs.label).bind directoriesOf
    return { maxWorkers := workers.getD ({} : Settings).maxWorkers
             ignoreDirs := directories.getD ({} : Settings).ignoreDirs }
  | _ => .ok {}

/-- The settings in a file. -/
def load (file : SettingsFile) : Except SettingsError Settings := do
  ofDocument (← file.document toml)

/-- The parts of a text between commas, trimmed and not empty. -/
def splitList (text : String) : List String :=
  (((Text.splitOn ',' text.toList).map Text.trim).filter (!·.isEmpty)).map String.ofList

/-- The value of a text for a setting. -/
def valueOf (text : String) : SettingKey → Except SettingsError Value
  | .maxWorkers =>
    match Number.readInteger text.toList with
    | .ok n => if n < 1 then .error .tooFewWorkers else .ok (.int n)
    | .error cause => .error (.notAnInteger text cause)
  | .ignoreDirs => .ok (.list ((splitList text).map .text))

/-- A document with a setting changed, in a table of its own. -/
def change (top : Keyed Value) (key : SettingKey) (value : Value) : Keyed Value :=
  let entries : Keyed Value := match top.get? scanTable with
    | some (.table entries) => entries
    | _ => []
  top.put scanTable (.table (entries.put key.label value))

/-- The document in a file with a setting changed. -/
def changed (file : SettingsFile) (key text : String) : Except SettingsError (Keyed Value) := do
  match SettingKey.ofLabel? key with
  | none => .error (.unknownKey key)
  | some key =>
    let value ← valueOf text key
    return change (← file.document toml) key value

/-- Put a document into the file's place, if it can be written. -/
def store (file : SettingsFile) (top : Keyed Value) : SettingsFile × Except SettingsError Bool :=
  match file with
  | .directory => (file, .ok false)
  | .blocked => (file, .ok false)
  | _ =>
    match toml.write top with
    | .ok text =>
      match Text.encode text with
      | .ok bytes => (.content bytes, .ok true)
      | .error e => (.content [], .error (.unencodable e))
    | .error fault => (.content [], .error (.unwritable fault))

/-- Save a setting; it tells whether the file could be written. -/
def save (file : SettingsFile) (key text : String) : SettingsFile × Except SettingsError Bool :=
  match changed toml file key text with
  | .ok top => store toml file top
  | .error e => (file, .error e)

end Settings

end SiteAtlas
