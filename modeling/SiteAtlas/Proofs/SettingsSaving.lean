import SiteAtlas.Proofs.SettingsLoading
import SiteAtlas.Proofs.Surrogates
import Mathlib.Data.List.Induction

/-!
# Saving settings

A save reads the file, changes one entry and writes everything back. If refused, or without a place
to write, it leaves the file alone; else it changes nothing but that entry, as far as the library
reads back what it wrote. A document that cannot be written leaves the file empty.

Over a run of saves, a setting has the value given last, unless the file was emptied since.
-/

namespace SiteAtlas

open List

open SiteAtlas.Data (Value)

variable {value : Value} {text key : String} {name : SettingKey} {top : Keyed Value}
  {file : SettingsFile} {calls : List (String × String)}

/-- Values that are the same up to the order of the keys in tables. -/
inductive Data.Value.Same : Value → Value → Prop
  | refl (v : Value) : Same v v
  | list {a b : List Value} (h : List.Forall₂ Same a b) : Same (.list a) (.list b)
  | table {a b : Keyed Value} (h : ∀ key, Option.Rel Same (a.get? key) (b.get? key)) :
    Same (.table a) (.table b)

open Data.Value (Same)

/-- Every entry is the same as itself. -/
theorem Data.Value.rel_same_refl (entry : Option Value) : Option.Rel Same entry entry := by
  cases entry with
  | none => exact .none
  | some value => exact .some (.refl value)

mutual

/-- Whether values are the same. -/
def Data.Value.equals : Value → Value → Bool
  | .null, .null => true
  | .bool a, .bool b => a == b
  | .int a, .int b => a == b
  | .float a, .float b => a == b
  | .text a, .text b => a == b
  | .moment a, .moment b => a == b
  | .list a, .list b => equalItems a b
  | .table a, .table b => equalEntries a b
  | _, _ => false

/-- Whether two lists of values are equal. -/
def Data.Value.equalItems : List Value → List Value → Bool
  | [], [] => true
  | v :: a, w :: b => v.equals w && equalItems a b
  | _, _ => false

/-- Whether two tables have equal entries in the same order. -/
def Data.Value.equalEntries : List (String × Value) → List (String × Value) → Bool
  | [], [] => true
  | (k, v) :: a, (l, w) :: b => k == l && v.equals w && equalEntries a b
  | _, _ => false

end

mutual

/-- Values found the same are equal. -/
theorem Data.Value.eq_of_equals {v w : Value} (h : v.equals w = true) : v = w := by
  cases v with
  | null =>
    cases w with
    | null => rfl
    | _ => cases h
  | bool a =>
    cases w with
    | bool b => exact congrArg Value.bool (beq_iff_eq.mp h)
    | _ => cases h
  | int a =>
    cases w with
    | int b => exact congrArg Value.int (beq_iff_eq.mp h)
    | _ => cases h
  | float a =>
    cases w with
    | float b => exact congrArg Value.float (beq_iff_eq.mp h)
    | _ => cases h
  | text a =>
    cases w with
    | text b => exact congrArg Value.text (beq_iff_eq.mp h)
    | _ => cases h
  | moment a =>
    cases w with
    | moment b => exact congrArg Value.moment (beq_iff_eq.mp h)
    | _ => cases h
  | list a =>
    cases w with
    | list b => exact congrArg Value.list (eq_of_equalItems h)
    | _ => cases h
  | table a =>
    cases w with
    | table b => exact congrArg Value.table (eq_of_equalEntries h)
    | _ => cases h

/-- Lists that are found to be equal are. -/
theorem Data.Value.eq_of_equalItems {a b : List Value} (h : equalItems a b = true) : a = b := by
  cases a with
  | nil => cases b <;> simp_all [equalItems]
  | cons v a =>
    cases b with
    | nil => simp [equalItems] at h
    | cons w b =>
      rw [equalItems, Bool.and_eq_true] at h
      rw [eq_of_equals h.1, eq_of_equalItems h.2]

/-- Tables that are found to be equal are. -/
theorem Data.Value.eq_of_equalEntries {a b : List (String × Value)}
    (h : equalEntries a b = true) : a = b := by
  cases a with
  | nil => cases b <;> simp_all [equalEntries]
  | cons v a =>
    cases b with
    | nil => simp [equalEntries] at h
    | cons w b =>
      obtain ⟨k, v⟩ := v
      obtain ⟨l, w⟩ := w
      rw [equalEntries, Bool.and_eq_true, Bool.and_eq_true, beq_iff_eq] at h
      rw [h.1.1, eq_of_equals h.1.2, eq_of_equalEntries h.2]

end

/-- An entry that is the same as one that is there is there itself. -/
theorem Data.Value.exists_same_of_rel {entry : Option Value}
    (h : Option.Rel Same (some value) entry) : ∃ other, entry = some other ∧ Same value other := by
  cases h with
  | some hsame => exact ⟨_, rfl, hsame⟩

/-- The same as a table is a table. -/
theorem Data.Value.Same.exists_table {a : Keyed Value} {v : Value} (h : Same (.table a) v) :
    ∃ b : Keyed Value, v = .table b ∧ ∀ key, Option.Rel Same (a.get? key) (b.get? key) := by
  cases h with
  | refl => exact ⟨a, rfl, fun key => rel_same_refl _⟩
  | table h => exact ⟨_, rfl, h⟩

/-- The same as texts is equal. -/
theorem Data.Value.Same.eq_of_texts {texts : List String} {v : Value}
    (h : Same (.list (texts.map .text)) v) : v = .list (texts.map .text) := by
  cases h with
  | refl => rfl
  | @list _ b h =>
    congr 1
    induction texts generalizing b with
    | nil => exact forall₂_nil_left_iff.mp h
    | cons text texts ih =>
      obtain ⟨v, rest, hv, hrest, rfl⟩ := forall₂_cons_left_iff.mp h
      cases hv
      rw [ih hrest, map_cons]

/-- An error says that the file was emptied. -/
def SettingsError.IsLoss : SettingsError → Prop
  | .unwritable _ | .unencodable _ => True
  | _ => False

namespace Settings

variable {toml : Data.Toml.Library}

/-- The same values give the same workers. -/
theorem workersAt_eq_of_same {a b : Option Value} (h : Option.Rel Same a b) :
    workersAt a = workersAt b := by
  cases h with
  | none => rfl
  | some h => cases h <;> rfl

/-- Workers are saved as the integer of the text, at least one. -/
theorem exists_of_valueOf_maxWorkers (h : valueOf text .maxWorkers = .ok value) :
    ∃ n, Number.readInteger text.toList = .ok n ∧ 1 ≤ n ∧ value = .int n := by
  rw [valueOf] at h
  split at h
  · rename_i n hread
    split at h
    · cases h
    · rename_i hn
      exact ⟨n, hread, Int.not_lt.mp hn, (Except.ok.inj h).symm⟩
  · cases h

/-- The same as a setting's value is equal. -/
theorem eq_of_same_valueOf {other : Value} (hvalue : valueOf text name = .ok value)
    (h : Same value other) : other = value := by
  cases name with
  | maxWorkers =>
    obtain ⟨n, -, -, rfl⟩ := exists_of_valueOf_maxWorkers hvalue
    cases h
    rfl
  | ignoreDirs =>
    cases hvalue
    exact h.eq_of_texts

/-- An entry the same as a setting's is equal. -/
theorem eq_some_of_rel_valueOf {entry : Option Value} (hvalue : valueOf text name = .ok value)
    (h : Option.Rel Same (some value) entry) : entry = some value := by
  obtain ⟨other, rfl, hsame⟩ := Data.Value.exists_same_of_rel h
  rw [eq_of_same_valueOf hvalue hsame]

/-- A document differs from another in one setting: the table for scans has its new value, and all
else is kept. -/
structure SetsOnly (name : SettingKey) (value : Value) (old new : Keyed Value) : Prop where
  scan : ∃ entries : Keyed Value, new.get? scanTable = some (.table entries) ∧
    entries.get? name.label = some value ∧
    ∀ label, label ≠ name.label →
      Option.Rel Same ((scanEntries old).get? label) (entries.get? label)
  others : ∀ key, key ≠ scanTable → Option.Rel Same (old.get? key) (new.get? key)

/-- A library reads a document back from its text, up to the order of keys. -/
def ReadsBack (toml : Data.Toml.Library) (top : Keyed Value) : Prop :=
  ∀ text, toml.write top = .ok text → ∃ read, toml.read (Text.unifyNewlines text) = .ok read ∧
    ∀ key, Option.Rel Same (top.get? key) (read.get? key)

/-- A document that reads back is found in its file. -/
theorem ReadsBack.document_eq [Host] {text : List Char} {bytes : List UInt8}
    (hback : ReadsBack toml top) (htext : toml.write top = .ok text)
    (hbytes : Text.encode text = .ok bytes) :
    ∃ read, (SettingsFile.content bytes).document toml = .ok read ∧
      ∀ key, Option.Rel Same (top.get? key) (read.get? key) := by
  obtain ⟨read, hread, hsame⟩ := hback text htext
  refine ⟨read, ?_, hsame⟩
  have hfile : Text.ofBytes? bytes = some (Text.unifyNewlines text) := by
    rw [Text.ofBytes?, Text.decodeUtf8_of_encode hbytes, Option.map_some]
  simp only [SettingsFile.document, hfile, hread]

/-- A changed document, read back, differs in one setting only. -/
theorem setsOnly_of_same {old new : Keyed Value} (hvalue : valueOf text name = .ok value)
    (h : ∀ key, Option.Rel Same ((change old name value).get? key) (new.get? key)) :
    SetsOnly name value old new := by
  have hchange : change old name value =
      old.put scanTable (.table ((scanEntries old).put name.label value)) := rfl
  simp only [hchange, Keyed.get?_put, beq_iff_eq] at h
  refine ⟨?_, fun key hkey => ?_⟩
  · have hscan := h scanTable
    rw [if_pos rfl] at hscan
    obtain ⟨v, hnew, hsame⟩ := Data.Value.exists_same_of_rel hscan
    obtain ⟨entries, rfl, hentries⟩ := hsame.exists_table
    simp only [Keyed.get?_put, beq_iff_eq] at hentries
    refine ⟨entries, hnew, ?_, fun label hlabel => ?_⟩
    · have hset := hentries name.label
      rw [if_pos rfl] at hset
      exact eq_some_of_rel_valueOf hvalue hset
    · have hkept := hentries label
      rwa [if_neg hlabel] at hkept
  · have hkept := h key
    rwa [if_neg hkey] at hkept

/-- Every setting is found by its name, and only by that. -/
theorem ofLabel?_eq_some_iff : SettingKey.ofLabel? key = some name ↔ key = name.label := by
  constructor
  · intro h
    rw [SettingKey.ofLabel?] at h
    have hlabel := find?_some h
    exact (beq_iff_eq.mp hlabel).symm
  · rintro rfl
    cases name <;> decide

/-- A save comes to writing with a known setting, a value and a document. -/
theorem changed_eq_ok_iff :
    changed toml file key text = .ok top ↔ ∃ name value old, key = name.label ∧
      valueOf text name = .ok value ∧ file.document toml = .ok old ∧
      top = change old name value := by
  constructor
  · intro h
    rw [changed] at h
    split at h
    · cases h
    · rename_i name hname
      obtain ⟨value, hvalue, h⟩ := exists_of_bind_eq_ok h
      obtain ⟨old, hold, h⟩ := exists_of_bind_eq_ok h
      exact ⟨name, value, old, ofLabel?_eq_some_iff.mp hname, hvalue, hold, (Except.ok.inj h).symm⟩
  · rintro ⟨name, value, old, hkey, hvalue, hold, rfl⟩
    rw [changed, ofLabel?_eq_some_iff.mpr hkey]
    simp only [hvalue, hold]
    rfl

section

variable [Host]

/-- A document cannot be written: it has no text, or that no bytes. -/
inductive CannotWrite (toml : Data.Toml.Library) (top : Keyed Value) : SettingsError → Prop
  | unwritable {fault : Data.Toml.Fault} (h : toml.write top = .error fault) :
    CannotWrite toml top (.unwritable fault)
  | unencodable {out : List Char} {e : Text.EncodeError} (h : toml.write top = .ok out)
    (hout : Text.encode out = .error e) : CannotWrite toml top (.unencodable e)

/-- What a save can do to a file. -/
inductive Saved (toml : Data.Toml.Library) (file : SettingsFile) (key text : String) :
    SettingsFile × Except SettingsError Bool → Prop
  | refused {e : SettingsError} (h : changed toml file key text = .error e) :
    Saved toml file key text (file, .error e)
  | unreachable {top : Keyed Value} (h : changed toml file key text = .ok top)
    (hfile : file = .directory ∨ file = .blocked) : Saved toml file key text (file, .ok false)
  | emptied {top : Keyed Value} {e : SettingsError} (h : changed toml file key text = .ok top)
    (hfile : file ≠ .directory ∧ file ≠ .blocked) (hwrite : CannotWrite toml top e) :
    Saved toml file key text (.content [], .error e)
  | written {top : Keyed Value} {out : List Char} {bytes : List UInt8}
    (h : changed toml file key text = .ok top) (hfile : file ≠ .directory ∧ file ≠ .blocked)
    (hwrite : toml.write top = .ok out) (hbytes : Text.encode out = .ok bytes) :
    Saved toml file key text (.content bytes, .ok true)

/-- A save does one of these things. -/
theorem saved_save (toml : Data.Toml.Library) (file : SettingsFile) (key text : String) :
    Saved toml file key text (save toml file key text) := by
  unfold save
  split
  · rename_i top htop
    unfold store
    split
    · exact .unreachable htop (.inl rfl)
    · exact .unreachable htop (.inr rfl)
    · rename_i hdir hblocked
      split
      · rename_i out hwrite
        split
        · rename_i bytes hbytes
          exact .written htop ⟨hdir, hblocked⟩ hwrite hbytes
        · rename_i e hbytes
          exact .emptied htop ⟨hdir, hblocked⟩ (.unencodable hwrite hbytes)
      · rename_i fault hwrite
        exact .emptied htop ⟨hdir, hblocked⟩ (.unwritable hwrite)
  · rename_i e he
    exact .refused he

/-- What is promised of one save: when it succeeds, that it leaves the file alone where not, except
if the document cannot be written, and that it sets nothing else where it does. -/
structure SaveKeeps (toml : Data.Toml.Library) (file : SettingsFile) (key text : String) :
    Prop where
  succeeds_iff : (save toml file key text).2 = .ok true ↔ ∃ name value old out bytes,
    key = name.label ∧ valueOf text name = .ok value ∧ file.document toml = .ok old ∧
    file ≠ .directory ∧ file ≠ .blocked ∧ toml.write (change old name value) = .ok out ∧
    Text.encode out = .ok bytes
  unreachable : (save toml file key text).2 = .ok false → (save toml file key text).1 = file
  failed : ∀ e, (save toml file key text).2 = .error e → (save toml file key text).1 = file ∨
    (save toml file key text).1 = .content [] ∧
      ∃ top, changed toml file key text = .ok top ∧ CannotWrite toml top e
  written : (save toml file key text).2 = .ok true → ∃ name value old new, key = name.label ∧
    valueOf text name = .ok value ∧ file.document toml = .ok old ∧
    (save toml file key text).1.document toml = .ok new ∧ SetsOnly name value old new

/-- A save keeps its promise if the document that it writes reads back. -/
theorem saveKeeps (hback : (save toml file key text).2 = .ok true →
      ∀ top, changed toml file key text = .ok top → ReadsBack toml top) :
    SaveKeeps toml file key text := by
  have hsaved := saved_save toml file key text
  generalize hresult : save toml file key text = result at hsaved hback
  refine ⟨⟨fun h => ?_, fun h => ?_⟩, fun h => ?_, fun e h => ?_, fun h => ?_⟩
  all_goals rw [hresult] at *
  · cases hsaved with
    | written hchanged hfile hwrite hbytes =>
      obtain ⟨name, value, old, hkey, hvalue, hold, rfl⟩ := changed_eq_ok_iff.mp hchanged
      exact ⟨name, value, old, _, _, hkey, hvalue, hold, hfile.1, hfile.2, hwrite, hbytes⟩
    | refused => cases h
    | unreachable => cases h
    | emptied => cases h
  · obtain ⟨name, value, old, out, bytes, hkey, hvalue, hold, hdir, hblocked, hwrite,
      hbytes⟩ := h
    have hchanged := changed_eq_ok_iff.mpr ⟨name, value, old, hkey, hvalue, hold, rfl⟩
    cases hsaved with
    | written => rfl
    | refused herror => cases hchanged.symm.trans herror
    | unreachable _ hfile => rcases hfile with rfl | rfl <;> contradiction
    | emptied hother _ hcannot =>
      obtain rfl := Except.ok.inj (hchanged.symm.trans hother)
      cases hcannot with
      | unwritable herror => cases hwrite.symm.trans herror
      | unencodable hout herror =>
        obtain rfl := Except.ok.inj (hwrite.symm.trans hout)
        cases hbytes.symm.trans herror
  · cases hsaved with
    | unreachable => rfl
    | refused => cases h
    | emptied => cases h
    | written => cases h
  · cases hsaved with
    | refused => exact .inl rfl
    | emptied hchanged _ hcannot =>
      exact .inr ⟨rfl, _, hchanged, Except.error.inj h ▸ hcannot⟩
    | unreachable => cases h
    | written => cases h
  · cases hsaved with
    | written hchanged _ hwrite hbytes =>
      obtain ⟨name, value, old, hkey, hvalue, hold, rfl⟩ := changed_eq_ok_iff.mp hchanged
      obtain ⟨new, hnew, hsame⟩ := (hback h _ hchanged).document_eq hwrite hbytes
      exact ⟨name, value, old, new, hkey, hvalue, hold, hnew, setsOnly_of_same hvalue hsame⟩
    | refused => cases h
    | unreachable => cases h
    | emptied => cases h

/-- What a run of saves leaves of a file. -/
def saves (toml : Data.Toml.Library) (file : SettingsFile) (calls : List (String × String)) :
    SettingsFile :=
  calls.foldl (fun file call => (save toml file call.1 call.2).1) file

/-- A call of a run, with the file that it finds. -/
def CallOf (toml : Data.Toml.Library) (file : SettingsFile) (calls : List (String × String))
    (before : SettingsFile) (key text : String) : Prop :=
  ∃ made left, calls = made ++ (key, text) :: left ∧ before = saves toml file made

/-- A setting was saved in a run, and neither again nor lost since. -/
inductive LastSaved (toml : Data.Toml.Library) (file : SettingsFile) (name : SettingKey)
    (text : String) : List (String × String) → Prop
  | now {calls : List (String × String)}
    (h : (save toml (saves toml file calls) name.label text).2 = .ok true) :
    LastSaved toml file name text (calls ++ [(name.label, text)])
  | before {calls : List (String × String)} {key other : String}
    (h : LastSaved toml file name text calls)
    (hkept : ∀ e, (save toml (saves toml file calls) key other).2 = .error e → ¬ e.IsLoss)
    (hother : (save toml (saves toml file calls) key other).2 = .ok true → key ≠ name.label) :
    LastSaved toml file name text (calls ++ [(key, other)])

/-- One more save at the end of a run. -/
theorem saves_snoc (file : SettingsFile) (calls : List (String × String)) (key text : String) :
    saves toml file (calls ++ [(key, text)]) = (save toml (saves toml file calls) key text).1 := by
  rw [saves, foldl_append]
  rfl

/-- The calls of a run are those of a longer one. -/
theorem CallOf.snoc {before : SettingsFile} (h : CallOf toml file calls before key text)
    (call : String × String) : CallOf toml file (calls ++ [call]) before key text := by
  obtain ⟨made, left, rfl, rfl⟩ := h
  exact ⟨made, left ++ [call], by simp, rfl⟩

/-- The last call of a run finds what the others left. -/
theorem callOf_last (file : SettingsFile) (calls : List (String × String)) (key text : String) :
    CallOf toml file (calls ++ [(key, text)]) (saves toml file calls) key text :=
  ⟨calls, [], rfl, rfl⟩

/-- A file holds a document in which a setting has the value of a text. -/
def Holds (toml : Data.Toml.Library) (file : SettingsFile) (name : SettingKey) (text : String) :
    Prop :=
  ∃ top value, file.document toml = .ok top ∧ valueOf text name = .ok value ∧
    (scanEntries top).get? name.label = some value

omit [Host] in
/-- A table for scans is found by its name. -/
theorem scanEntries_eq {entries : Keyed Value} (h : top.get? scanTable = some (.table entries)) :
    scanEntries top = entries := by
  rw [scanEntries, h]

/-- A save that succeeds gives its setting the value of its text. -/
theorem holds_save (hkeeps : SaveKeeps toml file name.label text)
    (h : (save toml file name.label text).2 = .ok true) :
    Holds toml (save toml file name.label text).1 name text := by
  obtain ⟨other, value, old, new, hlabel, hvalue, -, hnew, hsets⟩ := hkeeps.written h
  obtain rfl : other = name := by
    have hname := ofLabel?_eq_some_iff.mpr hlabel
    exact Option.some.inj (hname.symm.trans (ofLabel?_eq_some_iff.mpr rfl))
  obtain ⟨entries, hentries, hset, -⟩ := hsets.scan
  exact ⟨new, value, hnew, hvalue, by rw [scanEntries_eq hentries, hset]⟩

/-- The error of an unwritable document says the file was emptied. -/
theorem CannotWrite.isLoss {e : SettingsError} (h : CannotWrite toml top e) : e.IsLoss := by
  cases h with
  | unwritable => trivial
  | unencodable => trivial

/-- A save of something else keeps the setting's value. -/
theorem Holds.save {other : String} (h : Holds toml file name text)
    (hkeeps : SaveKeeps toml file key other)
    (hkept : ∀ e, (Settings.save toml file key other).2 = .error e → ¬ e.IsLoss)
    (hother : (Settings.save toml file key other).2 = .ok true → key ≠ name.label) :
    Holds toml (Settings.save toml file key other).1 name text := by
  cases houtcome : (Settings.save toml file key other).2 with
  | error e =>
    rcases hkeeps.failed e houtcome with hfile | ⟨-, top, -, hcannot⟩
    · rwa [hfile]
    · exact absurd hcannot.isLoss (hkept e houtcome)
  | ok written =>
    cases written with
    | false => rwa [hkeeps.unreachable houtcome]
    | true =>
      obtain ⟨top, value, htop, hvalue, hheld⟩ := h
      obtain ⟨set, given, old, new, rfl, -, hold, hnew, hsets⟩ := hkeeps.written houtcome
      obtain rfl := Except.ok.inj (htop.symm.trans hold)
      obtain ⟨entries, hentries, -, hrest⟩ := hsets.scan
      have hsame := hrest name.label (Ne.symm (hother houtcome))
      rw [hheld] at hsame
      refine ⟨new, value, hnew, hvalue, ?_⟩
      rw [scanEntries_eq hentries]
      exact eq_some_of_rel_valueOf hvalue hsame

/-- Over a run, the setting that was last saved keeps its value. -/
theorem LastSaved.holds (h : LastSaved toml file name text calls)
    (hkeeps : ∀ before key other, CallOf toml file calls before key other →
      SaveKeeps toml before key other) : Holds toml (saves toml file calls) name text := by
  -- By induction on the calls since the setting was saved, the last one first.
  induction h with
  | now h =>
    rw [saves_snoc]
    exact holds_save (hkeeps _ _ _ (callOf_last ..)) h
  | before _ hkept hother ih =>
    rw [saves_snoc]
    refine (ih fun before key other hcall => hkeeps _ _ _ (hcall.snoc _)).save ?_ hkept hother
    exact hkeeps _ _ _ (callOf_last ..)

/-- The settings in a file are those in its document. -/
theorem load_eq_ofDocument (h : file.document toml = .ok top) :
    load toml file = ofDocument top := by
  rw [load, h]
  rfl

/-- Settings cannot be loaded exactly if their workers cannot. -/
theorem ofDocument_eq_error_iff {e : SettingsError} : ofDocument top = .error e ↔
      workersAt ((scanEntries top).get? SettingKey.maxWorkers.label) = .error e := by
  rw [ofDocument_eq]
  cases workersAt ((scanEntries top).get? SettingKey.maxWorkers.label) <;> simp [Except.map]

/-- An empty file has all defaults, if it is an empty document. -/
theorem load_empty (hempty : toml.read [] = .ok []) : load toml (.content []) = .ok {} := by
  have hdocument : (SettingsFile.content []).document toml = .ok [] := by
    have htext : Text.ofBytes? [] = some [] := rfl
    simp only [SettingsFile.document, htext, hempty]
  rw [load_eq_ofDocument hdocument]
  rfl

/-- No save makes the number of workers infinite. -/
theorem load_eq_of_save (hempty : toml.read [] = .ok []) (hkeeps : SaveKeeps toml file key text)
    (h : load toml (save toml file key text).1 = .error .infiniteWorkers) :
    load toml file = .error .infiniteWorkers := by
  cases houtcome : (save toml file key text).2 with
  | error e =>
    rcases hkeeps.failed e houtcome with hfile | ⟨hfile, -⟩
    · rwa [hfile] at h
    · rw [hfile, load_empty hempty] at h
      cases h
  | ok written =>
    cases written with
    | false => rwa [hkeeps.unreachable houtcome] at h
    | true =>
      obtain ⟨name, value, old, new, -, hvalue, hold, hnew, hsets⟩ := hkeeps.written houtcome
      obtain ⟨entries, hentries, hset, hrest⟩ := hsets.scan
      rw [load_eq_ofDocument hnew, ofDocument_eq_error_iff, scanEntries_eq hentries] at h
      rw [load_eq_ofDocument hold, ofDocument_eq_error_iff]
      cases name with
      | maxWorkers =>
        obtain ⟨n, -, -, rfl⟩ := exists_of_valueOf_maxWorkers hvalue
        rw [hset] at h
        cases h
      | ignoreDirs =>
        rw [workersAt_eq_of_same (hrest _ (by decide)), h]

/-- No run of saves makes the number of workers infinite. -/
theorem load_eq_of_saves (hempty : toml.read [] = .ok [])
    (hkeeps : ∀ before key text, CallOf toml file calls before key text →
      SaveKeeps toml before key text)
    (h : load toml (saves toml file calls) = .error .infiniteWorkers) :
    load toml file = .error .infiniteWorkers := by
  induction calls using List.reverseRecOn with
  | nil => exact h
  | append_singleton calls call ih =>
    rw [saves_snoc] at h
    refine ih (fun before key text hcall => hkeeps _ _ _ (hcall.snoc _)) ?_
    exact load_eq_of_save hempty (hkeeps _ _ _ (callOf_last ..)) h

/-- Held workers are loaded. -/
theorem Holds.load_maxWorkers (h : Holds toml file .maxWorkers text) :
    ∃ settings n, load toml file = .ok settings ∧
      Number.readInteger text.toList = .ok n ∧ settings.maxWorkers = n := by
  obtain ⟨top, value, htop, hvalue, hheld⟩ := h
  obtain ⟨n, hread, hn, rfl⟩ := exists_of_valueOf_maxWorkers hvalue
  have hends := ends_ofDocument top
  rw [load_eq_ofDocument htop]
  cases hload : ofDocument top with
  | error e =>
    rw [hload] at hends
    obtain ⟨-, negative, hinfinite⟩ := hends.of_error
    cases hheld.symm.trans hinfinite
  | ok settings =>
    rw [hload] at hends
    refine ⟨settings, n, rfl, hread, ?_⟩
    rw [hends.of_ok.1.workers _ hheld n (.int n), Int.max_eq_right hn]

/-- Held directories are loaded, unless workers are infinite. -/
theorem Holds.load_ignoreDirs (h : Holds toml file .ignoreDirs text) :
    (∃ settings, load toml file = .ok settings ∧ settings.ignoreDirs = splitList text) ∨
      load toml file = .error .infiniteWorkers := by
  obtain ⟨top, value, htop, hvalue, hheld⟩ := h
  cases hvalue
  have hends := ends_ofDocument top
  rw [load_eq_ofDocument htop]
  cases hload : ofDocument top with
  | error e =>
    rw [hload] at hends
    exact .inr (by rw [hends.of_error.1])
  | ok settings =>
    rw [hload] at hends
    refine .inl ⟨settings, rfl, ?_⟩
    rw [hends.of_ok.1.directories _ hheld, map_map]
    exact map_id _

/-- With every library to which an empty text is an empty document, and in every run of saves whose
documents read back, each call keeps its promise, and in the end every setting saved, and not lost
with the file since, has its last value. Only an infinite number of workers from the start still
bars them. -/
theorem saves_keep_last (toml : Data.Toml.Library) (hempty : toml.read [] = .ok [])
    (file : SettingsFile) (calls : List (String × String))
    (hback : ∀ before key text, CallOf toml file calls before key text →
      (save toml before key text).2 = .ok true →
        ∀ top, changed toml before key text = .ok top → ReadsBack toml top) :
    (∀ before key text, CallOf toml file calls before key text → SaveKeeps toml before key text) ∧
      (∀ text, LastSaved toml file .maxWorkers text calls → ∃ settings n,
        load toml (saves toml file calls) = .ok settings ∧
          Number.readInteger text.toList = .ok n ∧ settings.maxWorkers = n) ∧
      ∀ text, LastSaved toml file .ignoreDirs text calls →
        (∃ settings, load toml (saves toml file calls) = .ok settings ∧
          settings.ignoreDirs = splitList text) ∨ load toml file = .error .infiniteWorkers ∧
          load toml (saves toml file calls) = .error .infiniteWorkers := by
  have hkeeps : ∀ before key text, CallOf toml file calls before key text →
      SaveKeeps toml before key text :=
    fun before key text hcall => saveKeeps (hback before key text hcall)
  refine ⟨hkeeps, fun text hlast => (hlast.holds hkeeps).load_maxWorkers, fun text hlast => ?_⟩
  rcases (hlast.holds hkeeps).load_ignoreDirs with hloaded | hinfinite
  · exact .inl hloaded
  · exact .inr ⟨load_eq_of_saves hempty hkeeps hinfinite, hinfinite⟩

/-- Whether a document reads back with its keys in the same order. -/
def readsBack (toml : Data.Toml.Library) (top : Keyed Value) : Bool :=
  match toml.write top with
  | .ok text =>
    match toml.read (Text.unifyNewlines text) with
    | .ok read => Value.equals (.table top) (.table read)
    | .error _ => false
  | .error _ => true

/-- Whether all documents of a run read back with their keys in the same order. -/
def allReadBack (toml : Data.Toml.Library) (file : SettingsFile) : List (String × String) → Bool
  | [] => true
  | (key, text) :: rest =>
    (match changed toml file key text with
      | .ok top => readsBack toml top
      | .error _ => true) && allReadBack toml (save toml file key text).1 rest

omit [Host] in
/-- A document that is found to read back does. -/
theorem readsBack_of_check (h : readsBack toml top = true) : ReadsBack toml top := by
  intro text htext
  rw [readsBack, htext] at h
  dsimp only at h
  split at h
  · rename_i read hread
    refine ⟨read, hread, fun key => ?_⟩
    obtain ⟨⟩ := Value.eq_of_equals h
    exact Value.rel_same_refl _
  · cases h

/-- Where a run is found to read back, every document of it does. -/
theorem readsBack_of_allReadBack {before : SettingsFile} (h : allReadBack toml file calls = true)
    (hcall : CallOf toml file calls before key text) (htop : changed toml before key text = .ok top)
    : ReadsBack toml top := by
  obtain ⟨made, left, rfl, rfl⟩ := hcall
  induction made generalizing file with
  | nil =>
    rw [nil_append, allReadBack, Bool.and_eq_true] at h
    have hfirst := h.1
    rw [show changed toml file key text = .ok top from htop] at hfirst
    exact readsBack_of_check hfirst
  | cons call made ih =>
    rw [cons_append, allReadBack, Bool.and_eq_true] at h
    exact ih h.2 htop

end

section

attribute [local instance] Host.usual

open Data.Toml (library)

/-- A file with a setting of something else. -/
def darkFile : SettingsFile :=
  .content (Text.toBytes "[ui]\ntheme = \"dark\"\n")

/-- Saves of which the last one is refused. -/
def darkCalls : List (String × String) :=
  [("max_workers", "2"), ("ignore_dirs", "b, c,"), ("max_workers", "0")]

/-- Both settings are saved and loaded as they were given last. -/
theorem saves_keep_last_darkFile : library.read [] = .ok [] ∧
    LastSaved library darkFile .maxWorkers "2" darkCalls ∧
    LastSaved library darkFile .ignoreDirs "b, c," darkCalls ∧
    (∃ settings n, load library (saves library darkFile darkCalls) = .ok settings ∧
      Number.readInteger "2".toList = .ok n ∧ settings.maxWorkers = n) ∧
    ((∃ settings, load library (saves library darkFile darkCalls) = .ok settings ∧
        settings.ignoreDirs = splitList "b, c,") ∨ load library darkFile = .error .infiniteWorkers ∧
        load library (saves library darkFile darkCalls) = .error .infiniteWorkers) := by
  have hempty : library.read [] = .ok [] := rfl
  have hfirst : (save library (saves library darkFile []) "max_workers" "2").2 = .ok true := by
    decide +kernel
  have hsecond : (save library (saves library darkFile ([] ++ [("max_workers", "2")]))
      "ignore_dirs" "b, c,").2 = .ok true := by decide +kernel
  have hthird : (save library (saves library darkFile (([] ++ [("max_workers", "2")]) ++
      [("ignore_dirs", "b, c,")])) "max_workers" "0").2 = .error .tooFewWorkers := by
    decide +kernel
  have hnoLoss : ∀ e, (save library (saves library darkFile (([] ++ [("max_workers", "2")]) ++
      [("ignore_dirs", "b, c,")])) "max_workers" "0").2 = .error e → ¬ e.IsLoss := by
    intro e he
    obtain rfl := Except.error.inj (hthird.symm.trans he)
    exact id
  have hsaved : LastSaved library darkFile .maxWorkers "2" ([] ++ [("max_workers", "2")]) :=
    .now hfirst
  have hkept := hsaved.before (fun e h => nomatch hsecond.symm.trans h) fun _ => by decide
  have hworkers : LastSaved library darkFile .maxWorkers "2" darkCalls :=
    hkept.before hnoLoss fun h => nomatch hthird.symm.trans h
  have hset : LastSaved library darkFile .ignoreDirs "b, c,"
      (([] ++ [("max_workers", "2")]) ++ [("ignore_dirs", "b, c,")]) := .now hsecond
  have hdirectories : LastSaved library darkFile .ignoreDirs "b, c," darkCalls :=
    hset.before hnoLoss fun h => nomatch hthird.symm.trans h
  have hrun := saves_keep_last library hempty darkFile darkCalls fun before key text hcall _ top =>
    readsBack_of_allReadBack (by decide +kernel) hcall
  exact ⟨hempty, hworkers, hdirectories, hrun.2.1 _ hworkers, hrun.2.2 _ hdirectories⟩

/-- A text that cannot be written takes everything in the file with it. -/
theorem save_empties_darkFile : save library darkFile "ignore_dirs" "\x01" =
      (.content [], .error (.unwritable .noItem)) := by
  decide +kernel

end

end Settings

end SiteAtlas
