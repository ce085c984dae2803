import SiteAtlas.Data.Toml.Moment
import SiteAtlas.Data.Toml.Splitting

/-!
# Assignments of TOML

An assignment is cut at the first equals sign outside strings that a value may follow. Its key may
name tables on the way, made where missing; no key is assigned twice.
-/

namespace SiteAtlas.Data.Toml

/-- An assignment as it is written. -/
structure Assignment where
  key : List Char
  value : List Char
  /-- Underscores and leading zeros are where they may be. -/
  isPlain : Bool

/-- Whether what follows an equals sign directly can be a value. -/
def mayFollow (cs : List Char) : Bool :=
  match cs with
  | [] => true
  | c :: _ =>
    c == ' ' || c == '\t' || isQuote c || c == '[' || c == '\x7b' ||
      Text.trim cs == "true".toList || Text.trim cs == "false".toList || isFloat cs ||
      (readDate? cs).isSome || (readTime? cs).isSome

/-- What follows `count` equals signs. -/
def afterEquals (line : List Char) (count : Nat) : List Char :=
  (Text.splitAtMost "=" count line).getLastD []

/-- Cut a line after `count` equals signs or later, before a value. -/
def cutLine (line : List Char) : Nat → Nat → List Char → Bool → Except Fault Assignment
  | 0, _, _, _ => .error .malformed
  | fuel + 1, count, value, isPlain =>
    if mayFollow value then
      let key := Text.join ['='] (Text.splitAtMost "=" count line).dropLast
      .ok { key := Text.trim key, value := Text.trim value, isPlain }
    else
      let next := afterEquals line (count + 1)
      if next = value then .error .malformed
      else cutLine line fuel (count + 1) next (isPlain && isPlainNumber next)

/-- Read one assignment. -/
def readAssignment (line : List Char) : Except Fault Assignment :=
  let count := firstSeparator "=" line
  let value := afterEquals line count
  let digits := if (value.head?.map Char.isDigit).getD false then value.filter (· != '_') else value
  cutLine line (Text.countText "=" line + 3) count digits (isPlainNumber value)

/-- The tables in a key, and its last name. -/
def readKey (key : List Char) : Except Fault (List String × String) :=
  if key.contains '.' then
    match (dotParts false (cutAtQuotes key)).reverse.dropWhile List.isEmpty with
    | [] => .error .noItem
    | last :: above =>
      .ok ((above.reverse.filter (!·.isEmpty)).map String.ofList, String.ofList (Text.trim last))
  else match key with
    | [] => .error .noChar
    | c :: _ =>
      if isQuote c && key.getLast? = some c then
        (decodeEscapes (inner key)).map fun name => ([], String.ofList name)
      else .ok ([], String.ofList key)

/-- What an assignment gives. -/
inductive Assigned where
  | value (v : Value)
  /-- A string that goes on in the next line. -/
  | opened (text : List Char)

/-- Assign to a new key below a row of names. -/
def assign (assigned : Except Fault Assigned) (key : String) :
    List String → Value → Except Fault Value
  | [], node => do
    let assigned ← assigned
    match node, assigned with
    | .table entries, .value v =>
      if Keyed.has entries key then .error .malformed else return .table (Keyed.put entries key v)
    | .table entries, .opened _ =>
      if Keyed.has entries key then .error .malformed else return node
    | _, _ => .error .malformed
  | name :: names, node =>
    match node with
    | .table entries => do
      let inner ← assign assigned key names ((Keyed.get? entries name).getD (.table []))
      return .table (Keyed.put entries name inner)
    | .list _ => .error .keyOfList
    | .text s => .error (if Text.stringContains name s then .keyOfText else .fixedText)
    | other => .error (.noKeys other.kind)

/-- Whether a part of a table is a whole assignment. -/
def isWholeItem (item : List Char) : Except Fault Bool :=
  if !item.contains '=' then .error .malformed
  else match Text.trim (afterEquals item 1) with
    | [] => .error .noChar
    | c :: cs =>
      let last := (c :: cs).getLast?
      .ok ((isQuote c && last = some c) || c.isDigit || c = '-' ||
        c :: cs = "true".toList || c :: cs = "false".toList ||
        (c = '[' && last = some ']') || (c = '\x7b' && last = some '\x7d'))

/-- The items of a table on one line: joined parts between commas. -/
def tableItems (item : List Char) : List (List Char) → Except Fault (List (List Char))
  | [] => do if ← isWholeItem item then return [item] else .error .malformed
  | next :: rest => do
    if ← isWholeItem item then return item :: (← tableItems next rest)
    else tableItems (item ++ ',' :: next) rest

mutual

/-- Read a value; the fuel bounds the nesting. -/
def readValue : Nat → Bool → List Char → Except Fault Value
  | 0, _, _ => .error .malformed
  | _ + 1, _, [] => .error .malformed
  | fuel + 1, isPlain, c :: rest =>
    let cs := c :: rest
    if cs = "true".toList then .ok (.bool true)
    else if cs = "false".toList then .ok (.bool false)
    else if isQuote c then (readString cs).map fun s => .text (String.ofList s)
    else if c = '[' then do
      let items ← arrayItems cs
      let values ← readItems fuel none ((items.map Text.trim).filter (!·.isEmpty))
      return .list values
    else if c = '\x7b' then readTable fuel cs (.table [])
    else match readMoment? cs with
      | some m => .ok (.moment m)
      | none =>
        if isPlain then
          match readNumber? cs with
          | some v => .ok v
          | none => .error .malformed
        else .error .malformed

/-- Read items of one kind. -/
def readItems : Nat → Option ValueKind → List (List Char) → Except Fault (List Value)
  | 0, _, _ => .error .malformed
  | _ + 1, _, [] => .ok []
  | fuel + 1, kind, item :: rest => do
    let v ← readValue fuel true item
    let sort := match v.kind with
      | .moment .dateTime => .moment .date
      | kind => kind
    if kind.any (· != sort) then .error .malformed
    return v :: (← readItems fuel (some sort) rest)

/-- Read a table on one line. -/
def readTable : Nat → List Char → Value → Except Fault Value
  | 0, _, _ => .error .malformed
  | fuel + 1, cs, node =>
    match Text.splitOn ',' (inner cs) with
    | [] => .ok node
    | first :: rest =>
      if rest.isEmpty && Text.isAllBlank first then .ok node
      else do
        let items ← tableItems first rest
        readEntries fuel items node

/-- Read assignments, up to one that opens several lines. -/
def readEntries : Nat → List (List Char) → Value → Except Fault Value
  | 0, _, _ => .error .malformed
  | _ + 1, [], node => .ok node
  | fuel + 1, item :: rest, node => do
    let (node, opened) ← readInto fuel item node
    if opened.isSome then return node else readEntries fuel rest node

/-- Read an assignment; a string that goes on is returned. -/
def readInto : Nat → List Char → Value → Except Fault (Value × Option (String × List Char))
  | 0, _, _ => .error .malformed
  | fuel + 1, line, node => do
    let assignment ← readAssignment line
    let (names, key) ← readKey assignment.key
    let assigned : Except Fault Assigned := do
      if ← opensText assignment.value then return .opened assignment.value
      else return .value (← readValue fuel assignment.isPlain assignment.value)
    let node ← assign assigned key names node
    match assigned with
    | .ok (.opened text) => return (node, some (key, text))
    | _ => return (node, none)

end

/-- Fuel for a value. -/
def fuelFor (cs : List Char) : Nat :=
  4 * cs.length + 8

end SiteAtlas.Data.Toml
