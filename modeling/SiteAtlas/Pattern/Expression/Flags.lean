/-!
# Flags of written patterns

Flags say how a part of a written pattern is read; a group may turn them on and off.
-/

namespace SiteAtlas.Expression

/-- How a part of a written pattern is to be read. -/
structure Flags where
  /-- Do not tell capitals from small letters. -/
  ignoreCase : Bool := false
  /-- Line breaks begin and end lines for the line anchors. -/
  multiline : Bool := false
  /-- The dot reads line breaks too. -/
  dotAll : Bool := false
  /-- Blanks and comments between parts do not count. -/
  verbose : Bool := false
  /-- Classes and case concern the ASCII block only. -/
  ascii : Bool := false
  deriving DecidableEq

/-- Flags named by their letters. -/
structure FlagLetters where
  ignoreCase : Bool := false
  multiline : Bool := false
  dotAll : Bool := false
  verbose : Bool := false
  ascii : Bool := false
  unicode : Bool := false
  deriving DecidableEq

/-- Add a flag letter, not both for ASCII and all. -/
def FlagLetters.add? (letters : FlagLetters) : Char → Option FlagLetters
  | 'i' => some { letters with ignoreCase := true }
  | 'm' => some { letters with multiline := true }
  | 's' => some { letters with dotAll := true }
  | 'x' => some { letters with verbose := true }
  | 'a' => if letters.unicode then none else some { letters with ascii := true }
  | 'u' => if letters.ascii then none else some { letters with unicode := true }
  | _ => none

/-- Flags that a group turns on and off. -/
structure FlagChange where
  on : FlagLetters := {}
  off : FlagLetters := {}
  deriving DecidableEq

/-- Whether a change is possible, no flag both on and off. -/
def FlagChange.isAllowed (change : FlagChange) : Bool :=
  !(change.off.ascii || change.off.unicode || (change.on.ignoreCase && change.off.ignoreCase) ||
    (change.on.multiline && change.off.multiline) || (change.on.dotAll && change.off.dotAll) ||
    (change.on.verbose && change.off.verbose))

/-- Flags after a change. -/
def Flags.changed (flags : Flags) (change : FlagChange) : Flags :=
  { ignoreCase := (flags.ignoreCase || change.on.ignoreCase) && !change.off.ignoreCase
    multiline := (flags.multiline || change.on.multiline) && !change.off.multiline
    dotAll := (flags.dotAll || change.on.dotAll) && !change.off.dotAll
    verbose := (flags.verbose || change.on.verbose) && !change.off.verbose
    ascii := (flags.ascii && !change.on.unicode) || change.on.ascii }

end SiteAtlas.Expression
