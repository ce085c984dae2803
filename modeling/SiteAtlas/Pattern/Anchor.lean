import SiteAtlas.Pattern.Spot

/-!
# Anchors

An anchor is a condition on a spot that reads no text.
-/

namespace SiteAtlas

/-- Conditions on a spot that read no text. -/
inductive Anchor where
  /-- Nothing stands before. -/
  | textStart
  /-- Nothing stands after. -/
  | textEnd
  /-- Nothing stands after but at most one line break. -/
  | lastLineEnd
  /-- Nothing or a line break stands before. -/
  | lineStart
  /-- Nothing or a line break stands after. -/
  | lineEnd
  /-- A word begins or ends here. -/
  | wordEdge (isWord : Char → Bool)
  /-- No word begins or ends here, in a text that is not empty. -/
  | wordInside (isWord : Char → Bool)

/-- Whether a character of a class stands at the head of a list. -/
def headIs (p : Char → Bool) : List Char → Bool
  | [] => false
  | c :: _ => p c

/-- Whether an anchor holds at a spot. -/
def Anchor.holds (s : Spot) : Anchor → Bool
  | .textStart => s.before.isEmpty
  | .textEnd => s.after.isEmpty
  | .lastLineEnd => s.after.isEmpty || s.after == ['\n']
  | .lineStart => s.before.isEmpty || headIs (· == '\n') s.before
  | .lineEnd => s.after.isEmpty || headIs (· == '\n') s.after
  | .wordEdge isWord => headIs isWord s.before != headIs isWord s.after
  | .wordInside isWord =>
    headIs isWord s.before == headIs isWord s.after && !(s.before.isEmpty && s.after.isEmpty)

end SiteAtlas
