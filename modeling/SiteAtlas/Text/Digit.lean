import SiteAtlas.Text.CodePoint

/-!
# Decimal digits

Every script has its ten digits in one ascending block, so a digit's place there is its value.
-/

namespace SiteAtlas.Text

/-- The digits of each script, as ascending code point ranges. -/
def digitRanges : List (Nat × Nat) :=
  rangesOf
    ["^4:^bR:`2:aF:f@:_N:_N:_N:_N:_N:_N:_N:_N:_N:_8:_N:^J:c>:^J:^i>:V:cT:_X:`R:6:a6:^Z:`2:6:wrJ:lB:",
     "V:aF:F:^Z:f::m`B:^_6:^pJ:oD:_X:^@:`<:c>:dR:_N:eF:_>:_>:fJ:_>:n::bJ:^J:kw>:^Z:`2:r^0:0:0:0:0:",
     "^tT:fJ:^cV:`o6:"]

/-- The value of a digit. -/
def digitValue? (c : Char) : Option Nat :=
  (digitRanges.find? fun range => range.1 ≤ c.toNat && c.toNat ≤ range.2).map (c.toNat - ·.1)

/-- Whether `c` is a decimal digit of any script. -/
def isDigit (c : Char) : Bool :=
  (digitValue? c).isSome

end SiteAtlas.Text
