import SiteAtlas.Text.Basic

/-!
# Module directives

A quoted directive near its beginning says that a module runs in the browser or on the server.
-/

namespace SiteAtlas.Source.Directive

/-- The number of leading characters in which a module directive counts. -/
def window : Nat := 500

/-- Whether a directive occurs in quotes of either kind. -/
def mentions (directive : String) (content : List Char) : Bool :=
  Text.contains ("'" ++ directive ++ "'").toList content ||
    Text.contains ("\"" ++ directive ++ "\"").toList content

/-- Whether a module runs in the browser. -/
def isClient (content : List Char) : Bool :=
  mentions "use client" (content.take window)

/-- Whether a module runs on the server. -/
def isServer (content : List Char) : Bool :=
  mentions "use server" (content.take window)

/-- Whether the server directive occurs anywhere, within functions included. -/
def mentionsServer (content : List Char) : Bool :=
  mentions "use server" content

end SiteAtlas.Source.Directive
