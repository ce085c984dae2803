/-!
# Frameworks and routers

What a project is built with, and how it declares its routes.
-/

namespace SiteAtlas

/-- The framework of a project. -/
inductive Framework where
  | nextjs
  | react
  | unknown
  /-- A label that detection never gives. -/
  | other (label : String)
  deriving DecidableEq, Inhabited

/-- How a project declares its routes. -/
inductive Router where
  /-- Special files in directories below `app`. -/
  | nextjsApp
  /-- Files below `pages`. -/
  | nextjsPages
  /-- Declarations in source files. -/
  | reactRouter
  | unknown
  /-- A label that detection never gives. -/
  | other (label : String)
  deriving DecidableEq, Inhabited

namespace Framework

/-- The name of a framework in reports. -/
def label : Framework → String
  | .nextjs => "nextjs"
  | .react => "react"
  | .unknown => "unknown"
  | .other label => label

/-- The framework with a given name. -/
def ofLabel (label : String) : Framework :=
  ([.nextjs, .react, .unknown].find? (·.label == label)).getD (.other label)

end Framework

namespace Router

/-- The name of a router in reports. -/
def label : Router → String
  | .nextjsApp => "nextjs-app"
  | .nextjsPages => "nextjs-pages"
  | .reactRouter => "react-router"
  | .unknown => "unknown"
  | .other label => label

/-- The router with a given name. -/
def ofLabel (label : String) : Router :=
  ([.nextjsApp, .nextjsPages, .reactRouter, .unknown].find? (·.label == label)).getD (.other label)

end Router

end SiteAtlas
