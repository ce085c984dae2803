import SiteAtlas.Main
import SiteAtlas.Proofs.ActionSegments
import SiteAtlas.Proofs.Appending
import SiteAtlas.Proofs.CatalogExport
import SiteAtlas.Proofs.DeclaredProps
import SiteAtlas.Proofs.DirectoryRoutes
import SiteAtlas.Proofs.DotText
import SiteAtlas.Proofs.ExactListing
import SiteAtlas.Proofs.HtmlCounts
import SiteAtlas.Proofs.JsonCommas
import SiteAtlas.Proofs.LayoutNesting
import SiteAtlas.Proofs.MatcherRoutes
import SiteAtlas.Proofs.MixedRoutes
import SiteAtlas.Proofs.PageFiles
import SiteAtlas.Proofs.PrintedExports
import SiteAtlas.Proofs.Rearranging
import SiteAtlas.Proofs.RelativeImports
import SiteAtlas.Proofs.RepeatedAccesses
import SiteAtlas.Proofs.ServerActions
import SiteAtlas.Proofs.SettingsSaving
import SiteAtlas.Proofs.UnreadableFiles
import SiteAtlas.Proofs.UtilityHooks
