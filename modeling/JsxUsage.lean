import JsxUsage.CommandLine.Run
import JsxUsage.ComponentTree.Expansion
import JsxUsage.Json.Reader
import JsxUsage.Main
import JsxUsage.Proofs.FileIsolation
import JsxUsage.Proofs.MermaidEdges
import JsxUsage.Proofs.TreeCycles
import JsxUsage.Proofs.TreeOmissions
import JsxUsage.Proofs.ComponentDeclarations
import JsxUsage.Proofs.MermaidShape
import JsxUsage.Proofs.JsonGrammar
import JsxUsage.Proofs.JsonReading
import JsxUsage.Proofs.PathParts
import JsxUsage.Proofs.TreeDocumentReading
import JsxUsage.Proofs.CachedFiles
import JsxUsage.Proofs.CatalogPaths
import JsxUsage.Proofs.ProjectOutcome
import JsxUsage.Proofs.RegistrationOrder
import JsxUsage.Proofs.NameCollisions
import JsxUsage.Proofs.CacheRuns
import JsxUsage.Proofs.FileWriting
import JsxUsage.Proofs.CommandEffects
import JsxUsage.Proofs.Descents
import JsxUsage.Proofs.CatalogExclusion
import JsxUsage.Proofs.ImportTargets
import JsxUsage.Proofs.ImportCandidates
import JsxUsage.Proofs.DocumentLinks
import JsxUsage.Proofs.UsageGroups
import JsxUsage.Proofs.SharedNames
import JsxUsage.Proofs.ImportReadings
import JsxUsage.Proofs.CursorVisits
import JsxUsage.Proofs.DeclarationScope
import JsxUsage.Proofs.TreeDepth
import JsxUsage.Proofs.CatalogListing
import JsxUsage.Proofs.CursorTours
import JsxUsage.Proofs.ComponentFlags
import JsxUsage.Proofs.ErrorLines
