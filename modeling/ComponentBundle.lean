import ComponentBundle.Main
import ComponentBundle.Files.Digest
import ComponentBundle.Project.Fingerprint
import ComponentBundle.Proofs.ImportOrder
import ComponentBundle.Proofs.LinkTargets
import ComponentBundle.Proofs.Compaction
import ComponentBundle.Proofs.ImportReading
import ComponentBundle.Proofs.HoistedImports
import ComponentBundle.Proofs.ClosingReach
import ComponentBundle.Proofs.Stripping
import ComponentBundle.Proofs.CommentRemoval
import ComponentBundle.Proofs.Bytewise
import ComponentBundle.Proofs.Declarations
import ComponentBundle.Proofs.Unshielding
import ComponentBundle.Proofs.TopLevelNames
import ComponentBundle.Proofs.NamedExports
import ComponentBundle.Proofs.ExportWords
import ComponentBundle.Proofs.RenderedExports
import ComponentBundle.Proofs.RelinkedExports
import ComponentBundle.Proofs.ExportRemoval
import ComponentBundle.Proofs.SingleExport
import ComponentBundle.Proofs.SessionRuns
import ComponentBundle.Proofs.TreeChanges
import ComponentBundle.Proofs.FileReplacement
import ComponentBundle.Proofs.WrittenFiles
import ComponentBundle.Proofs.FailedEvents
import ComponentBundle.Proofs.PathParts
import ComponentBundle.Proofs.ComponentListing
import ComponentBundle.Proofs.CompiledAssets
import ComponentBundle.Proofs.TreeReading
import ComponentBundle.Proofs.SameSources
import ComponentBundle.Proofs.RepeatedWriting
import ComponentBundle.Proofs.Rebuilding
import ComponentBundle.Proofs.ResolvedComponents
import ComponentBundle.Proofs.Watching
import ComponentBundle.Proofs.AdvertisedNames
import ComponentBundle.Proofs.Delivery
import ComponentBundle.Proofs.NameReferences
import ComponentBundle.Proofs.DefaultBlocks
import ComponentBundle.Proofs.KeptSource
import ComponentBundle.Proofs.SpecifierPlaces
import ComponentBundle.Proofs.StatementPlaces
import ComponentBundle.Proofs.MemberLists
import ComponentBundle.Proofs.ImportClauses
import ComponentBundle.Proofs.PrintedImports
import ComponentBundle.Proofs.ExportFields
import ComponentBundle.Proofs.GivenIdentifiers
import ComponentBundle.Proofs.BelowRoot
import ComponentBundle.Proofs.RelativeSpelling
import ComponentBundle.Proofs.ChangedPaths
import ComponentBundle.Proofs.HostUrls
import ComponentBundle.Proofs.Restoring
import ComponentBundle.Proofs.Tightening
import ComponentBundle.Proofs.PositionLookups
import ComponentBundle.Proofs.ImportRemoval
import ComponentBundle.Proofs.OverlappingEdits
import ComponentBundle.Proofs.NestedLiterals
import ComponentBundle.Proofs.DivisionSlashes
import ComponentBundle.Proofs.TemplateBlocks
