import PageCompiler.Main
import PageCompiler.Proofs.ArtifactOwners
import PageCompiler.Proofs.ConditionFaults
import PageCompiler.Proofs.ConditionMarkers
import PageCompiler.Proofs.ConditionValues
import PageCompiler.Proofs.DeclaredNames
import PageCompiler.Proofs.DocumentHeads
import PageCompiler.Proofs.FailedFiles
import PageCompiler.Proofs.FunctionBodies
import PageCompiler.Proofs.ImportSearch
import PageCompiler.Proofs.MountedComponents
import PageCompiler.Proofs.OutputPlaces
import PageCompiler.Proofs.PageConstants
import PageCompiler.Proofs.PageMetadata
import PageCompiler.Proofs.PropertyAttributes
import PageCompiler.Proofs.PropsTypes
import PageCompiler.Proofs.RouteBrackets
import PageCompiler.Proofs.RoutePatterns
import PageCompiler.Proofs.ScannedImports
