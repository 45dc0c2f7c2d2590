import ViewBundle.FileTree
import ViewBundle.Main
import ViewBundle.Proofs.Artifact
import ViewBundle.Proofs.BodyEnd
import ViewBundle.Proofs.CanonicalPath
import ViewBundle.Proofs.CompileOutcome
import ViewBundle.Proofs.Declarations
import ViewBundle.Proofs.Dependency
import ViewBundle.Proofs.Descent
import ViewBundle.Proofs.EnclosingDirectories
import ViewBundle.Proofs.ExtensionChoice
import ViewBundle.Proofs.FailedRun
import ViewBundle.Proofs.FirstCandidate
import ViewBundle.Proofs.FirstFailure
import ViewBundle.Proofs.FusedTag
import ViewBundle.Proofs.ImportCycle
import ViewBundle.Proofs.ImportTree
import ViewBundle.Proofs.Insertion
import ViewBundle.Proofs.LayerGrouping
import ViewBundle.Proofs.ManifestLines
import ViewBundle.Proofs.Memoization
import ViewBundle.Proofs.ModuleSearch
import ViewBundle.Proofs.NormalPath
import ViewBundle.Proofs.RecognizedExtensions
import ViewBundle.Proofs.RegistryModule
import ViewBundle.Proofs.ResolvedFile
import ViewBundle.Proofs.RunOver
import ViewBundle.Proofs.Scanning
import ViewBundle.Proofs.Scope
import ViewBundle.Proofs.ScriptString
import ViewBundle.Proofs.Spelling
import ViewBundle.Proofs.TemplateFault
import ViewBundle.Proofs.TemplateNormal
import ViewBundle.Proofs.Termination
import ViewBundle.Proofs.WholeFile
import ViewBundle.Proofs.WrittenTag
import ViewBundle.Proofs.WrittenViews
