import Mustache.Value.Reader
import Mustache.Renderer
import Mustache.FileTree
import Mustache.Invocation
import Mustache.Proofs.Conformance
import Mustache.Proofs.Resolution
import Mustache.Proofs.Runs
import Mustache.Proofs.Emission
import Mustache.Proofs.Composition
import Mustache.Proofs.Exits
import Mustache.Proofs.Results
import Mustache.Proofs.Streaming
import Mustache.Proofs.Escaping
import Mustache.Proofs.Reading
import Mustache.Proofs.References
import Mustache.Proofs.Framing
import Mustache.Proofs.Interpretation
import Mustache.Proofs.Agreement
import Mustache.Proofs.Tiling
import Mustache.Proofs.Locality
import Mustache.Proofs.Fragments
import Mustache.Proofs.Changes
import Mustache.Proofs.Unplaced
import Mustache.Proofs.FragmentLines
import Mustache.Proofs.Bounds
import Mustache.Proofs.Recognition
import Mustache.Proofs.TagNames
import Mustache.Proofs.Nesting
import Mustache.Proofs.SourceOrder
import Mustache.Proofs.Dependencies
import Mustache.Proofs.Relocation
import Mustache.Proofs.Inheritance
import Mustache.Proofs.Rows
import Mustache.Proofs.Indentation
import Mustache.Proofs.Printing
import Mustache.Proofs.Failures
import Mustache.Proofs.Relaxation
import Mustache.Proofs.Transparency
import Mustache.Proofs.Displacement
import Mustache.Proofs.CommentLines
import Mustache.Proofs.Origins
import Mustache.Proofs.Expansions
import Mustache.Proofs.Locations
import Mustache.Proofs.CodeReading
import Mustache.Proofs.LineEndings
import Mustache.Proofs.ConvertedSources
import Mustache.Proofs.ConvertedPrograms
import Mustache.Proofs.Inference
import Mustache.Proofs.Normalization
import Mustache.Proofs.InnerFragments
import Mustache.Proofs.Arena
import Mustache.Proofs.NormalTexts
import Mustache.Proofs.Arguments
import Mustache.Proofs.Unwrapping
import Mustache.Proofs.BareTokens
import Mustache.Proofs.BareSources
