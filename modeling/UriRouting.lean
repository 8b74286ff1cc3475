import UriRouting.Json.Reader
import UriRouting.Component.Encoding
import UriRouting.Manifest.Loading
import UriRouting.Route.Table
import UriRouting.Template.Generation
import UriRouting.Uri.Composition
import UriRouting.Proofs.Template.Language
import UriRouting.Proofs.Template.RoundTrip
import UriRouting.Proofs.Route.Order
import UriRouting.Proofs.Route.Selection
import UriRouting.Proofs.Template.Groups
import UriRouting.Proofs.Template.Preorder
import UriRouting.Proofs.Template.Grammar
import UriRouting.Proofs.Component.Spelling
import UriRouting.Proofs.Template.Embedding
import UriRouting.Proofs.Component.Alphabet
import UriRouting.Proofs.Uri.Rendering
import UriRouting.Proofs.Uri.Delimiters
import UriRouting.Proofs.Uri.Query
import UriRouting.Proofs.Component.Reencoding
import UriRouting.Proofs.Component.Meaning
import UriRouting.Proofs.Route.Answer
import UriRouting.Proofs.Template.Recovery
import UriRouting.Proofs.Template.Positional
import UriRouting.Proofs.Uri.Named
import UriRouting.Proofs.Uri.Listed
import UriRouting.Proofs.Template.Structure
import UriRouting.Proofs.Pattern.Whole
import UriRouting.Proofs.Manifest.Loading
import UriRouting.Proofs.Template.Longest
import UriRouting.Proofs.Template.Bindings
import UriRouting.Proofs.Template.Normalized
import UriRouting.Proofs.Component.Fixpoint
import UriRouting.Proofs.Route.Registration
import UriRouting.Proofs.Component.PrefixCode
import UriRouting.Proofs.Component.Division
import UriRouting.Proofs.Component.Faults
import UriRouting.Proofs.Regex.Blanks
import UriRouting.Proofs.Template.TrailingBlanks
import UriRouting.Proofs.Text.Hash
