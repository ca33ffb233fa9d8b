import Adf.Convert.Inspect
import Adf.Main
import Adf.Proofs.Convert.Conservation
import Adf.Proofs.Convert.Validity
import Adf.Schema.Context
import Adf.Schema.ProblemJson
import Adf.Proofs.Convert.Nesting
import Adf.Proofs.Schema.Acceptance
import Adf.Proofs.Document.Text
import Adf.Proofs.Schema.Evidence
import Adf.Proofs.Convert.Texts
import Adf.Proofs.Schema.Reach
import Adf.Proofs.Convert.Histories
import Adf.Proofs.Convert.OpenNodes
import Adf.Proofs.Document.Unique
import Adf.Proofs.Schema.Relocation
import Adf.Proofs.Convert.Balance
import Adf.Proofs.Convert.Layers
import Adf.Proofs.Markdown.Calls
import Adf.Proofs.Schema.Order
import Adf.Proofs.Convert.Closing
import Adf.Proofs.Convert.Segments
import Adf.Proofs.Markdown.AltText
import Adf.Proofs.Markdown.Labels
import Adf.Proofs.Markdown.SpelledOut
import Adf.Proofs.Convert.Autolinks
import Adf.Proofs.Convert.Unseen
import Adf.Proofs.Schema.Blocks
import Adf.Proofs.Schema.Distinct
import Adf.Proofs.Schema.PathText
import Adf.Proofs.Json.Extension
import Adf.Proofs.Schema.Ignored
import Adf.Proofs.Json.Restatement
import Adf.Proofs.Node.Children
import Adf.Proofs.Schema.ProblemReading
import Adf.Proofs.Json.Unambiguous
import Adf.Proofs.Node.Shape
