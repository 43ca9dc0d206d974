import ApiReference.Html.Tree
import ApiReference.Json.Writer
import ApiReference.Markdown.Fence
import ApiReference.Session
import ApiReference.Proofs.Document.Appending
import ApiReference.Proofs.Document.Sections
import ApiReference.Proofs.Markdown.TableRoundTrip
import ApiReference.Proofs.Text.Reading
import ApiReference.Proofs.Markdown.Lines
import ApiReference.Proofs.Markdown.TableLines
import ApiReference.Proofs.Markdown.Fence
import ApiReference.Proofs.Html.Entity
import ApiReference.Proofs.Html.Element
import ApiReference.Proofs.Html.Translation
import ApiReference.Proofs.Html.Spacing
import ApiReference.Proofs.Package.Slug
import ApiReference.Proofs.Json.Layout
import ApiReference.Proofs.Json.Writing
import ApiReference.Proofs.Entry.Writing
import ApiReference.Proofs.Entry.RoundTrip
import ApiReference.Proofs.Json.Reordering
import ApiReference.Proofs.Entry.Reordering
import ApiReference.Proofs.Json.Typing
import ApiReference.Proofs.Json.Refusal
import ApiReference.Proofs.Json.Shape
import ApiReference.Proofs.Entry.Typing
import ApiReference.Proofs.Entry.Place
import ApiReference.Proofs.Package.Reordering
import ApiReference.Proofs.Package.Writing
import ApiReference.Proofs.Package.RoundTrip
import ApiReference.Proofs.Entry.Lookup
import ApiReference.Proofs.Document.Course
import ApiReference.Proofs.Document.Failure
import ApiReference.Proofs.Document.Agreement
import ApiReference.Proofs.Document.Completion
import ApiReference.Proofs.Document.Report
import ApiReference.Proofs.Document.Header
import ApiReference.Proofs.Document.Spacing
import ApiReference.Proofs.Document.Samples
import ApiReference.Proofs.Document.Fields
import ApiReference.Proofs.Markdown.BlankLines
import ApiReference.Proofs.Html.Layout
import ApiReference.Proofs.Html.Brackets
import ApiReference.Proofs.Html.SimpleTags
import ApiReference.Proofs.Session
