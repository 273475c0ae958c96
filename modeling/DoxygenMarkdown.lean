import DoxygenMarkdown.Main
import DoxygenMarkdown.Site
import DoxygenMarkdown.Proofs.Bindings.Reread
import DoxygenMarkdown.Proofs.Comment.BlankLine
import DoxygenMarkdown.Proofs.Comment.LeadingTag
import DoxygenMarkdown.Proofs.Comment.NestedList
import DoxygenMarkdown.Proofs.Comment.Verbatim
import DoxygenMarkdown.Proofs.Plain.Page
import DoxygenMarkdown.Proofs.Bindings.Locality
import DoxygenMarkdown.Proofs.Sections.Group
import DoxygenMarkdown.Proofs.Sections.Order
import DoxygenMarkdown.Proofs.Sections.Separator
import DoxygenMarkdown.Proofs.Fences.Outline
import DoxygenMarkdown.Proofs.Fences.Reading
import DoxygenMarkdown.Proofs.Fences.Gathering
import DoxygenMarkdown.Proofs.Fences.Block
import DoxygenMarkdown.Proofs.Fences.Kept
import DoxygenMarkdown.Proofs.Fences.Written
import DoxygenMarkdown.Proofs.Fences.Pointers
import DoxygenMarkdown.Proofs.Fences.Count
import DoxygenMarkdown.Proofs.Fences.Paired
import DoxygenMarkdown.Proofs.Site.Page
import DoxygenMarkdown.Proofs.Site.Run
import DoxygenMarkdown.Proofs.Site.Strict
import DoxygenMarkdown.Proofs.FileTree.Listing
import DoxygenMarkdown.Proofs.FileTree.Linked
import DoxygenMarkdown.Proofs.Text.Utf8
import DoxygenMarkdown.Proofs.Bindings.Converted
import DoxygenMarkdown.Proofs.Batch.KeptLines
import DoxygenMarkdown.Proofs.Batch.Arguments
import DoxygenMarkdown.Proofs.Batch.Progress
import DoxygenMarkdown.Proofs.Batch.Selection
import DoxygenMarkdown.Proofs.Batch.DryRun
import DoxygenMarkdown.Proofs.Sections.Paragraphs
import DoxygenMarkdown.Proofs.Sections.Projection
import DoxygenMarkdown.Proofs.Sections.CodeParagraph
import DoxygenMarkdown.Proofs.Comment.Bullets
import DoxygenMarkdown.Proofs.Inline
import DoxygenMarkdown.Proofs.Comment.Failure
import DoxygenMarkdown.Proofs.Comment.Attaching
import DoxygenMarkdown.Proofs.Comment.IndentedCode
import DoxygenMarkdown.Proofs.Sections.EntryLines
import DoxygenMarkdown.Proofs.Bindings.Literal
import DoxygenMarkdown.Proofs.Bindings.Segmentation
import DoxygenMarkdown.Proofs.Site.DirectiveBlock
import DoxygenMarkdown.Proofs.Site.Options
import DoxygenMarkdown.Proofs.Batch.Effect
import DoxygenMarkdown.Proofs.Site.HeadingLevel
import DoxygenMarkdown.Proofs.Batch.Endings
import DoxygenMarkdown.Proofs.Comment.Spelling
import DoxygenMarkdown.Proofs.Bindings.Declaration
import DoxygenMarkdown.Proofs.Token.Canonical
import DoxygenMarkdown.Proofs.Comment.Apart
import DoxygenMarkdown.Proofs.Comment.TagCase
import DoxygenMarkdown.Proofs.Inline.Images
import DoxygenMarkdown.Proofs.Comment.Conservation
import DoxygenMarkdown.Proofs.Comment.WellFormed
import DoxygenMarkdown.Proofs.Comment.EdgeDepth
import DoxygenMarkdown.Proofs.Outline.Shift
import DoxygenMarkdown.Proofs.Marker.Agreement
