import RichText.Document.Build
import RichText.Document.Encode
import RichText.Main
import RichText.Proofs.Html.Output
import RichText.Proofs.Tree.Containers
import RichText.Proofs.Tree.Numbering
import RichText.Proofs.Tree.Levels
import RichText.Proofs.Block.Essence
import RichText.Proofs.Block.Strictness
import RichText.Proofs.Tree.Lines
import RichText.Proofs.Tree.Dump
import RichText.Proofs.Tree.Growth
import RichText.Proofs.Tree.Links
import RichText.Proofs.Tree.Making
import RichText.Proofs.Tree.Relocation
import RichText.Proofs.Tree.Code
import RichText.Proofs.Command.Stages
import RichText.Proofs.Render.Dropped
import RichText.Proofs.Render.Locality
import RichText.Proofs.Render.Outcome
import RichText.Proofs.Render.Containers
import RichText.Proofs.Document.RoundTrip
import RichText.Proofs.Markdown.Lookalikes
import RichText.Proofs.Markdown.Tags
import RichText.Proofs.PlainText.Words
import RichText.Proofs.PlainText.Content
import RichText.Proofs.Render.Failure
import RichText.Proofs.Registry.Names
import RichText.Proofs.Markdown.Escaping
import RichText.Proofs.Render.Finished
import RichText.Proofs.Manifest.Entries
import RichText.Proofs.Document.Presentation
import RichText.Proofs.PlainText.Rows
import RichText.Proofs.Document.Additions
import RichText.Proofs.Markdown.CodeBlocks
import RichText.Proofs.Tree.States
