import WikiPage.Arena
import WikiPage.Arena.Attribute
import WikiPage.Arena.Outline
import WikiPage.Arena.Print
import WikiPage.Arena.Read
import WikiPage.Arena.Surgery
import WikiPage.Arena.Template
import WikiPage.Arena.Text
import WikiPage.CommandLine
import WikiPage.Content
import WikiPage.EntityTable
import WikiPage.Error
import WikiPage.File
import WikiPage.Glue
import WikiPage.Index
import WikiPage.Kind
import WikiPage.Length
import WikiPage.Main
import WikiPage.Markup
import WikiPage.Markup.Parse
import WikiPage.Markup.Span
import WikiPage.Page
import WikiPage.Page.Assign
import WikiPage.Page.Attribute
import WikiPage.Page.Build
import WikiPage.Page.Category
import WikiPage.Page.Child
import WikiPage.Page.Create
import WikiPage.Page.Draft
import WikiPage.Page.Edit
import WikiPage.Page.Outline
import WikiPage.Page.Promotion
import WikiPage.Page.Property
import WikiPage.Page.Text
import WikiPage.Policy
import WikiPage.Program
import WikiPage.Proofs.Accepted
import WikiPage.Proofs.Agreement
import WikiPage.Proofs.Amending
import WikiPage.Proofs.Attributes
import WikiPage.Proofs.Blocks
import WikiPage.Proofs.Boundaries
import WikiPage.Proofs.Bracketing
import WikiPage.Proofs.Building
import WikiPage.Proofs.Canonical
import WikiPage.Proofs.Category
import WikiPage.Proofs.Children
import WikiPage.Proofs.Commuting
import WikiPage.Proofs.Conversion
import WikiPage.Proofs.Counted
import WikiPage.Proofs.Creation
import WikiPage.Proofs.Cursor
import WikiPage.Proofs.Drafts
import WikiPage.Proofs.Dressing
import WikiPage.Proofs.Durable
import WikiPage.Proofs.Ends
import WikiPage.Proofs.Escaping
import WikiPage.Proofs.Faithful
import WikiPage.Proofs.Filing
import WikiPage.Proofs.Forest
import WikiPage.Proofs.Glued
import WikiPage.Proofs.Growing
import WikiPage.Proofs.History
import WikiPage.Proofs.Keys
import WikiPage.Proofs.Landmarks
import WikiPage.Proofs.Lasting
import WikiPage.Proofs.Legible
import WikiPage.Proofs.Links
import WikiPage.Proofs.Locality
import WikiPage.Proofs.Mirror
import WikiPage.Proofs.Naming
import WikiPage.Proofs.Nesting
import WikiPage.Proofs.Opening
import WikiPage.Proofs.Paragraphs
import WikiPage.Proofs.Penning
import WikiPage.Proofs.Piping
import WikiPage.Proofs.Plain
import WikiPage.Proofs.Preserved
import WikiPage.Proofs.Progress
import WikiPage.Proofs.Promotion
import WikiPage.Proofs.Reached
import WikiPage.Proofs.Readable
import WikiPage.Proofs.Reading
import WikiPage.Proofs.Records
import WikiPage.Proofs.Refusal
import WikiPage.Proofs.Regular
import WikiPage.Proofs.Removal
import WikiPage.Proofs.Renaming
import WikiPage.Proofs.Rendering
import WikiPage.Proofs.Renewal
import WikiPage.Proofs.Repeating
import WikiPage.Proofs.Rescanned
import WikiPage.Proofs.Revising
import WikiPage.Proofs.Rooted
import WikiPage.Proofs.Runs
import WikiPage.Proofs.Scannable
import WikiPage.Proofs.Sealed
import WikiPage.Proofs.Setting
import WikiPage.Proofs.Shapes
import WikiPage.Proofs.Sheets
import WikiPage.Proofs.Sizing
import WikiPage.Proofs.Slices
import WikiPage.Proofs.Sound
import WikiPage.Proofs.Spelling
import WikiPage.Proofs.Standing
import WikiPage.Proofs.Steady
import WikiPage.Proofs.Stitching
import WikiPage.Proofs.Stored
import WikiPage.Proofs.Surgery
import WikiPage.Proofs.Surroundings
import WikiPage.Proofs.Synced
import WikiPage.Proofs.Table
import WikiPage.Proofs.Tagging
import WikiPage.Proofs.Targets
import WikiPage.Proofs.Tight
import WikiPage.Proofs.Titles
import WikiPage.Proofs.Tokens
import WikiPage.Proofs.Touching
import WikiPage.Proofs.Undoing
import WikiPage.Proofs.Upkeep
import WikiPage.Proofs.Values
import WikiPage.Proofs.Variants
import WikiPage.Proofs.Walking
import WikiPage.Proofs.Wording
import WikiPage.Reference
import WikiPage.Site
import WikiPage.SiteFile
import WikiPage.Tag
import WikiPage.Target
import WikiPage.Text.Blank
import WikiPage.Text.CaseTable
import WikiPage.Text.Lowercase
import WikiPage.Text.PrintableTable
import WikiPage.Text.Quoted
import WikiPage.Token
import WikiPage.Toml
import WikiPage.Toml.Quote
import WikiPage.Toml.Read
import WikiPage.Toml.Scalar
import WikiPage.Tree
import WikiPage.Valid
