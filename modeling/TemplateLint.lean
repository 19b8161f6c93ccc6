import TemplateLint.Main
import TemplateLint.Session.Host
import TemplateLint.Proofs.Anchor
import TemplateLint.Proofs.Template.Body
import TemplateLint.Proofs.Template.Trace
import TemplateLint.Proofs.Template.Layout
import TemplateLint.Proofs.Template.Fragment
import TemplateLint.Proofs.Stylesheet.Lexer
import TemplateLint.Proofs.Stylesheet.Checker
import TemplateLint.Proofs.Stylesheet.Locality
import TemplateLint.Proofs.Stylesheet.Joint
import TemplateLint.Proofs.Stylesheet.Compose
import TemplateLint.Proofs.Path
import TemplateLint.Proofs.Session.Journal
import TemplateLint.Proofs.Template.Pointing
import TemplateLint.Proofs.Session.Lint
import TemplateLint.Proofs.Session.Stale
import TemplateLint.Proofs.Session.Host
import TemplateLint.Proofs.Template.Order
import TemplateLint.Proofs.Template.WellFormed
import TemplateLint.Proofs.Session.Bounds
import TemplateLint.Proofs.Stylesheet.Nesting
import TemplateLint.Proofs.Stylesheet.Tokens
import TemplateLint.Proofs.Stylesheet.Blocks
import TemplateLint.Proofs.Stylesheet.Colors
import TemplateLint.Proofs.Session.Indentation
import TemplateLint.Proofs.Session.Identifiers
import TemplateLint.Proofs.Files.Tree
import TemplateLint.Proofs.Session.Files
import TemplateLint.Proofs.Report.Summary
import TemplateLint.Proofs.Command.Exit
import TemplateLint.Proofs.Template.Tiling
import TemplateLint.Proofs.Template.Innermost
import TemplateLint.Proofs.Session.Malformed
import TemplateLint.Proofs.Template.Shift
import TemplateLint.Proofs.Template.Prefix
import TemplateLint.Proofs.Template.Comment
import TemplateLint.Proofs.Settings.Tree
import TemplateLint.Proofs.Settings.Environment
import TemplateLint.Proofs.Command.Flag
import TemplateLint.Proofs.Command.Precedence
import TemplateLint.Proofs.Stylesheet.Configuration
import TemplateLint.Proofs.Template.Indent
import TemplateLint.Proofs.Template.Rows
import TemplateLint.Proofs.Template.WholeLine
import TemplateLint.Proofs.Text.Pattern
import TemplateLint.Proofs.Text.SuffixFree
import TemplateLint.Proofs.Template.Tag
import TemplateLint.Proofs.Template.Window
import TemplateLint.Proofs.Template.Grammar
import TemplateLint.Proofs.Report.Caret
import TemplateLint.Proofs.Files.Discover
import TemplateLint.Proofs.Report.Export
import TemplateLint.Proofs.Template.ModuleImport
import TemplateLint.Proofs.Template.TemplateReaders
import TemplateLint.Proofs.Stylesheet.Breakdown
