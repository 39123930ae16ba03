import ApiDoc.Text.Basic
import ApiDoc.Text.Case
import ApiDoc.Warning
import ApiDoc.Doc.ClassDoc
import ApiDoc.Comment.Undecorate
import ApiDoc.Comment.Tag
import ApiDoc.Comment.Scan
import ApiDoc.Comment.DefaultValue
import ApiDoc.Comment.Argument
import ApiDoc.Comment.Parsed
import ApiDoc.Comment.Detect
import ApiDoc.Comment.Groups
import ApiDoc.Comment.Nesting
import ApiDoc.Comment.Record
import ApiDoc.Code.Body
import ApiDoc.Code.StyleValue
import ApiDoc.Code.Classify
import ApiDoc.Entry.Extract
import ApiDoc.Registry.Change
import ApiDoc.TypeExpr.Known
import ApiDoc.Assembly
import ApiDoc.Config.Discovery
import ApiDoc.Run
import ApiDoc.Proofs.Inheritance.Depth
import ApiDoc.Proofs.Registry.History
import ApiDoc.Proofs.Inheritance.Build
import ApiDoc.Proofs.Visibility.Map
import ApiDoc.Proofs.Visibility.Lookup
import ApiDoc.Proofs.Grouping.Account
import ApiDoc.Proofs.Grouping.Run
import ApiDoc.Proofs.Grouping.Conservation
import ApiDoc.Proofs.Assembly.Names
import ApiDoc.Proofs.Assembly.Ownership
import ApiDoc.Proofs.Grouping.Families
import ApiDoc.Proofs.Registry.Refresh
import ApiDoc.Proofs.Visibility.Displacement
import ApiDoc.Proofs.Grouping.Entries
import ApiDoc.Proofs.Grouping.Origins
import ApiDoc.Proofs.Assembly.Absorption
import ApiDoc.Proofs.Assembly.Outline
import ApiDoc.Proofs.Assembly.Routing
import ApiDoc.Proofs.Visibility.Renumbering
import ApiDoc.Proofs.Registry.Permuted
import ApiDoc.Proofs.InheritedDocs.Outcome
import ApiDoc.Proofs.InheritedDocs.Renumbering
import ApiDoc.Proofs.InheritedDocs.Chain
import ApiDoc.Proofs.InheritedDocs.Order
import ApiDoc.Proofs.InheritedDocs.References
import ApiDoc.Proofs.InheritedDocs.ClassDocs
import ApiDoc.Proofs.Assembly.Ids
import ApiDoc.Proofs.Assembly.Collisions
import ApiDoc.Proofs.Entry.Readings
import ApiDoc.Proofs.Entry.Unmarked
import ApiDoc.Proofs.Assembly.Defined
import ApiDoc.Proofs.Assembly.EventOptions
import ApiDoc.Proofs.Comment.Cut
import ApiDoc.Proofs.Run.Sequential
import ApiDoc.Proofs.TypeExpr.Lexeme
import ApiDoc.Proofs.TypeExpr.Completeness
import ApiDoc.Proofs.TypeExpr.Soundness
import ApiDoc.Proofs.TypeExpr.Rendering
import ApiDoc.Proofs.Entry.AttributeTypes
import ApiDoc.Proofs.Assembly.AttributeTypes
import ApiDoc.Proofs.Code.Sections
import ApiDoc.Proofs.Comment.Balanced
import ApiDoc.Proofs.Comment.Configs
import ApiDoc.Proofs.Comment.Params
import ApiDoc.Proofs.Registry.FirstSeen
import ApiDoc.Proofs.Assembly.PartTypes
import ApiDoc.Proofs.Assembly.Patching
import ApiDoc.Proofs.Files.Collected
import ApiDoc.Proofs.TypeExpr.Continued
import ApiDoc.Proofs.TypeExpr.FunctionTypes
import ApiDoc.Proofs.Completion.Calls
import ApiDoc.Proofs.Completion.Accessors
import ApiDoc.Proofs.Completion.Enumerations
import ApiDoc.Proofs.Code.ReturnPaths
import ApiDoc.Proofs.Comment.OpenDefaults
import ApiDoc.Proofs.Comment.NamedTags
import ApiDoc.Proofs.Comment.Forest
import ApiDoc.Proofs.Comment.Reordered
import ApiDoc.Proofs.Comment.Enclosed
import ApiDoc.Proofs.Grouping.Combinations
import ApiDoc.Proofs.InheritedDocs.Frame
import ApiDoc.Proofs.Comment.Decoration
import ApiDoc.Proofs.Comment.References
import ApiDoc.Proofs.Comment.Bytes.Parse
import ApiDoc.Proofs.Comment.LastTag
import ApiDoc.Proofs.Entry.InferredFlags
import ApiDoc.Proofs.Entry.ClassComments
import ApiDoc.Proofs.Stylesheet.BlockComments
import ApiDoc.Proofs.Text.Trimmed
import ApiDoc.Proofs.Warning.Rules
import ApiDoc.Proofs.Stylesheet.MixinHeads
import ApiDoc.Proofs.Assembly.Returns
import ApiDoc.Proofs.Grouping.GlobalMembers
import ApiDoc.Proofs.Comment.Bytes.Braces
import ApiDoc.Proofs.Text.LineIndex
