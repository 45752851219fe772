import Relabel.Renaming
import Relabel.Proofs.Agreement
import Relabel.Proofs.Builtin
import Relabel.Proofs.EmbedSize
import Relabel.Proofs.Backtracking
import Relabel.Proofs.Finding
import Relabel.Proofs.Languages
import Relabel.Proofs.Walking
import Relabel.Proofs.Flanked
import Relabel.Proofs.Filling
import Relabel.Proofs.Lexing
import Relabel.Proofs.Selectors
import Relabel.Proofs.DeclarationValues
import Relabel.Proofs.Tokens
import Relabel.Proofs.Uncased
import Relabel.Proofs.CaseFolding
import Relabel.Proofs.LowercaseForms
import Relabel.Proofs.Attributes
import Relabel.Proofs.AttributeValues
import Relabel.Proofs.Tags
import Relabel.Proofs.Markup
import Relabel.Proofs.AttributeNames
import Relabel.Proofs.NameRenaming
import Relabel.Proofs.NameDiscovery
import Relabel.Proofs.CodePositions
import Relabel.Proofs.ScriptLexing
import Relabel.Proofs.ClassLists
import Relabel.Proofs.WritingBack
import Relabel.Proofs.LocatedSpans
import Relabel.Proofs.Resolving
import Relabel.Proofs.Unchanged
import Relabel.Proofs.ScriptSelectors
import Relabel.Proofs.KeyOrder
import Relabel.Proofs.PluginLeaves
import Relabel.Proofs.AlikeReaders
import Relabel.Proofs.InvalidPatterns
import Relabel.Proofs.UnfailingExpressions
import Relabel.Proofs.NormalForms
import Relabel.Proofs.SlottedNames
import Relabel.Proofs.GuardedValues
import Relabel.Proofs.OtherAttributes
import Relabel.Proofs.Configurations
import Relabel.Proofs.GreedySplice
import Relabel.Proofs.Determined
import Relabel.Proofs.Locating
import Relabel.Proofs.ElementBodies
import Relabel.Proofs.Pages
import Relabel.Proofs.StyleAttributes
import Relabel.Proofs.TokenRuns
import Relabel.Proofs.ValueGuards
import Relabel.Proofs.ValueRenaming
import Relabel.Proofs.Locality
import Relabel.Proofs.Framing
import Relabel.Proofs.StylesInValues
import Relabel.Proofs.Progress
import Relabel.Proofs.Decorating
import Relabel.Proofs.LongestKeys
import Relabel.Proofs.OpenGroups
import Relabel.Proofs.SlotCaptures
import Relabel.Proofs.Substituting
import Relabel.Proofs.Iterating
