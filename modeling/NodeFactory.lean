import NodeFactory.Text.Location
import NodeFactory.Token.Basic
import NodeFactory.Binary64.Arithmetic
import NodeFactory.Binary64.Decimal
import NodeFactory.Schema.Name
import NodeFactory.Schema.ConstExpr
import NodeFactory.Schema.TypeExpr
import NodeFactory.Schema.Statement
import NodeFactory.Grammar.Parse
import NodeFactory.Grammar.Statement
import NodeFactory.Symbol.Binding
import NodeFactory.Config.Reading
import NodeFactory.Symbol.WellKnown
import NodeFactory.Subtype
import NodeFactory.Property.Enumeration
import NodeFactory.Analysis
import NodeFactory.Generation
import NodeFactory.Main
import NodeFactory.CommandLine.FileTree
import NodeFactory.Proofs.Settling
import NodeFactory.Proofs.SearchOutcome
import NodeFactory.Proofs.Supertypes
import NodeFactory.Proofs.Descent
import NodeFactory.Proofs.PropertyGraph
import NodeFactory.Proofs.PropertyLists
import NodeFactory.Proofs.PropertyEnumeration
import NodeFactory.Proofs.StableSort
import NodeFactory.Proofs.SteadyAnswer
import NodeFactory.Proofs.FieldClasses
import NodeFactory.Proofs.FieldSelection
import NodeFactory.Proofs.AnnotationText
import NodeFactory.Proofs.KindDiscovery
import NodeFactory.Proofs.FactoryScript
import NodeFactory.Proofs.Construction
import NodeFactory.Proofs.Updating
import NodeFactory.Proofs.CarriedOver
import NodeFactory.Proofs.WrittenLines
import NodeFactory.Proofs.FunctionLines
import NodeFactory.Proofs.DeclaredNames
import NodeFactory.Proofs.LayoutFree
import NodeFactory.Proofs.LayoutFreeTypes
import NodeFactory.Proofs.LayoutFreeStatements
import NodeFactory.Proofs.Locality
import NodeFactory.Proofs.LocalTypes
import NodeFactory.Proofs.DeclaredTypes
import NodeFactory.Proofs.TypeOrigins
import NodeFactory.Proofs.TypeSpans
import NodeFactory.Proofs.Relexing
import NodeFactory.Proofs.TypeText
import NodeFactory.Proofs.NodePlaces
import NodeFactory.Proofs.BalancedRuns
import NodeFactory.Proofs.TakenLexemes
import NodeFactory.Proofs.TypePlaces
import NodeFactory.Proofs.StatementPlaces
import NodeFactory.Proofs.LexemeOrder
import NodeFactory.Proofs.StatementRuns
import NodeFactory.Proofs.TokenSpellings
import NodeFactory.Proofs.SchemaSpans
import NodeFactory.Proofs.LeadingComments
import NodeFactory.Proofs.ParseProgress
import NodeFactory.Proofs.DelimiterDepth
import NodeFactory.Proofs.ClosingStatements
import NodeFactory.Proofs.JoinedTokens
import NodeFactory.Proofs.JoinedTexts
import NodeFactory.Proofs.WrittenWords
import NodeFactory.Proofs.WordRuns
import NodeFactory.Proofs.ConstExprText
import NodeFactory.Proofs.TypeWords
import NodeFactory.Proofs.WrittenTypes
import NodeFactory.Proofs.WrittenAliases
import NodeFactory.Proofs.Delimiters
import NodeFactory.Proofs.SkippedRuns
import NodeFactory.Proofs.MatchedText
import NodeFactory.Proofs.Containment
import NodeFactory.Proofs.MemberRuns
import NodeFactory.Proofs.ContainedTypes
import NodeFactory.Proofs.ReportedErrors
import NodeFactory.Proofs.ReadingOn
import NodeFactory.Proofs.RecoveredMembers
import NodeFactory.Proofs.BindingSteps
import NodeFactory.Proofs.CoherentTables
import NodeFactory.Proofs.DeclarationOrder
import NodeFactory.Proofs.RepeatedKinds
import NodeFactory.Proofs.DeclarationRuns
import NodeFactory.Proofs.RecoveredStatements
import NodeFactory.Proofs.TokenTiles
import NodeFactory.Proofs.KindBlocks
import NodeFactory.Proofs.CorrespondingInquiries
import NodeFactory.Proofs.CorrespondingTables
import NodeFactory.Proofs.CorrespondingProperties
import NodeFactory.Proofs.CorrespondingKinds
import NodeFactory.Proofs.MatchedPaths
import NodeFactory.Proofs.DeclarationNodes
import NodeFactory.Proofs.WellKnownRoles
import NodeFactory.Proofs.FreshDeclarations
import NodeFactory.Proofs.EnumConstants
import NodeFactory.Proofs.DeclaredInAnyOrder
import NodeFactory.Proofs.ListedKinds
import NodeFactory.Proofs.RevisedTables
import NodeFactory.Proofs.RegroupedNamespaces
import NodeFactory.Proofs.UndoneBreaks
import NodeFactory.Proofs.GreedyLines
import NodeFactory.Proofs.FileLines
import NodeFactory.Proofs.RealColumn
import NodeFactory.Proofs.BraceNesting
import NodeFactory.Proofs.NestedFile
import NodeFactory.Proofs.LexicalGrammar
import NodeFactory.Proofs.BitwiseConstants
import NodeFactory.Proofs.ConstantMembers
import NodeFactory.Proofs.UnnamedMembers
import NodeFactory.Proofs.Forks
import NodeFactory.Proofs.LocationOrder
import NodeFactory.Proofs.AnnotationPlaces
import NodeFactory.Proofs.TruthfulErrors
import NodeFactory.Proofs.ErrorOrder
import NodeFactory.Proofs.WrittenJson
import NodeFactory.Proofs.WrittenSettings
import NodeFactory.Proofs.ForkedTypes
import NodeFactory.Proofs.SeparatedMembers
import NodeFactory.Proofs.ReplacedSemicolons
