import QueryLocator.FileTree
import QueryLocator.Main
import QueryLocator.QueryDocument
import QueryLocator.Proofs.ByteCuts
import QueryLocator.Proofs.Lines
import QueryLocator.Proofs.LineOffsets
import QueryLocator.Proofs.Literals
import QueryLocator.Proofs.TokenForms
import QueryLocator.Proofs.RuleForms
import QueryLocator.Proofs.GrammarRules
import QueryLocator.Proofs.ErrorFreeReading
import QueryLocator.Proofs.LexemeRuns
import QueryLocator.Proofs.DocumentReading
import QueryLocator.Proofs.DocumentLayout
import QueryLocator.Proofs.DefinitionSpans
import QueryLocator.Proofs.CursorSpan
import QueryLocator.Proofs.TokenWidening
import QueryLocator.Proofs.DroppedTokens
import QueryLocator.Proofs.Resolving
import QueryLocator.Proofs.DefinitionEdges
import QueryLocator.Proofs.LexemeEndings
import QueryLocator.Proofs.AlikeReadings
import QueryLocator.Proofs.LineEndingStyle
import QueryLocator.Proofs.PositionRoundTrips
import QueryLocator.Proofs.DefinitionOrder
import QueryLocator.Proofs.Outcomes
import QueryLocator.Proofs.JsonScalars
import QueryLocator.Proofs.JsonText
import QueryLocator.Proofs.JsonPretty
import QueryLocator.Proofs.JsonData
import QueryLocator.Proofs.ConfigData
import QueryLocator.Proofs.ConfigLoading
import QueryLocator.Proofs.ConfigRoundTrip
import QueryLocator.Proofs.ScopeSelection
import QueryLocator.Proofs.PathNames
import QueryLocator.Proofs.TreeLocations
import QueryLocator.Proofs.ConfigSearch
import QueryLocator.Proofs.ConfigFormats
import QueryLocator.Proofs.JsonSkipping
import QueryLocator.Proofs.JsonBrackets
import QueryLocator.Proofs.JsonForms
import QueryLocator.Proofs.JsonRecords
import QueryLocator.Proofs.WireLaws
import QueryLocator.Proofs.WireRoundTrip
import QueryLocator.Proofs.SpanOrder
import QueryLocator.Proofs.DiagnosticLines
import QueryLocator.Proofs.ConsoleReports
import QueryLocator.Proofs.TokenizerBounds
import QueryLocator.Proofs.NameOrder
import QueryLocator.Proofs.ConfigAcceptance
import QueryLocator.Proofs.ProjectSelection
import QueryLocator.Proofs.TokenReading
import QueryLocator.Proofs.DefinitionHeads
import QueryLocator.Proofs.DefinitionTokens
import QueryLocator.Proofs.UnspannedDefinitions
import QueryLocator.Proofs.SelectorIdentity
import QueryLocator.Proofs.LineTiling
import QueryLocator.Proofs.PositionOrder
import QueryLocator.Proofs.BinaryRounding
import QueryLocator.Proofs.ShortestDecimal
import QueryLocator.Proofs.JsonGrammar
import QueryLocator.Proofs.NumeralReading
import QueryLocator.Proofs.NumeralWriting
import QueryLocator.Proofs.JsonNormalForm
import QueryLocator.Proofs.PayloadReading
import QueryLocator.Proofs.PayloadMeaning
import QueryLocator.Proofs.KeptVariables
import QueryLocator.Proofs.ProjectLookup
import QueryLocator.Proofs.ErrorPlaces
import QueryLocator.Proofs.DiagnosticPlaces
import QueryLocator.Proofs.BlankDocuments
import QueryLocator.Proofs.ArgumentNumbers
import QueryLocator.Proofs.HumanReports
import QueryLocator.Proofs.ByteBoundaries
import QueryLocator.Proofs.GuardedIndex
import QueryLocator.Proofs.TriviaTexts
