import UpdaterBootstrap.Main
import UpdaterBootstrap.Proofs.Characters
import UpdaterBootstrap.Proofs.Lexeme
import UpdaterBootstrap.Proofs.Spelling
import UpdaterBootstrap.Proofs.Expression
import UpdaterBootstrap.Proofs.Nesting
import UpdaterBootstrap.Proofs.ArgumentList
import UpdaterBootstrap.Proofs.Captured
import UpdaterBootstrap.Proofs.UnitText
import UpdaterBootstrap.Proofs.Evaluation
import UpdaterBootstrap.Proofs.Absorption
import UpdaterBootstrap.Proofs.Quoting
import UpdaterBootstrap.Proofs.Inline
import UpdaterBootstrap.Proofs.WrittenConstant
import UpdaterBootstrap.Proofs.WrittenImport
import UpdaterBootstrap.Proofs.WrittenArguments
import UpdaterBootstrap.Proofs.WrittenUnit
import UpdaterBootstrap.Proofs.Pieces
import UpdaterBootstrap.Proofs.WrittenScript
import UpdaterBootstrap.Proofs.Passage
import UpdaterBootstrap.Proofs.Remainder
import UpdaterBootstrap.Proofs.Emergence
import UpdaterBootstrap.Proofs.Agreement
import UpdaterBootstrap.Proofs.Thinning
import UpdaterBootstrap.Proofs.Separation
import UpdaterBootstrap.Proofs.Division
import UpdaterBootstrap.Proofs.Lookup
import UpdaterBootstrap.Proofs.Merging
import UpdaterBootstrap.Proofs.MergeLaws
import UpdaterBootstrap.Proofs.JoinedPath
import UpdaterBootstrap.Proofs.Place
import UpdaterBootstrap.Proofs.Saving
import UpdaterBootstrap.Proofs.FoundScripts
import UpdaterBootstrap.Proofs.BuiltScripts
import UpdaterBootstrap.Proofs.Completion
import UpdaterBootstrap.Proofs.KeptDocuments
import UpdaterBootstrap.Proofs.ManifestContent
import UpdaterBootstrap.Proofs.SecondRun
import UpdaterBootstrap.Proofs.FailedRun
import UpdaterBootstrap.Proofs.StoredScript
import UpdaterBootstrap.Proofs.CodeBytes
import UpdaterBootstrap.Proofs.DottedName
import UpdaterBootstrap.Proofs.MarkedBytes
import UpdaterBootstrap.Proofs.FoundAnnotations
import UpdaterBootstrap.Proofs.Layout
import UpdaterBootstrap.Proofs.InterpretedScripts
import UpdaterBootstrap.Proofs.InspectedScripts
import UpdaterBootstrap.Proofs.PartWords
import UpdaterBootstrap.Proofs.AnnouncedClass
import UpdaterBootstrap.Proofs.UnitTokens
import UpdaterBootstrap.Proofs.FoundClass
import UpdaterBootstrap.Proofs.EditedDocument
import UpdaterBootstrap.Proofs.ChosenOptions
import UpdaterBootstrap.Proofs.SparseDocument
import UpdaterBootstrap.Proofs.StrippedText
import UpdaterBootstrap.Proofs.SeparateLines
import UpdaterBootstrap.Proofs.FoldedIntegers
import UpdaterBootstrap.Proofs.WrittenExpression
import UpdaterBootstrap.Proofs.NameGrammar
import UpdaterBootstrap.Proofs.EvaluatedFields
import UpdaterBootstrap.Proofs.ReplacedBlanks
import UpdaterBootstrap.Proofs.NormalLines
import UpdaterBootstrap.Proofs.InsertedAction
import UpdaterBootstrap.Proofs.TextLiteral
import UpdaterBootstrap.Proofs.WrittenInteger
import UpdaterBootstrap.Proofs.RelativePath
import UpdaterBootstrap.Proofs.DocumentNames
import UpdaterBootstrap.Proofs.ExcludedScripts
import UpdaterBootstrap.Proofs.CountedLines
import UpdaterBootstrap.Proofs.TokenLines
import UpdaterBootstrap.Proofs.ReportedLines
import UpdaterBootstrap.Proofs.NumericOrder
import UpdaterBootstrap.Proofs.TomlLines
import UpdaterBootstrap.Proofs.SettingFields
import UpdaterBootstrap.Proofs.SettingsText
import UpdaterBootstrap.Proofs.ChangedSetting
import UpdaterBootstrap.Proofs.PackedDouble
import UpdaterBootstrap.Proofs.NearestDouble
import UpdaterBootstrap.Proofs.ShortestDigits
import UpdaterBootstrap.Proofs.TomlDecimals
