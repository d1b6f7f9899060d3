import UtilityCss.Compiler
import UtilityCss.Log.Template
import UtilityCss.Main
import UtilityCss.Decimal.Notation
import UtilityCss.Proofs.Identifier
import UtilityCss.Proofs.Assembly
import UtilityCss.Proofs.Ownership
import UtilityCss.Proofs.Discovery
import UtilityCss.Proofs.Enclosure
import UtilityCss.Proofs.Expressions
import UtilityCss.Proofs.Lineage
import UtilityCss.Proofs.PassFiles
import UtilityCss.Proofs.Debounce
import UtilityCss.Proofs.WatchedFiles
import UtilityCss.Proofs.Regeneration
import UtilityCss.Proofs.OwnEvents
import UtilityCss.Proofs.ConfigFaults
import UtilityCss.Proofs.ValidRuns
import UtilityCss.Proofs.Recency
import UtilityCss.Proofs.Recognition
import UtilityCss.Proofs.Equivariance
import UtilityCss.Proofs.OneFile
import UtilityCss.Proofs.BaseProperties
import UtilityCss.Proofs.CheckedRules
import UtilityCss.Proofs.ExactNames
import UtilityCss.Proofs.DarkAncestors
import UtilityCss.Proofs.PseudoElements
import UtilityCss.Proofs.GrowingSheets
import UtilityCss.Proofs.Keyframes
import UtilityCss.Proofs.Vocabulary
import UtilityCss.Proofs.TokenGrammar
import UtilityCss.Proofs.VariantOrder
import UtilityCss.Proofs.Negation
import UtilityCss.Proofs.Opacity
import UtilityCss.Proofs.ScanFilters
import UtilityCss.Proofs.OpeningUtilities
import UtilityCss.Proofs.Crawling
import UtilityCss.Proofs.Punctuation
import UtilityCss.Proofs.MergeLaws
import UtilityCss.Proofs.JsonText
import UtilityCss.Proofs.LoggerRuns
import UtilityCss.Proofs.WrittenNumbers
