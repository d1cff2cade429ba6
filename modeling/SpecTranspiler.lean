import SpecTranspiler.Assoc
import SpecTranspiler.Text.Position
import SpecTranspiler.Text.Hidden
import SpecTranspiler.Text.Quoted
import SpecTranspiler.Decimal.Binary64
import SpecTranspiler.Decimal.Shortest
import SpecTranspiler.Json.Basic
import SpecTranspiler.Json.Print
import SpecTranspiler.Json.Failure
import SpecTranspiler.Json.Scan
import SpecTranspiler.Json.Numeral
import SpecTranspiler.Json.Parse
import SpecTranspiler.Json.Skip
import SpecTranspiler.Json.Decoder
import SpecTranspiler.Target.Ty
import SpecTranspiler.Target.Term
import SpecTranspiler.Target.Item
import SpecTranspiler.Target.Render
import SpecTranspiler.Target.Dump
import SpecTranspiler.Ir.Issue
import SpecTranspiler.Ir.Node
import SpecTranspiler.Ir.Document
import SpecTranspiler.Lower.Monad
import SpecTranspiler.Lower.Descriptor
import SpecTranspiler.Lower.Definition
import SpecTranspiler.Lower.Term
import SpecTranspiler.Lower.Item
import SpecTranspiler.Lower.Program
import SpecTranspiler.Command.Arguments
import SpecTranspiler.Command.Files
import SpecTranspiler.Command.Excerpt
import SpecTranspiler.Command.Diagnostic
import SpecTranspiler.Command.Run
import SpecTranspiler.Main
import SpecTranspiler.Proofs.Runs
import SpecTranspiler.Proofs.TermDerivation
import SpecTranspiler.Proofs.ItemDerivation
import SpecTranspiler.Proofs.Accounting
import SpecTranspiler.Proofs.Subterms
import SpecTranspiler.Proofs.ExpectedType
import SpecTranspiler.Proofs.Image
import SpecTranspiler.Proofs.Tokens
import SpecTranspiler.Proofs.Spelling
import SpecTranspiler.Proofs.Reassociation
import SpecTranspiler.Proofs.Reading
import SpecTranspiler.Proofs.Readability
import SpecTranspiler.Proofs.History
import SpecTranspiler.Proofs.Flattening
import SpecTranspiler.Proofs.FileEffects
import SpecTranspiler.Proofs.WrittenJson
import SpecTranspiler.Proofs.Skipping
import SpecTranspiler.Proofs.DecoderAgreement
import SpecTranspiler.Proofs.Metadata
import SpecTranspiler.Proofs.Descriptors
import SpecTranspiler.Proofs.NormalForm
import SpecTranspiler.Proofs.PrintedJson
import SpecTranspiler.Proofs.TreeFile
import SpecTranspiler.Proofs.CharOffsets
import SpecTranspiler.Proofs.DiagnosticStream
import SpecTranspiler.Proofs.DescriptorEncoding
import SpecTranspiler.Proofs.ExactNumbers
import SpecTranspiler.Proofs.Grammar
import SpecTranspiler.Proofs.Positions
import SpecTranspiler.Proofs.Degradation
import SpecTranspiler.Proofs.Indentation
import SpecTranspiler.Proofs.StringLiterals
import SpecTranspiler.Proofs.FilledLines
import SpecTranspiler.Proofs.BlankLines
import SpecTranspiler.Proofs.Miscounts
import SpecTranspiler.Proofs.Parameters
import SpecTranspiler.Proofs.ByteOrder
import SpecTranspiler.Proofs.TypeIndex
import SpecTranspiler.Proofs.IntegerLiterals
import SpecTranspiler.Proofs.TypeTexts
import SpecTranspiler.Proofs.DecodedTables
import SpecTranspiler.Proofs.Issues
