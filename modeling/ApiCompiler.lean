import ApiCompiler.CommandLine.Commands
import ApiCompiler.Declarations
import ApiCompiler.Json.Printer
import ApiCompiler.Json.Reader
import ApiCompiler.Main
import ApiCompiler.Operation.Reader
import ApiCompiler.Proofs.Cycles
import ApiCompiler.Proofs.Endpoints
import ApiCompiler.Proofs.Inheritance
import ApiCompiler.Proofs.References
import ApiCompiler.Proofs.RenderedReferences
import ApiCompiler.Proofs.ScanFrames
import ApiCompiler.Proofs.Captures
import ApiCompiler.Proofs.PathParameters
import ApiCompiler.Proofs.Locations
import ApiCompiler.Proofs.SoleBody
import ApiCompiler.Proofs.Bodies
import ApiCompiler.Proofs.ModelNames
import ApiCompiler.Proofs.Denotation
import ApiCompiler.Proofs.FaithfulRegistry
import ApiCompiler.Proofs.FreshResolver
import ApiCompiler.Proofs.TargetOrder
import ApiCompiler.Proofs.CrossListing
import ApiCompiler.Proofs.Growth
import ApiCompiler.Proofs.Namesakes
import ApiCompiler.Proofs.Overriding
import ApiCompiler.Proofs.Nesting
import ApiCompiler.Proofs.Recovery
import ApiCompiler.Proofs.Instances
import ApiCompiler.Proofs.TokenElements
import ApiCompiler.Proofs.AsyncResults
import ApiCompiler.Proofs.ReadingOrder
import ApiCompiler.Proofs.Composition
import ApiCompiler.Proofs.Grammar
import ApiCompiler.Proofs.ListedValues
import ApiCompiler.Proofs.RequiredFields
import ApiCompiler.Proofs.FormOrBody
import ApiCompiler.Proofs.FlatParameters
import ApiCompiler.Proofs.MethodLookup
import ApiCompiler.Proofs.ModelUnion
import ApiCompiler.Proofs.TagInheritance
import ApiCompiler.Proofs.ReachableModels
import ApiCompiler.Proofs.RenderedSchemas
import ApiCompiler.Proofs.UnusableSettings
import ApiCompiler.Proofs.Printing
import ApiCompiler.Proofs.RenderedValues
import ApiCompiler.Proofs.PrintedDocuments
