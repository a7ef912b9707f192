import VocabularyCompiler.CommandLine.Run
import VocabularyCompiler.Compiler
import VocabularyCompiler.Main
import VocabularyCompiler.Proofs.ClassDefinition.Addresses
import VocabularyCompiler.Proofs.CommandLine.Outputs
import VocabularyCompiler.Proofs.Fact.Spelling
import VocabularyCompiler.Proofs.Fact.Texts
import VocabularyCompiler.Proofs.Lowering.Datasets
import VocabularyCompiler.Proofs.Lowering.Exclusion
import VocabularyCompiler.Proofs.Lowering.Failure
import VocabularyCompiler.Proofs.Lowering.Keywords
import VocabularyCompiler.Proofs.Lowering.ListCandidates
import VocabularyCompiler.Proofs.Lowering.Nesting
import VocabularyCompiler.Proofs.Lowering.Preference
import VocabularyCompiler.Proofs.Lowering.ReservedNames
import VocabularyCompiler.Proofs.Lowering.Siblings
import VocabularyCompiler.Proofs.Lowering.Termination
import VocabularyCompiler.Proofs.Phrase.DottedNames
import VocabularyCompiler.Proofs.Phrase.Tagging
import VocabularyCompiler.Proofs.Policy.Defaults
import VocabularyCompiler.Proofs.Refinement.CuratedPhrases
import VocabularyCompiler.Proofs.Refinement.MergeOrder
import VocabularyCompiler.Proofs.Refinement.Rounds
import VocabularyCompiler.Proofs.ThingTalk.Lines
import VocabularyCompiler.Proofs.TypeGraph.Analysis
import VocabularyCompiler.Proofs.TypeGraph.BuiltTypes
import VocabularyCompiler.Proofs.TypeGraph.CyclePaths
import VocabularyCompiler.Proofs.TypeGraph.FactOrder
import VocabularyCompiler.Proofs.TypeGraph.FirstSeen
import VocabularyCompiler.Proofs.TypeGraph.InheritedProperties
import VocabularyCompiler.Proofs.TypeGraph.NameIndex
import VocabularyCompiler.Proofs.TypeGraph.NearestFirst
import VocabularyCompiler.Samples.Index
