import HamlTree.Main
import HamlTree.Proofs.CarriedOn
import HamlTree.Proofs.Rewriting
import HamlTree.Proofs.Contents
import HamlTree.Proofs.TwoStacks
import HamlTree.Proofs.Concatenation
import HamlTree.Proofs.NestedBlock
import HamlTree.Proofs.LineEndings
import HamlTree.Proofs.FoldedLines
import HamlTree.Proofs.BlankLines
import HamlTree.Proofs.WellFormed
import HamlTree.Proofs.Outlines
import HamlTree.Proofs.CommandOptions
import HamlTree.Proofs.JsonTrees
import HamlTree.Proofs.ElementGrammar
import HamlTree.Proofs.Reports
import HamlTree.Proofs.CommandRuns
import HamlTree.Proofs.KeywordGrammar
import HamlTree.Proofs.BlockSignatures
import HamlTree.Proofs.LoneBars
import HamlTree.Proofs.LinesAtFault
import HamlTree.Proofs.Dedents
import HamlTree.Proofs.AttributeOrder
import HamlTree.Proofs.Walks
import HamlTree.Proofs.BuiltOptions
import HamlTree.Proofs.ElementBounds
