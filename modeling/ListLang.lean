import ListLang.Eval.Depth
import ListLang.Main
import ListLang.Proofs.Captures
import ListLang.Proofs.Lists
import ListLang.Proofs.Dependence
import ListLang.Proofs.Scoping
import ListLang.Proofs.Linearization
import ListLang.Proofs.WellFormed
import ListLang.Proofs.Printing
import ListLang.Proofs.Reading.Streaming
import ListLang.Proofs.Layout
import ListLang.Proofs.Erasure
import ListLang.Proofs.ErrorLines
import ListLang.Proofs.Separation
import ListLang.Proofs.LongestMatch
import ListLang.Proofs.Mutation
import ListLang.Proofs.Shapes
import ListLang.Proofs.Arithmetic
import ListLang.Proofs.Concatenation
import ListLang.Proofs.Copies
import ListLang.Proofs.Grammar.Elsewhere
import ListLang.Proofs.Iteration
import ListLang.Proofs.Precedence
import ListLang.Proofs.Sequences
import ListLang.Proofs.Equality
import ListLang.Proofs.Insertion
import ListLang.Proofs.Composition
import ListLang.Proofs.Reading.Greed
import ListLang.Proofs.AppliedLambda
import ListLang.Proofs.Annotations
import ListLang.Proofs.Reading.Lookahead
import ListLang.Proofs.Equivalence
import ListLang.Proofs.ListLiterals
import ListLang.Proofs.Reading.Lines
import ListLang.Proofs.Characters
import ListLang.Proofs.Traversal
import ListLang.Proofs.Reading.Progress
