import ImpFront.FrontEnd
import ImpFront.Format.Registry
import ImpFront.Check.Basic
import ImpFront.Settings.Loader
import ImpFront.Proofs.Grammar.Acceptance
import ImpFront.Proofs.Build.Offence
import ImpFront.Proofs.Build.WellFormed
import ImpFront.Proofs.Printing.Program
import ImpFront.Proofs.Grammar.Precedence
import ImpFront.Proofs.SyntaxError.Place
import ImpFront.Proofs.Token.Pieces
import ImpFront.Proofs.Token.Tiling
import ImpFront.Proofs.Build.Core
import ImpFront.Proofs.FrontEnd.Relocation
import ImpFront.Proofs.FrontEnd.Layout
import ImpFront.Proofs.Failure.Outdone
import ImpFront.Proofs.Token.Joining
import ImpFront.Proofs.FrontEnd.Concatenation
import ImpFront.Proofs.FrontEnd.Replacement
import ImpFront.Proofs.Token.Insertion
import ImpFront.Proofs.Token.Longest
import ImpFront.Proofs.Token.Gaps
import ImpFront.Proofs.FrontEnd.Parentheses
import ImpFront.Proofs.Build.Lookups
import ImpFront.Proofs.Build.LocalInitializers
import ImpFront.Proofs.Build.ElseIf
import ImpFront.Proofs.FrontEnd.Fragments
import ImpFront.Proofs.Ast.Outline
import ImpFront.Proofs.Ast.Names
import ImpFront.Proofs.Format.Drawing
import ImpFront.Proofs.Ast.Parts
import ImpFront.Proofs.Format.Lines
import ImpFront.Proofs.Format.Document
import ImpFront.Proofs.Format.Json.Grammar
import ImpFront.Proofs.Format.Json.Written
import ImpFront.Proofs.Build.Parents
import ImpFront.Proofs.Build.Skeleton
import ImpFront.Proofs.FrontEnd.Conservation
import ImpFront.Proofs.Format.Yaml.Faithful
import ImpFront.Proofs.Source.Position
import ImpFront.Proofs.Format.Registry
import ImpFront.Proofs.Printing.Reading
import ImpFront.Proofs.FrontEnd.Diagnostics
import ImpFront.Proofs.Number.Numeral
import ImpFront.Proofs.Build.Sorting
import ImpFront.Proofs.Check.Attempt
import ImpFront.Proofs.Check.Thorough
import ImpFront.Proofs.Check.Execution
import ImpFront.Proofs.Check.Place
import ImpFront.Proofs.Check.Report
import ImpFront.Proofs.Grammar.Descent
import ImpFront.Proofs.Settings.Precedence
