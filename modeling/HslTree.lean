import HslTree.Text.Line
import HslTree.Lexeme.Session
import HslTree.Tree.Sexp
import HslTree.Tree.Value
import HslTree.Source
import HslTree.Proofs.Advance
import HslTree.Proofs.Point
import HslTree.Proofs.Spelling
import HslTree.Proofs.RuleSpelling
import HslTree.Proofs.ParseSpec
import HslTree.Proofs.Viability
import HslTree.Proofs.SyntaxFault
import HslTree.Proofs.Layout
import HslTree.Proofs.RuleLayout
import HslTree.Proofs.Coverage
import HslTree.Proofs.Tiling
import HslTree.Proofs.Lossless
import HslTree.Proofs.LeftmostFault
import HslTree.Proofs.ContentRuns
import HslTree.Proofs.StringUnits
import HslTree.Proofs.LexicalGrammar
import HslTree.Proofs.FirstCharacter
import HslTree.Proofs.Gaps
import HslTree.Proofs.Regraft
import HslTree.Proofs.Reformatting
import HslTree.Proofs.Sketch
import HslTree.Proofs.Program
import HslTree.Proofs.ReadBack
import HslTree.Proofs.FileTrees
import HslTree.Proofs.Relocation
import HslTree.Proofs.Lexed
import HslTree.Proofs.Composition
import HslTree.Proofs.Isolation
import HslTree.Proofs.Modes
import HslTree.Proofs.Agreement
import HslTree.Proofs.Transparency
import HslTree.Proofs.BoundaryReport
import HslTree.Proofs.ByteCursor
import HslTree.Proofs.IntegerValues
import HslTree.Proofs.ByteRuns
import HslTree.Proofs.Reach
import HslTree.Proofs.StringBodies
import HslTree.Proofs.FaultPlaces
import HslTree.Proofs.StringNodes
import HslTree.Proofs.StringValues
import HslTree.Proofs.WrittenStrings
import HslTree.Proofs.NumberWords
import HslTree.Proofs.TableOrder
import HslTree.Proofs.Neighbours
import HslTree.Proofs.FieldsAndViews
import HslTree.Proofs.LinePlaces
import HslTree.Proofs.FaithfulReports
import HslTree.Proofs.Skeleton
import HslTree.Proofs.Conservation
import HslTree.Proofs.TokenCursor
import HslTree.Proofs.CallSequences
