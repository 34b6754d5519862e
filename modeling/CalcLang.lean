import CalcLang.Main
import CalcLang.Value.Arithmetic
import CalcLang.Value.Literal
import CalcLang.Proofs.CommandLine.Outcome
import CalcLang.Proofs.Grouping
import CalcLang.Proofs.Expression.Sweep
import CalcLang.Proofs.Program.Lines
import CalcLang.Proofs.Condition.Nesting
import CalcLang.Proofs.Condition.Negation
import CalcLang.Proofs.Condition.Peeling
import CalcLang.Proofs.Program.Policies
import CalcLang.Proofs.Program.Forms
import CalcLang.Proofs.Program.Formatting
import CalcLang.Proofs.Program.Interchange
import CalcLang.Proofs.Program.Locating
import CalcLang.Proofs.Program.Calls
import CalcLang.Proofs.Program.LetterCase
import CalcLang.Proofs.Program.Regrouping
import CalcLang.Proofs.Program.Title
import CalcLang.Proofs.Program.Tracing
import CalcLang.Proofs.Scan.CharLiterals
import CalcLang.Proofs.Scan.Layout
import CalcLang.Proofs.Scan.Recognizers
import CalcLang.Proofs.Value.Arithmetic
import CalcLang.Proofs.Value.Literals
import CalcLang.Proofs.View.Highlighting
import CalcLang.Proofs.View.Listing
import CalcLang.Proofs.View.Opening
import CalcLang.Proofs.View.Scrolling
import CalcLang.Proofs.View.Slicing
