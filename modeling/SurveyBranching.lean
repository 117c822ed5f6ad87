import SurveyBranching.Answer
import SurveyBranching.Command.Help
import SurveyBranching.Command.Line
import SurveyBranching.Command.Run
import SurveyBranching.Document.Names
import SurveyBranching.Document.Read
import SurveyBranching.Document.Write
import SurveyBranching.Expr.Basic
import SurveyBranching.Expr.Conditions
import SurveyBranching.Expr.Parser
import SurveyBranching.Expr.Token
import SurveyBranching.Expr.Token.Scan
import SurveyBranching.Ids
import SurveyBranching.Json.Basic
import SurveyBranching.Json.Read
import SurveyBranching.Json.Write
import SurveyBranching.Keyed
import SurveyBranching.Limits
import SurveyBranching.Limits.Toml
import SurveyBranching.Main
import SurveyBranching.Number.Double
import SurveyBranching.Number.Shortest
import SurveyBranching.Rule.Basic
import SurveyBranching.Rule.Eval
import SurveyBranching.Rule.Expression
import SurveyBranching.Rule.Stored
import SurveyBranching.Session
import SurveyBranching.Survey.Basic
import SurveyBranching.Survey.Completion
import SurveyBranching.Survey.Edit
import SurveyBranching.Survey.Maintain
import SurveyBranching.Survey.Preview
import SurveyBranching.Survey.Split
import SurveyBranching.Text.Blank
import SurveyBranching.Text.Quoted
import SurveyBranching.Proofs.Reduction
import SurveyBranching.Proofs.Meaning
import SurveyBranching.Proofs.Canonical
import SurveyBranching.Proofs.Evaluation
import SurveyBranching.Proofs.Writing
import SurveyBranching.Proofs.Scanning
import SurveyBranching.Proofs.Reading
import SurveyBranching.Proofs.Descent
import SurveyBranching.Proofs.Ancestors
import SurveyBranching.Proofs.Decoding
import SurveyBranching.Proofs.Storing
import SurveyBranching.Proofs.Reloading
import SurveyBranching.Proofs.Reparsing
import SurveyBranching.Proofs.Maintenance
import SurveyBranching.Proofs.Splitting
import SurveyBranching.Proofs.Refusing
import SurveyBranching.Proofs.Cutting
import SurveyBranching.Proofs.Previewing
import SurveyBranching.Proofs.Patterns
import SurveyBranching.Proofs.Munching
