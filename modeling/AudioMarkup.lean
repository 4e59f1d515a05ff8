import AudioMarkup.Main
import AudioMarkup.Proofs.Expr.Height
import AudioMarkup.Proofs.Expr.Misreading
import AudioMarkup.Proofs.Expr.Rereading
import AudioMarkup.Proofs.Program.Concatenation
import AudioMarkup.Proofs.Program.Progress
import AudioMarkup.Proofs.Program.Reordering
import AudioMarkup.Proofs.Program.Tree
import AudioMarkup.Proofs.Program.Truncation
import AudioMarkup.Proofs.Script.Accessors
import AudioMarkup.Proofs.Script.Contexts
import AudioMarkup.Proofs.Script.Setters
import AudioMarkup.Proofs.Script.Templates
import AudioMarkup.Proofs.Session
import AudioMarkup.Proofs.Token.Canonical
import AudioMarkup.Proofs.Token.Locations
