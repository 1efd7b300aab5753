import Prompter.Broadcast
import Prompter.Console.Program
import Prompter.Forms
import Prompter.Main
import Prompter.Proofs.Broadcast.Delivery
import Prompter.Proofs.Command.Arguments
import Prompter.Proofs.Command.Omission
import Prompter.Proofs.Command.Precedence
import Prompter.Proofs.Command.Wording
import Prompter.Proofs.Console.Waiting
import Prompter.Proofs.Line.Speaker
import Prompter.Proofs.Placeholder.Juxtaposition
import Prompter.Proofs.Script.RoundTrip
import Prompter.Proofs.Session.Aftermath
import Prompter.Proofs.Session.Announcement
import Prompter.Proofs.Session.Awaited
import Prompter.Proofs.Session.Confinement
import Prompter.Proofs.Session.Confluence
import Prompter.Proofs.Session.Dispatch
import Prompter.Proofs.Session.ExactlyOnce
import Prompter.Proofs.Session.LateResume
import Prompter.Proofs.Session.Narration
import Prompter.Proofs.Session.Offering
import Prompter.Proofs.Session.Restart
import Prompter.Proofs.Session.Returning
import Prompter.Proofs.Session.Selection
import Prompter.Proofs.Session.StatusOrder
import Prompter.Proofs.Session.Storage
import Prompter.Proofs.Session.Supersession
