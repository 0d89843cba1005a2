import CallbackGateway.Config.Read
import CallbackGateway.Gateway
import CallbackGateway.Proofs.Aes.Inverse
import CallbackGateway.Proofs.Payload.Letters
import CallbackGateway.Proofs.Payload.RoundTrip
import CallbackGateway.Proofs.Envelope.SealedWrapper
import CallbackGateway.Proofs.Push.Authentication
import CallbackGateway.Proofs.Push.SealedReply
import CallbackGateway.Proofs.Json.Document
import CallbackGateway.Proofs.Markup.Balanced
import CallbackGateway.Proofs.Markup.Document
import CallbackGateway.Proofs.Push.Acceptance
import CallbackGateway.Proofs.Json.Members
import CallbackGateway.Proofs.Message.OfFields
import CallbackGateway.Proofs.Message.TwoFormats
import CallbackGateway.Proofs.Envelope.WrittenWrapper
import CallbackGateway.Proofs.Push.PlainAndSealed
import CallbackGateway.Proofs.Gateway.OpenedPush
import CallbackGateway.Proofs.Metrics.Totals
import CallbackGateway.Proofs.Gateway.Accounting
import CallbackGateway.Proofs.Markup.Readable
import CallbackGateway.Proofs.Markup.Insertion
import CallbackGateway.Proofs.Markup.Seam
import CallbackGateway.Proofs.Markup.Place
import CallbackGateway.Proofs.Record.UnknownElement
import CallbackGateway.Proofs.Record.UnknownMember
import CallbackGateway.Proofs.Message.UnknownFields
import CallbackGateway.Proofs.Aes.Permutation
import CallbackGateway.Proofs.Payload.Canonical
import CallbackGateway.Proofs.Payload.Opening
import CallbackGateway.Proofs.Payload.Reads
import CallbackGateway.Proofs.Payload.WireForm
import CallbackGateway.Proofs.Json.ReadBack
import CallbackGateway.Proofs.Record.KeptText
import CallbackGateway.Proofs.Reply.ReadBack
import CallbackGateway.Proofs.Gateway.OwnReplies
import CallbackGateway.Proofs.Signature.Binding
import CallbackGateway.Proofs.Config.Validation
import CallbackGateway.Proofs.Gateway.Failures
import CallbackGateway.Proofs.Record.Outline
import CallbackGateway.Proofs.Reply.OneRecord
import CallbackGateway.Proofs.Record.SpelledElement
import CallbackGateway.Proofs.Record.SpelledMarkup
import CallbackGateway.Proofs.Record.Legible
import CallbackGateway.Proofs.Message.PopupShapes
import CallbackGateway.Proofs.Message.Popups
import CallbackGateway.Proofs.Metrics.PageReading
import CallbackGateway.Proofs.Message.ShownText
import CallbackGateway.Proofs.Message.Notes
import CallbackGateway.Proofs.Payload.SpelledBits
import CallbackGateway.Proofs.Payload.KeyText
import CallbackGateway.Proofs.Payload.Addressee
import CallbackGateway.Proofs.Push.JsonRecords
import CallbackGateway.Proofs.Record.LeafPath
import CallbackGateway.Proofs.Record.LooseReading
import CallbackGateway.Proofs.Text.Numeral
import CallbackGateway.Proofs.Message.LooseBody
import CallbackGateway.Proofs.Message.IntegerLeaves
import CallbackGateway.Proofs.Markup.Sections
import CallbackGateway.Proofs.Signature.Accepted
import CallbackGateway.Proofs.Markup.Children
import CallbackGateway.Proofs.Record.Restriction
import CallbackGateway.Proofs.Message.Parts
import CallbackGateway.Proofs.Message.OwnFields
import CallbackGateway.Proofs.Markup.LeafValue
import CallbackGateway.Proofs.Record.WrittenField
import CallbackGateway.Proofs.Message.Discriminators
