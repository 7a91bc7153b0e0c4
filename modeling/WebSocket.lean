import WebSocket.Connection.Pair
import WebSocket.Dial
import WebSocket.Frame.Buffer
import WebSocket.Frame.Output
import WebSocket.Proofs.Frame.Masking
import WebSocket.Proofs.Frame.RoundTrip
import WebSocket.Proofs.Frame.Layout
import WebSocket.Proofs.Frame.Rewriting
import WebSocket.Proofs.Frame.Taking
import WebSocket.Proofs.Message.Rulings
import WebSocket.Proofs.Connection.Effect
import WebSocket.Proofs.Connection.Run
import WebSocket.Proofs.Connection.Closing
import WebSocket.Proofs.Connection.Finality
import WebSocket.Proofs.Connection.Health
import WebSocket.Proofs.Connection.Occasions
import WebSocket.Proofs.Connection.Opening
import WebSocket.Proofs.Connection.Quiet
import WebSocket.Proofs.Connection.Receiving
import WebSocket.Proofs.Connection.Replies
import WebSocket.Proofs.Connection.Steady
import WebSocket.Proofs.Message.Fragments
import WebSocket.Proofs.Message.Pieces
import WebSocket.Proofs.Message.Splits
import WebSocket.Proofs.Connection.Sending
import WebSocket.Proofs.Connection.Hauls
import WebSocket.Proofs.Connection.Abandoned
import WebSocket.Proofs.Connection.Departures
import WebSocket.Proofs.Connection.Arrivals
import WebSocket.Proofs.Connection.Deliveries
import WebSocket.Proofs.Pair.Views
import WebSocket.Proofs.Connection.Reports
import WebSocket.Proofs.Connection.Greetings
import WebSocket.Proofs.Pair.Conversation
import WebSocket.Proofs.Connection.Lifecycle
import WebSocket.Proofs.Connection.CloseCodes
import WebSocket.Proofs.Handshake.Values
import WebSocket.Proofs.Handshake.Reading
import WebSocket.Proofs.Handshake.Agreement
import WebSocket.Proofs.Handshake.Extent
import WebSocket.Proofs.Handshake.Requests
import WebSocket.Proofs.Handshake.Judgements
import WebSocket.Proofs.Handshake.Rereading
import WebSocket.Proofs.Handshake.Answers
import WebSocket.Proofs.Handshake.Collecting
import WebSocket.Proofs.Connection.Undertakings
import WebSocket.Proofs.Connection.Accepting
import WebSocket.Proofs.Connection.Connecting
import WebSocket.Proofs.Connection.Negotiation
import WebSocket.Proofs.Pair.Opening
import WebSocket.Proofs.Utf8
import WebSocket.Proofs.Close.Payload
import WebSocket.Proofs.Close.RoundTrip
import WebSocket.Proofs.Connection.Turns
import WebSocket.Proofs.Connection.Pings
import WebSocket.Proofs.Connection.PingOrder
import WebSocket.Proofs.Connection.PingLedger
import WebSocket.Proofs.Connection.PingTimes
import WebSocket.Proofs.Connection.Parting
import WebSocket.Proofs.Connection.Outgoing
import WebSocket.Proofs.Connection.Unhindered
import WebSocket.Proofs.Connection.Endings
import WebSocket.Proofs.Connection.Draining
import WebSocket.Proofs.Connection.Without
import WebSocket.Proofs.Connection.Refusals
import WebSocket.Proofs.Connection.Closers
import WebSocket.Proofs.Connection.Course
import WebSocket.Proofs.Connection.Mending
import WebSocket.Proofs.Pair.Farewell
import WebSocket.Proofs.Pair.Closing
import WebSocket.Proofs.Pair.Parting
import WebSocket.Proofs.Handshake.Layouts
import WebSocket.Proofs.Handshake.Presentation
import WebSocket.Proofs.Connection.Handovers
import WebSocket.Proofs.Dial.Target
import WebSocket.Proofs.Frame.Putting
