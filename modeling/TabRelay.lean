import TabRelay.Bridge.Scene
import TabRelay.Decoding.Forms
import TabRelay.Session.Draft
import TabRelay.Session.Machine
import TabRelay.Proofs.Session.Course
import TabRelay.Proofs.Session.Effect
import TabRelay.Proofs.Session.Advance
import TabRelay.Proofs.Session.Order
import TabRelay.Proofs.Storage.PlainMap
import TabRelay.Proofs.Session.Areas
import TabRelay.Proofs.Session.Committing
import TabRelay.Proofs.Session.Custody
import TabRelay.Proofs.Session.Delivering
import TabRelay.Proofs.Session.Sequential
import TabRelay.Proofs.Session.Detaching
import TabRelay.Proofs.Session.Observing
import TabRelay.Proofs.Session.Forwarding
import TabRelay.Proofs.Session.Replica
import TabRelay.Proofs.Session.Converging
import TabRelay.Proofs.Session.Borrowing
import TabRelay.Proofs.Session.Farewells
import TabRelay.Proofs.Bridge.Failures
import TabRelay.Proofs.Bridge.Outbound
import TabRelay.Proofs.Bridge.Lifetime
import TabRelay.Proofs.Session.Quota
import TabRelay.Proofs.Web.Object
import TabRelay.Proofs.Bridge.Reading
import TabRelay.Proofs.Bridge.Inbound
import TabRelay.Proofs.Snapshot
import TabRelay.Proofs.Text.Utf8
import TabRelay.Proofs.Session.Enumerating
import TabRelay.Proofs.Session.Ending
import TabRelay.Proofs.Session.Accepting
import TabRelay.Proofs.Session.Atomicity
import TabRelay.Proofs.Session.Nesting
import TabRelay.Proofs.Session.Deferring
import TabRelay.Proofs.Session.Effort
import TabRelay.Proofs.Session.Draining
import TabRelay.Proofs.Decoding.RoundTrip
import TabRelay.Proofs.Bridge.Configuring
import TabRelay.Proofs.Bridge.Passing
import TabRelay.Proofs.Bridge.Sequence
import TabRelay.Proofs.Bridge.Echoing
import TabRelay.Proofs.Session.Naming
import TabRelay.Proofs.Session.Identity
import TabRelay.Proofs.Session.Renumbering
import TabRelay.Proofs.Session.Following
import TabRelay.Proofs.Session.Independence
import TabRelay.Proofs.Session.Bystanding
