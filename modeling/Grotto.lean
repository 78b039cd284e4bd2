import Grotto.Protocol.Framing
import Grotto.Relay.Answers
import Grotto.Relay.Outsiders
import Grotto.Relay.Sessions
import Grotto.Relay.Allocations
import Grotto.Relay.Receipts
import Grotto.Relay.Accounting
import Grotto.Relay.Packages
import Grotto.Relay.Registrations
import Grotto.Relay.Admission
import Grotto.Relay.Rates
import Grotto.Client.Drafts
import Grotto.Client.Cache
import Grotto.Client.Settling
import Grotto.Client.Signatures
import Grotto.Client.MlsStorage
import Grotto.Client.HistoryPages
import Grotto.Client.OutboxPass
import Grotto.Client.RelayPins
import Grotto.Network.Reservations
import Grotto.Network.Wakeups
import Grotto.Network.Fates
import Grotto.Network.Attempts
import Grotto.Network.Agreement
