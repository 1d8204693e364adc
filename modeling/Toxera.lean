import Toxera.Bsdata.HealthChecks
import Toxera.Fedboot.Framing
import Toxera.Fedboot.PayloadSafety
import Toxera.Fedkey.Base32
import Toxera.Fedkey.BlsKeys
import Toxera.Fedkey.Rsa
import Toxera.Fedkey.Yggdrasil
import Toxera.GoTox.Disconnects
import Toxera.GoTox.Dispatching
import Toxera.GoTox.Slots
import Toxera.Mintox.AddressFamilies
import Toxera.Mintox.AnnounceExpiry
import Toxera.Mintox.BiMap
import Toxera.Mintox.PingIds
import Toxera.Mintox.RandomSelection
import Toxera.Mintox.RelayAnnouncing
import Toxera.Mintox.RelayCapacity
import Toxera.Mintox.RelayClosing
import Toxera.Mintox.RelayRoutes
import Toxera.Mintox.SendOrder
import Toxera.Mintox.SentNonce
import Toxera.Mintox.SharedKeys
import Toxera.Mintox.WindDown
import Toxera.NonceIncrements
import Toxera.OobInbox
import Toxera.Relayhub.ClientClose
import Toxera.Relayhub.Isolation
import Toxera.Relayhub.MultiaddrText
import Toxera.Relayhub.Noise
import Toxera.Relayhub.Rotations
import Toxera.Relayhub.SocketIds
import Toxera.Relayhub.SocketReads
import Toxera.Relayhub.SocketWrites
import Toxera.Relayhub.StreamFates
import Toxera.Relayhub.Truncation
import Toxera.Relayhub.UnknownFields
import Toxera.Tbtun.IdTable
import Toxera.Tbtun.Streams
import Toxera.Toxsave
import Toxera.Varints
import Toxera.Xtox.InvitedGroups
import Toxera.Xtox.RelayChoice
import Toxera.Xtox.Savedata
import Toxera.HandshakeAgreement
import Toxera.Mintox.Framing
