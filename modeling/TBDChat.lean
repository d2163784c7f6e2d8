import TBDChat.NullDereference
import TBDChat.FreedRecords
import TBDChat.Credentials
import TBDChat.SessionBinding
import TBDChat.ActorFrame
import TBDChat.PasswordChange
import TBDChat.UsernameRaces
import TBDChat.UserFile
import TBDChat.Framing
import TBDChat.RoomLookups
import TBDChat.ChatDelivery
import TBDChat.Sanitized
import TBDChat.SessionEnd
import TBDChat.StaleRoom
import TBDChat.RoomRaces
import TBDChat.ListRaces
import TBDChat.CommandArgs
import TBDChat.UserListings
import TBDChat.SanitizeInput
import TBDChat.AcceptLoop
import TBDChat.NameArrays
import TBDChat.TextLengths
import TBDChat.JoinOutcome
import TBDChat.RegisterOutcome
import TBDChat.Descriptors
import TBDChat.LeftoverMemory
import TBDChat.MutexWaits
import TBDChat.TitleBars
import TBDChat.KeyboardInput
import TBDChat.ClientCommands
import TBDChat.FreshNodes
import TBDChat.Reconnect
import TBDChat.ServiceRuns
import TBDChat.TypedLines
import TBDChat.KnownRooms
import TBDChat.ListRuns
import TBDChat.CutOff
import TBDChat.Interrupt
import TBDChat.FatalPackets
import TBDChat.NetworkProgress
