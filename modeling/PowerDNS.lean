import PowerDNS.Auth.DNSProxy
import PowerDNS.Auth.IPPrefTree
import PowerDNS.Auth.QuotedLines
import PowerDNS.Auth.HashedDenial
import PowerDNS.Recursor.ChainedQueries
import PowerDNS.Auth.AskingBackends
import PowerDNS.Recursor.EDNSStatus
import PowerDNS.Recursor.WakeUps
import PowerDNS.Recursor.Terminates
import PowerDNS.Auth.CachedReplies
import PowerDNS.Auth.OrderNames
import PowerDNS.Auth.PacketCacheRuns
import PowerDNS.Auth.Inflighter
import PowerDNS.Recursor.SentAnswers
import PowerDNS.Auth.TransferStreams
import PowerDNS.Auth.GSQLStatements
import PowerDNS.Auth.SlaveZoneFile
import PowerDNS.Packet.RecordLocality
import PowerDNS.Auth.SignatureCache
import PowerDNS.Recursor.ZoneReload
import PowerDNS.Auth.InterruptedAnswers
import PowerDNS.Splitpipe.SplitJoin
import PowerDNS.Packet.AddressText
import PowerDNS.Recursor.FirstQuestion
import PowerDNS.Packet.LocationText
import PowerDNS.Auth.RSAKeys
import PowerDNS.Recursor.EDNSOptions
import PowerDNS.Auth.SecureTexts
import PowerDNS.Recursor.FailedReplace
import PowerDNS.Recursor.GhostDelegations
import PowerDNS.Recursor.Throttle
import PowerDNS.Auth.CacheOrder
import PowerDNS.Recursor.LabelView
import PowerDNS.Recursor.TCPClients
import PowerDNS.Recursor.TCPQuestions
import PowerDNS.Base.SerializedRecords
import PowerDNS.Auth.TransferCuts
import PowerDNS.Auth.NotificationQueue
import PowerDNS.Auth.ParsingEnds
import PowerDNS.Auth.NameOrders
import PowerDNS.Recursor.LameReplies
import PowerDNS.Recursor.LocalReferral
import PowerDNS.Recursor.Netmask
import PowerDNS.Recursor.ForwardedAddresses
