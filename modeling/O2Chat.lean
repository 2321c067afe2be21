import O2Chat.Lib.Runs
import O2Chat.Lib.Interleaving
import O2Chat.Common.Http
import O2Chat.Db.Integrity
import O2Chat.Server.Worker
import O2Chat.Server.ApiClient
import O2Chat.Server.ChatNames
import O2Chat.Server.Connection
import O2Chat.Server.Privacy
import O2Chat.Server.SendOnce
import O2Chat.Client.Requests
import O2Chat.Client.AnswerBodies
import O2Chat.Client.Credentials
import O2Chat.Lib.Stream
import O2Chat.Net.Client
import O2Chat.Net.Decode
import O2Chat.Net.RoundTrip
import O2Chat.Server.Answering
import O2Chat.Server.Delivery
import O2Chat.Server.MessageOrder
import O2Chat.Server.Passwords
import O2Chat.Server.Carried
import O2Chat.Server.Pairing
import O2Chat.Server.Duplicates
import O2Chat.Server.Requested
import O2Chat.Db.Scans
import O2Chat.Lib.Greatest
import O2Chat.Server.History
import O2Chat.Server.ParseMeta
import O2Chat.Net.Exchange
import O2Chat.Net.Chunked
import O2Chat.Net.ChunkGrammar
import O2Chat.Server.Joins
import O2Chat.Server.Batches
import O2Chat.Common.Splitting
import O2Chat.Lib.OrderedMap
import O2Chat.Net.Headers
import O2Chat.Net.Inflate
import O2Chat.Net.ReadUntil
import O2Chat.Net.Connect
import O2Chat.Net.ChunkSizes
import O2Chat.Lib.Stretch
import O2Chat.Net.ContentLength
import O2Chat.Client.Direct
import O2Chat.Lib.Potential
import O2Chat.Net.SyncConnect
import O2Chat.Net.BlockingRead
import O2Chat.Common.GenericReader
import O2Chat.Common.JsonText
import O2Chat.Common.ReaderSpec
import O2Chat.Common.WriterSpec
import O2Chat.Server.EndToEnd
import O2Chat.Lib.Linearization
import O2Chat.Server.Room
import O2Chat.Server.Linearizable
import O2Chat.Server.Provenance
import O2Chat.Server.Transcript
import O2Chat.Client.Display
import O2Chat.Server.CStrings
import O2Chat.Server.IdleDisplay
