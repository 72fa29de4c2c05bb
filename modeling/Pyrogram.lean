import Pyrogram.BlockModes
import Pyrogram.Chats.Dialogs
import Pyrogram.Client.SessionCache
import Pyrogram.Connection.ChunkedBody
import Pyrogram.Connection.Downlink
import Pyrogram.Connection.FakeTls
import Pyrogram.Connection.Frames
import Pyrogram.Connection.Grants
import Pyrogram.Connection.Handshake
import Pyrogram.Connection.MtProxy
import Pyrogram.Connection.Obfuscated
import Pyrogram.Connection.Proxy
import Pyrogram.Connection.Uplink
import Pyrogram.Crypto.ClientHello
import Pyrogram.Crypto.Ctr
import Pyrogram.Crypto.Decompose
import Pyrogram.Crypto.Password
import Pyrogram.Crypto.RoundTrip
import Pyrogram.Dispatcher.Drain
import Pyrogram.Dispatcher.Plugins
import Pyrogram.Dispatcher.Propagation
import Pyrogram.FileId.Minted
import Pyrogram.FileId.UniqueId
import Pyrogram.Filters.Arguments
import Pyrogram.Filters.Command
import Pyrogram.Media.CdnHashes
import Pyrogram.Media.SaveFile
import Pyrogram.Media.StreamMedia
import Pyrogram.Messages.ChatHistory
import Pyrogram.Messages.CopyMediaGroup
import Pyrogram.Messages.Link
import Pyrogram.Messages.Replies
import Pyrogram.Parser.HtmlParse
import Pyrogram.Parser.HtmlUnparse
import Pyrogram.Parser.MarkdownQuotes
import Pyrogram.Raw.Container
import Pyrogram.Raw.Misread
import Pyrogram.Raw.Schema
import Pyrogram.Session.Acks
import Pyrogram.Session.BadPacket
import Pyrogram.Session.Endpoints
import Pyrogram.Session.Invoke
import Pyrogram.Session.KeyExchange
import Pyrogram.Session.MsgFactory
import Pyrogram.Session.Publication
import Pyrogram.Session.Requests
import Pyrogram.Session.Restart
import Pyrogram.Session.Salts
import Pyrogram.Session.Stack
import Pyrogram.Session.StopFinal
import Pyrogram.Storage.Migration
import Pyrogram.Storage.Peers
import Pyrogram.Storage.SessionString
import Pyrogram.Storage.UpdateBridge
import Pyrogram.Types.ChatEvent
import Pyrogram.Types.PeerId
import Pyrogram.Types.Photo
import Pyrogram.Types.Poll
import Pyrogram.Types.RichText
import Pyrogram.Updates.KeepsUp
import Pyrogram.Updates.Progress
import Pyrogram.Updates.RecoversLog
import Pyrogram.Updates.Resumable
import Pyrogram.Updates.ShortMessage
import Pyrogram.Utils.Cache
import Pyrogram.Utils.SplitText
