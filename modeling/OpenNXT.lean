import OpenNXT.Buffer.BigEndian
import OpenNXT.Data.SortedMap
import OpenNXT.Filesystem.Archive
import OpenNXT.Filesystem.ReferenceTable
import OpenNXT.Filesystem.RoundTrip
import OpenNXT.Filesystem.ArchiveLoading
import OpenNXT.Filesystem.TableUpdate
import OpenNXT.Decoding.Decoder
import OpenNXT.Util.ISAACCipher
import OpenNXT.Util.ISAACObject
import OpenNXT.Net.Channel
import OpenNXT.Net.GamePacketEncoder
import OpenNXT.Net.GamePacketFraming
import OpenNXT.Net.GameStream
import OpenNXT.Filesystem.Container
import OpenNXT.Net.Js5Session
import OpenNXT.Net.Js5Process
import OpenNXT.CacheDownloader.Js5Client
import OpenNXT.CacheDownloader.Js5ClientMachine
import OpenNXT.Net.Js5Blocks
import OpenNXT.CacheDownloader.Js5Agreement
import OpenNXT.Net.Js5Serving
import OpenNXT.Net.Js5Turns
import OpenNXT.Net.Js5InFlight
import OpenNXT.Net.Js5Agreement
import OpenNXT.Net.Js5Interleaving
import OpenNXT.CacheDownloader.Js5Connection
import OpenNXT.CacheDownloader.Js5Assigning
import OpenNXT.CacheDownloader.Js5Download
import OpenNXT.CacheDownloader.Js5RequestHandler
import OpenNXT.CacheDownloader.Js5Retry
import OpenNXT.CacheDownloader.CompletedRequest
import OpenNXT.Buffer.ByteBuf
import OpenNXT.Buffer.Windows1252
import OpenNXT.Ext.ByteBuf
import OpenNXT.Ext.XteaInPlace
import OpenNXT.Net.Buf.GamePacketData
import OpenNXT.Net.Buf.NumberReads
import OpenNXT.Net.Buf.BitOverflow
import OpenNXT.Net.DynamicGamePacketCodec
import OpenNXT.Net.ConnectedClient
import OpenNXT.Util.Whirlpool
import OpenNXT.Filesystem.ChecksumTable
import OpenNXT.Arithmetic.Rsa
import OpenNXT.Net.Proxy.LoginClientDecoder
import OpenNXT.Net.Proxy.LoginClientHandler
import OpenNXT.Net.Login.LoginServerDecoder
import OpenNXT.Net.Login.LoginHeaderReads
import OpenNXT.Model.WorldListSync
import OpenNXT.Model.WorldListFull
import OpenNXT.Model.Entity.LocalMeaning
import OpenNXT.Model.Entity.SlotAccounting
import OpenNXT.Model.World
import OpenNXT.Net.Login.LoginServerRuns
import OpenNXT.Model.WorldPlayer.TickProgress
import OpenNXT.Resources.FilesystemResources
import OpenNXT.Net.Js5Decoder
import OpenNXT.Net.Buf.ByteArrays
import OpenNXT.Net.Buf.SmartInts
import OpenNXT.Impl.PlayerStatContainer
import OpenNXT.Model.Entity.EntityListIterator
import OpenNXT.Resources.EnumDiskCodec
import OpenNXT.Model.Entity.PlayerAppearance
import OpenNXT.Model.Entity.InterfaceManager
import OpenNXT.Model.Entity.UpdateBlocks
import OpenNXT.Model.Entity.PlayerAdditions
import OpenNXT.Model.Files.Js5Token
import OpenNXT.Model.Files.ClientConfigStorage
import OpenNXT.Tools.ClientPatcher
import OpenNXT.Net.Game.Serverprot
import OpenNXT.Tools.TlsTerminateProxy.ClientHelloRecord
import OpenNXT.Tools.TlsTerminateProxy.AppData
import OpenNXT.Ops.JobCoordinator
import OpenNXT.Tools.TlsTerminateProxy.HttpForwarding
import OpenNXT.Net.RetailLoggedOutJs5Proxy
import OpenNXT.Net.Proxy.ProxyRelay
import OpenNXT.CacheDownloader.WrittenStore
import OpenNXT.Tools.ReferenceTableDoctor.Verdict
import OpenNXT.Net.TransportSniffer.TlsClientHelloRecord
import OpenNXT.Net.Server
