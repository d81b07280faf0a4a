import AlterChat.Lib.Run
import AlterChat.Lib.Overflow
import AlterChat.Lib.Js
import AlterChat.Lib.Double
import AlterChat.Lib.Poll
import AlterChat.Lib.Window
import AlterChat.Lib.Streams
import AlterChat.Lib.Codec
import AlterChat.Lib.Bincode
import AlterChat.Lib.BigEndian
import AlterChat.Lib.Slices
import AlterChat.Lib.Table
import AlterChat.Lib.Transactions
import AlterChat.Lib.Arrivals
import AlterChat.Lib.Mirror
import AlterChat.Lib.Primitives
import AlterChat.Lib.Paths
import AlterChat.Lib.Disk
import AlterChat.Lib.Symbolic
import AlterChat.Lib.Layout
import AlterChat.Lib.Gcm
import AlterChat.Lib.Deduction
import AlterChat.Lib.Agreement
import AlterChat.Lib.Channel
import AlterChat.Lib.Versions
import AlterChat.Lib.Ranking
import AlterChat.Core.DoubleRatchet
import AlterChat.Core.RatchetErrors
import AlterChat.Core.RatchetEpochs
import AlterChat.Core.RatchetSession
import AlterChat.Core.RatchetReplay
import AlterChat.Core.RatchetStore
import AlterChat.Core.RatchetKeys
import AlterChat.Core.RatchetSecrecy
import AlterChat.Core.RatchetFresh
import AlterChat.Core.RatchetRecovery
import AlterChat.Core.RatchetChannel
import AlterChat.Core.RatchetHeaders
import AlterChat.Core.RatchetCounters
import AlterChat.Core.X3dh
import AlterChat.Core.X3dhSecrecy
import AlterChat.Core.Crypto
import AlterChat.Core.Onion
import AlterChat.Core.OnionPanics
import AlterChat.Core.OnionKnowledge
import AlterChat.Core.SealedSender
import AlterChat.Core.Requests
import AlterChat.Core.Pow
import AlterChat.Core.Spam
import AlterChat.Lib.OpSet
import AlterChat.Lib.Automerge
import AlterChat.Lib.OpSetDoc
import AlterChat.Lib.Signatures
import AlterChat.Lib.Cabinet
import AlterChat.Core.Governance
import AlterChat.Core.SignedBytes
import AlterChat.Core.Plugin
import AlterChat.Core.Crdt
import AlterChat.Core.RoomLayout
import AlterChat.Core.RoomSubset
import AlterChat.Core.RoomMerge
import AlterChat.Core.RoomConvergence
import AlterChat.Core.RoomPanics
import AlterChat.Core.Node
import AlterChat.Core.Traffic
import AlterChat.Core.CoverTraffic
import AlterChat.Core.Pluggable
import AlterChat.Core.Sharding
import AlterChat.Core.Identity
import AlterChat.Tauri.Db
import AlterChat.Tauri.Migrations
import AlterChat.Tauri.Profile
import AlterChat.Tauri.Commands
import AlterChat.Tauri.RoomStore
import AlterChat.Tauri.RoomWire
import AlterChat.Tauri.Revocation
import AlterChat.Tauri.Invites
import AlterChat.Tauri.Admission
import AlterChat.Tauri.Authority
import AlterChat.Tauri.DirectMessages
import AlterChat.Tauri.ExactlyOnce
import AlterChat.Tauri.FirstMessage
import AlterChat.Tauri.Outbox
import AlterChat.Tauri.Inbound
import AlterChat.Tauri.Chunks
import AlterChat.Tauri.Session
import AlterChat.Tauri.SessionDisk
import AlterChat.Tauri.SessionCommands
import AlterChat.Tauri.SessionIdentity
import AlterChat.Tauri.SessionStart
import AlterChat.Tauri.SessionAmnesic
import AlterChat.Tauri.SessionWipe
import AlterChat.Tauri.OnionDelivery
import AlterChat.Tauri.Mailbox
import AlterChat.Tauri.Policy
import AlterChat.Tauri.Gates
import AlterChat.Core.RoomGrowth
import AlterChat.Tauri.RoomHistory
import AlterChat.Tauri.Ephemeral
import AlterChat.Ui.Sfu
import AlterChat.Ui.Media
import AlterChat.Tauri.Isolation
import AlterChat.Tauri.SignedRecords
import AlterChat.Tauri.Duplicates
import AlterChat.Tauri.Capabilities
import AlterChat.Tauri.VaultTransfer
import AlterChat.Tauri.ChunkStorage
import AlterChat.Tauri.Manifest
import AlterChat.Tauri.ChunkQuota
import AlterChat.Tauri.ChunkIntegrity
import AlterChat.Tauri.RateLimit
import AlterChat.Tauri.Handling
import AlterChat.Tauri.Answers
import AlterChat.Tauri.RateSource
import AlterChat.Tauri.ProofOfWork
import AlterChat.Tauri.OutgoingHistory
import AlterChat.Tauri.MessageIndex
import AlterChat.Tauri.Configuration
import AlterChat.Ui.Expiry
import AlterChat.Core.LegacyRatchet
import AlterChat.Core.SafetyNumber
import AlterChat.Core.StoredSecret
import AlterChat.Tauri.PrekeyUse
import AlterChat.Tauri.RemoteInput
import AlterChat.Tauri.LegacyReplay
import AlterChat.Tauri.PeerBook
import AlterChat.Tauri.PreparedFile
import AlterChat.Tauri.StaticSession
