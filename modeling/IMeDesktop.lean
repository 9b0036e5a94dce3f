import IMeDesktop.Api.Updates
import IMeDesktop.Api.UpdatesDifference
import IMeDesktop.Api.UpdatesSeq
import IMeDesktop.Base.FlatSetModify
import IMeDesktop.Data.ChatFilters
import IMeDesktop.Data.DownloadLoaded
import IMeDesktop.Data.DownloadLoadedRuns
import IMeDesktop.Data.DownloadLoading
import IMeDesktop.Data.DownloadLoadingMoves
import IMeDesktop.Data.DownloadLoadingRuns
import IMeDesktop.Data.DownloadLoadingSpecs
import IMeDesktop.Data.DownloadLoadingWatched
import IMeDesktop.Data.DownloadManager
import IMeDesktop.Data.DownloadResolves
import IMeDesktop.Data.DownloadsSerialized
import IMeDesktop.Data.Histories
import IMeDesktop.Data.HistoriesAnswers
import IMeDesktop.Data.HistoriesEntries
import IMeDesktop.Data.HistoriesFresh
import IMeDesktop.Data.HistoriesReads
import IMeDesktop.Data.HistoriesRequests
import IMeDesktop.Data.HistoriesSteps
import IMeDesktop.Data.HistoryUnread
import IMeDesktop.Data.PtsGaps
import IMeDesktop.Data.PtsOrder
import IMeDesktop.Data.PtsWaiter
import IMeDesktop.Data.RepliesList
import IMeDesktop.Data.RepliesListRoot
import IMeDesktop.Data.RepliesListRuns
import IMeDesktop.Data.RepliesListUnread
import IMeDesktop.Data.ScheduledMessages
import IMeDesktop.Data.ScheduledMessagesOrder
import IMeDesktop.Data.ScheduledMessagesRuns
import IMeDesktop.Data.SparseIdsMergedSlice
import IMeDesktop.Data.SparseIdsSliceBuilder
import IMeDesktop.Dialogs.DialogsList
import IMeDesktop.Dialogs.DialogsListSorted
import IMeDesktop.Dialogs.Entry
import IMeDesktop.Dialogs.IndexedList
import IMeDesktop.Dialogs.IndexedListRuns
import IMeDesktop.Dialogs.PinnedList
import IMeDesktop.Dialogs.PinnedListRuns
import IMeDesktop.History.UnreadThings
import IMeDesktop.History.UnreadThingsRuns
import IMeDesktop.Lib.Attempt
import IMeDesktop.Lib.Base64
import IMeDesktop.Lib.Buffer
import IMeDesktop.Lib.Cursor
import IMeDesktop.Lib.DataStream
import IMeDesktop.Lib.Exclusive
import IMeDesktop.Lib.FlatSet
import IMeDesktop.Lib.Journal
import IMeDesktop.Lib.Least
import IMeDesktop.Lib.Loop
import IMeDesktop.Lib.MapDifference
import IMeDesktop.Lib.Mask
import IMeDesktop.Lib.Nesting
import IMeDesktop.Lib.Packing
import IMeDesktop.Lib.Patch
import IMeDesktop.Lib.Places
import IMeDesktop.Lib.Positions
import IMeDesktop.Lib.Rho
import IMeDesktop.Lib.Runs
import IMeDesktop.Lib.SafePrimes
import IMeDesktop.Lib.SortedMap
import IMeDesktop.Lib.Span
import IMeDesktop.Lib.Trim
import IMeDesktop.Media.Streaming.CacheFormat
import IMeDesktop.Media.Streaming.CacheRoundTrip
import IMeDesktop.Media.Streaming.FinalizeCache
import IMeDesktop.Media.Streaming.Slices
import IMeDesktop.Media.Streaming.SlicesFills
import IMeDesktop.Media.Streaming.SlicesPieces
import IMeDesktop.Mtproto.Container
import IMeDesktop.Mtproto.ContainerFormat
import IMeDesktop.Mtproto.ContainerIds
import IMeDesktop.Mtproto.DcKeyAnswers
import IMeDesktop.Mtproto.DcKeyConfirmed
import IMeDesktop.Mtproto.DcKeyCreator
import IMeDesktop.Mtproto.DcKeySteps
import IMeDesktop.Mtproto.DcOptions
import IMeDesktop.Mtproto.DcOptionsReplaced
import IMeDesktop.Mtproto.DcOptionsRestored
import IMeDesktop.Mtproto.DcOptionsRuns
import IMeDesktop.Mtproto.DcOptionsSerialized
import IMeDesktop.Mtproto.Dcenter
import IMeDesktop.Mtproto.DhGenerators
import IMeDesktop.Mtproto.DhUtils
import IMeDesktop.Mtproto.FactorizePQ
import IMeDesktop.Mtproto.FactorizePQLoops
import IMeDesktop.Mtproto.FactorizePQResult
import IMeDesktop.Mtproto.KeyCreation
import IMeDesktop.Mtproto.NotSecureAnswers
import IMeDesktop.Mtproto.ProxyData
import IMeDesktop.Mtproto.ProxySecrets
import IMeDesktop.Mtproto.ReceivedIds
import IMeDesktop.Mtproto.ReceivedInside
import IMeDesktop.Mtproto.ReceivedInts
import IMeDesktop.Mtproto.ReceivedNesting
import IMeDesktop.Mtproto.ReceivedTurns
import IMeDesktop.Mtproto.Scheme
import IMeDesktop.Mtproto.SerializedRequest
import IMeDesktop.Mtproto.Session
import IMeDesktop.Mtproto.SessionBindings
import IMeDesktop.Mtproto.SessionConservation
import IMeDesktop.Mtproto.SessionReceive
import IMeDesktop.Mtproto.SessionResponses
import IMeDesktop.Mtproto.TcpConnection
import IMeDesktop.Mtproto.TcpFraming
import IMeDesktop.Mtproto.TcpReassembly
import IMeDesktop.Mtproto.TlCodec
import IMeDesktop.Mtproto.TlReader
import IMeDesktop.Mtproto.TlTypes
import IMeDesktop.Mtproto.TlsClientHello
import IMeDesktop.Mtproto.TlsClientHelloShape
import IMeDesktop.Mtproto.TlsClientHelloWellFormed
import IMeDesktop.Mtproto.TlsHello
import IMeDesktop.Mtproto.TlsRecords
import IMeDesktop.Mtproto.TlsSocket
import IMeDesktop.Passport.Encryption
import IMeDesktop.Storage.BinlogBounds
import IMeDesktop.Storage.BinlogReader
import IMeDesktop.Storage.CacheTypes
import IMeDesktop.Storage.Compactor
import IMeDesktop.Storage.CompactorReading
import IMeDesktop.Storage.CompactorRuns
import IMeDesktop.Storage.DatabaseAges
import IMeDesktop.Storage.DatabaseChanges
import IMeDesktop.Storage.DatabaseClearing
import IMeDesktop.Storage.DatabaseCrash
import IMeDesktop.Storage.DatabaseDurable
import IMeDesktop.Storage.DatabaseEffects
import IMeDesktop.Storage.DatabaseExcess
import IMeDesktop.Storage.DatabaseIndex
import IMeDesktop.Storage.DatabaseObject
import IMeDesktop.Storage.DatabaseOldest
import IMeDesktop.Storage.DatabaseOpening
import IMeDesktop.Storage.DatabasePruning
import IMeDesktop.Storage.DatabaseReplay
import IMeDesktop.Storage.DatabaseStats
import IMeDesktop.Storage.DownloadAccounts
import IMeDesktop.Storage.DownloadBalance
import IMeDesktop.Storage.DownloadManager
import IMeDesktop.Storage.DownloadRuns
import IMeDesktop.Storage.DownloadTask
import IMeDesktop.Storage.DownloadTaskAccounts
import IMeDesktop.Storage.EncryptedFile
import IMeDesktop.Storage.EncryptedFileRuns
import IMeDesktop.Storage.Encryption
import IMeDesktop.Storage.FileDownload
import IMeDesktop.Storage.FileDownloadAssembled
import IMeDesktop.Storage.FileDownloadParts
import IMeDesktop.Storage.FileDownloadRuns
import IMeDesktop.Storage.FileUtilities
import IMeDesktop.Storage.FileUtilitiesRoundTrip
import IMeDesktop.Storage.SparseIdsAnswers
import IMeDesktop.Storage.SparseIdsCount
import IMeDesktop.Storage.SparseIdsList
import IMeDesktop.Storage.SparseIdsSlices
import IMeDesktop.Storage.WriteManager
import IMeDesktop.Storage.WriteManagerRuns
import IMeDesktop.Ui.CutPart
import IMeDesktop.Ui.CutPartPlaces
import IMeDesktop.Ui.CutParts
import IMeDesktop.Ui.EntitiesToTags
import IMeDesktop.Ui.EntitiesToTagsSweep
import IMeDesktop.Ui.ParseEntities
import IMeDesktop.Ui.ParseEntitiesLinks
import IMeDesktop.Ui.PrepareForSending
import IMeDesktop.Ui.SerializedTags
import IMeDesktop.Ui.SingleLine
