import GameQuery.Main
import GameQuery.Proofs.CompressedReplies
import GameQuery.Proofs.EndlessDiscovery
import GameQuery.Proofs.FrameReception
import GameQuery.Proofs.FutileDiscovery
import GameQuery.Proofs.HonestMasters
import GameQuery.Proofs.LateAnswers
import GameQuery.Proofs.Reassembly
import GameQuery.Proofs.ReplyCodec
import GameQuery.Proofs.ServerFailover
import GameQuery.Proofs.SplitReplies
import GameQuery.Proofs.StatusOutput
import GameQuery.Reassembler
import GameQuery.Text.Escape
import GameQuery.Proofs.CommandRun
import GameQuery.Proofs.Onlooker
import GameQuery.Proofs.Credentials
import GameQuery.Proofs.CredentialRun
import GameQuery.Proofs.ConnectionCoherence
import GameQuery.Proofs.FilterText
import GameQuery.Proofs.Redispatch
import GameQuery.Proofs.CacheOrigin
import GameQuery.Proofs.HostOrder
import GameQuery.Proofs.ListingPages
import GameQuery.Proofs.StatusMerge
import GameQuery.Proofs.TableRows
import GameQuery.Proofs.PrintedTable
import GameQuery.Proofs.AddressText
import GameQuery.Proofs.ListingRequests
import GameQuery.Proofs.TruncatedReplies
import GameQuery.Proofs.RowCrash
import GameQuery.Proofs.RowNames
import GameQuery.Proofs.ReaderInversion
import GameQuery.Proofs.ReplyGrammar
import GameQuery.Proofs.FragmentRoundTrip
import GameQuery.Proofs.FrameCodec
import GameQuery.Proofs.RequestCodec
import GameQuery.Proofs.ServerListing
import GameQuery.Proofs.FailoverCalls
import GameQuery.Proofs.Authentication
import GameQuery.Proofs.RefusedCommands
import GameQuery.Proofs.ReceiveBuffer
import GameQuery.Proofs.AddressResolution
import GameQuery.Proofs.StatusPassword
import GameQuery.Proofs.StatusUpdate
import GameQuery.Proofs.EscapedBytes
import GameQuery.Proofs.EncoderRoom
import GameQuery.Proofs.ReadItems
import GameQuery.Proofs.DecoderLoops
