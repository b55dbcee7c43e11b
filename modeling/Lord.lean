import Lord.Commit.AttestationPaths
import Lord.Market.PaidContracts
import Lord.Commit.OrderRuns
import Lord.Commit.CrossStoreRuns
import Lord.Commit.LogRuns
import Lord.Storage.SchemaChain
import Lord.Commit.InboundTails
import Lord.Calendar.HeldDigests
import Lord.Calendar.ServedProofs
import Lord.Index.SatConservation
import Lord.Index.Schedules
import Lord.Index.ReorgDepth
import Lord.Index.AddressIndex
import Lord.Wallet.Settling
import Lord.Storage.OrderWalk
import Lord.Commit.AttestationHeights
import Lord.Calendar.FailedAnchors
import Lord.Calendar.BatchProof
import Lord.Storage.FilepackUndo
import Lord.Index.FindRange
import Lord.Ltp.Handles
import Lord.Commit.BrecciaReaders
import Lord.Storage.Fingerprint
import Lord.Payments.LedgerFile
import Lord.Storage.CaseyRoundTrip
import Lord.Index.EntryRoundTrip
import Lord.Ordinals.NotationSoundness
import Lord.Index.FindBounds
import Lord.Index.QueryLocks
import Lord.Wallet.SatSearch
import Lord.Storage.DecodeRoundTrip
import Lord.Wallet.CoinSelection
import Lord.Ordinals.Varint
import Lord.Calendar.MerklePaths
import Lord.Calendar.Tick
import Lord.Keys.FirstUse
import Lord.Satscards.SignedText
import Lord.Ltp.TornAppends
import Lord.Commit.CalendarRuns
import Lord.Commit.TableWrites
import Lord.Server.CommitmentPages
import Lord.Server.CommitmentContent
import Lord.Commit.FilepackRuns
import Lord.Market.Listings
import Lord.Ltp.GossipRuns
import Lord.Ltp.MempoolRuns
import Lord.Wallet.SendSat
