import ReserveAuditor.Addresses
import ReserveAuditor.ApiConversions
import ReserveAuditor.Arrivals
import ReserveAuditor.AuditTrail
import ReserveAuditor.BalanceStore
import ReserveAuditor.BlockBalances
import ReserveAuditor.BlockCounts
import ReserveAuditor.BlockReports
import ReserveAuditor.BurnCoverage
import ReserveAuditor.Dashboard
import ReserveAuditor.Fetcher
import ReserveAuditor.Gauges
import ReserveAuditor.HonestHistory
import ReserveAuditor.Listings
import ReserveAuditor.MatchAttempts
import ReserveAuditor.MatchEffects
import ReserveAuditor.MatchOutcome
import ReserveAuditor.MintInfo
import ReserveAuditor.MintLimits
import ReserveAuditor.MintTotals
import ReserveAuditor.NonceCodec
import ReserveAuditor.PublishedCounters
import ReserveAuditor.ScannerProgress
import ReserveAuditor.SyncedData
import ReserveAuditor.TransferCounts
import ReserveAuditor.Truncation
import ReserveAuditor.WithdrawalAccounting
