import SatsPay.Prog
import SatsPay.Interleave
import SatsPay.ReadCommitted
import SatsPay.RowProtocol
import SatsPay.Alone
import SatsPay.Script
import SatsPay.Solo
import SatsPay.Numeric
import SatsPay.Doubles
import SatsPay.Decimals
import SatsPay.ChainClient
import SatsPay.DepositSources
import SatsPay.DepositAmounts
import SatsPay.DepositDepth
import SatsPay.InvoiceAmounts
import SatsPay.IpAddresses
import SatsPay.Webhooks
import SatsPay.Coins
import SatsPay.Db
import SatsPay.DexRoutes
import SatsPay.Statements
import SatsPay.Ledger
import SatsPay.Balances
import SatsPay.Parts
import SatsPay.House
import SatsPay.Focus
import SatsPay.PublicApi
import SatsPay.SignedRequests
import SatsPay.SignedRequestRuns
import SatsPay.Json
import SatsPay.Lend
import SatsPay.LendAmounts
import SatsPay.LendParts
import SatsPay.LendSteps
import SatsPay.LendRates
import SatsPay.LendRepeats
import SatsPay.LendSolvency
import SatsPay.LendAccrual
import SatsPay.LendRepayment
import SatsPay.LendLiquidity
import SatsPay.LendHealth
import SatsPay.LendLiquidation
import SatsPay.PoolSteps
import SatsPay.Auth
import SatsPay.Sessions
import SatsPay.OneTimeCodes
import SatsPay.Oauth
import SatsPay.OauthCodes
import SatsPay.JobQueue
import SatsPay.LendTotals
import SatsPay.UtxoNodeRpc
import SatsPay.Failover
import SatsPay.EvmBroadcast
import SatsPay.Withdrawals
import SatsPay.WithdrawalBook
import SatsPay.WithdrawalKeys
import SatsPay.WithdrawalSteps
import SatsPay.WithdrawalMoves
import SatsPay.WithdrawalPipeline
import SatsPay.WithdrawalRuns
import SatsPay.Traces
import SatsPay.Failures
import SatsPay.LedgerRuns
import SatsPay.Requests
import SatsPay.TxInvariants
import SatsPay.Leading
import SatsPay.OutboxRelay
import SatsPay.OutboxDelivery
import SatsPay.OutboxRuns
import SatsPay.References
import SatsPay.Airdrop
import SatsPay.Faucet
import SatsPay.FaucetRuns
import SatsPay.Stakes
import SatsPay.SoloLedger
import SatsPay.Rewards
import SatsPay.RewardTicks
import SatsPay.RewardPayouts
import SatsPay.RewardEmission
import SatsPay.StakeRuns
import SatsPay.WithdrawalAmounts
import SatsPay.DexSwaps
import SatsPay.DexTracking
import SatsPay.ChangeNowFees
import SatsPay.SwapQuotes
import SatsPay.UsdQuotes
import SatsPay.IpAllowlists
import SatsPay.Fallible
import SatsPay.UtxoSigning
import SatsPay.ZerWithdrawals
import SatsPay.BitGroups
import SatsPay.CashAddr
import SatsPay.BigEndian
import SatsPay.Hex
import SatsPay.Base58
import SatsPay.Rlp
import SatsPay.EvmSigning
import SatsPay.Wordlist
import SatsPay.Mnemonics
import SatsPay.Addresses
import SatsPay.AddressKeys
import SatsPay.AddressFormats
import SatsPay.HumanAmounts
import SatsPay.Base64
import SatsPay.SealedPii
import SatsPay.Words
import SatsPay.Redaction
import SatsPay.RedactedLines
import SatsPay.RedactedTwice
import SatsPay.RedactedTexts
import SatsPay.Telemetry
import SatsPay.TxWrites
import SatsPay.Transfers
import SatsPay.TransferRuns
import SatsPay.Medians
import SatsPay.PriceOracle
import SatsPay.DexBook
import SatsPay.DexMoves
import SatsPay.Deposits
import SatsPay.DepositBook
import SatsPay.DepositRuns
import SatsPay.DexSwapRuns
import SatsPay.Swaps
import SatsPay.SwapRuns
import SatsPay.FixedWindows
import SatsPay.RateLimits
import SatsPay.RateBounds
import SatsPay.WalletPlans
import SatsPay.Invoices
import SatsPay.InvoiceRuns
import SatsPay.DepositAddresses
import SatsPay.DepositAddressRuns
