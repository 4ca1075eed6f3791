import Yew.Util.Bytes
import Yew.Util.Delimited
import Yew.Util.Text
import Yew.Util.Proc
import Yew.Util.OrdMap
import Yew.Util.Trace
import Yew.Util.Flow
import Yew.Util.Climb
import Yew.Util.Json
import Yew.Util.Record
import Yew.Util.RawValue
import Yew.Core.Crypto
import Yew.Core.Script
import Yew.Core.ScriptOps
import Yew.Core.Pq
import Yew.Core.Vault
import Yew.Core.VaultCodec
import Yew.Core.Tx
import Yew.Core.TxRead
import Yew.Core.TxCodec
import Yew.Core.TxWidth
import Yew.Core.Sighash
import Yew.Core.Keys
import Yew.Core.Address
import Yew.Core.Sapling
import Yew.Core.Payload
import Yew.Core.PayloadCodec
import Yew.Core.Coins
import Yew.Core.Gate
import Yew.Core.CoinSelect
import Yew.Core.CoinWalk
import Yew.Core.CoinChoice
import Yew.Core.CoinSound
import Yew.Core.CoinExcess
import Yew.Core.CoinChange
import Yew.Core.CoinNearest
import Yew.Core.CoinOrder
import Yew.Store.Rows
import Yew.Build.Fees
import Yew.Build.OwnerSig
import Yew.Build.Funding
import Yew.Build.Wallet
import Yew.Build.Transfer
import Yew.Build.TransferSound
import Yew.Build.Mint
import Yew.Build.MintSound
import Yew.Build.Slots
import Yew.Build.Redeem
import Yew.Build.Claim
import Yew.Build.PlanSound
import Yew.Build.ClaimSound
import Yew.Proto.Act
import Yew.Proto.ActCodec
import Yew.Proto.Types
import Yew.Proto.Preview
import Yew.Proto.Attest
import Yew.Proto.Domains
import Yew.Signer.State
import Yew.Signer.Stores
import Yew.Signer.SignOnce
import Yew.Signer.Wallet
import Yew.Signer.Sapling
import Yew.Signer.Sign
import Yew.Signer.Policy
import Yew.Signer.Outflow
import Yew.Signer.SignSet
import Yew.Signer.Guard
import Yew.Signer.Attest
import Yew.Signer.WalletIo
import Yew.Signer.Handle
import Yew.Signer.Frame
import Yew.Signer.OnceRuns
import Yew.Signer.AttestRuns
import Yew.Signer.Restore
import Yew.Signer.RestoreRuns
import Yew.Signer.KeyRuns
import Yew.Signer.SealRuns
import Yew.Facade.Methods
import Yew.Facade.Server
import Yew.Facade.Filter
import Yew.Util.Checked
import Yew.Build.Residual
import Yew.Build.Estimate
import Yew.Daemon.ClaimResidual
import Yew.Store.Tables
import Yew.Build.Record
import Yew.Build.RecordSound
import Yew.Sync.RecordTx
import Yew.Daemon.Keys
import Yew.Daemon.Wallet
import Yew.Daemon.Sync
import Yew.Daemon.SyncFrame
import Yew.Daemon.Chain
import Yew.Daemon.Orphans
import Yew.Daemon.Relevance
import Yew.Daemon.Scan
import Yew.Daemon.Mempool
import Yew.Daemon.Converge
import Yew.Daemon.Snapshots
import Yew.Daemon.Purse
import Yew.Daemon.Spend
import Yew.Daemon.YedSend
import Yew.Daemon.Backed
import Yew.Daemon.Reserve
import Yew.Proto.PreviewSound
import Yew.Build.EstimateSound
import Yew.Build.ResidualRule
import Yew.Build.VaultCheck
import Yew.Build.FeeTerms
import Yew.Daemon.YedSound
import Yew.Daemon.TransferRange
import Yew.Daemon.SendSound
import Yew.Daemon.ChangeKeys
import Yew.Daemon.SendFee
import Yew.Daemon.SendOutflow
import Yew.Daemon.FundRaw
import Yew.Daemon.SendMany
import Yew.Daemon.FundYed
import Yew.Daemon.Carriers
import Yew.Daemon.CarrierRuns
import Yew.Daemon.SweepSafe
import Yew.Daemon.ChangeDust
import Yew.Daemon.FeeRounds
import Yew.Daemon.Pending
import Yew.Proto.Cosigns
import Yew.Daemon.CancelCosigns
import Yew.Daemon.ActSign
import Yew.Daemon.Handoff
import Yew.Daemon.Refee
import Yew.Daemon.Unlock
import Yew.Daemon.VaultLocks
import Yew.Util.Brackets
import Yew.Build.ProtocolFee
import Yew.Build.Release
import Yew.Build.YecSend
import Yew.Build.Shield
import Yew.Util.Sorted
import Yew.Build.FeeReserve
import Yew.Util.Quantile
import Yew.Daemon.BundleStat
import Yew.Daemon.AsOf
import Yew.Util.Binary64
import Yew.Util.Decimal
import Yew.Daemon.Amounts
import Yew.Signer.AttestKeys
import Yew.Signer.ImportOnce
import Yew.Signer.Marks
import Yew.Signer.DumpLines
import Yew.Signer.MarkRuns
import Yew.Signer.Decoding
import Yew.Util.Base58
import Yew.Core.AddressSound
import Yew.Core.Bundle
import Yew.Core.PushLayer
import Yew.Daemon.SaplingSpend
import Yew.Daemon.CarrierKept
import Yew.Sync.MintSteps
import Yew.Sync.MintRuns
import Yew.Sync.Locks
import Yew.Sync.GapScan
import Yew.Sync.GapRuns
import Yew.Sync.CoinSet
import Yew.Sync.CoinRuns
import Yew.Util.Base64
import Yew.Facade.Access
