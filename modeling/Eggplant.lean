import Eggplant.Lib.Words
import Eggplant.Lib.Scaled
import Eggplant.Decimal
import Eggplant.Lib.Cuts
import Eggplant.Lib.Abi
import Eggplant.Chain
import Eggplant.Error
import Eggplant.Convert.Calldata
import Eggplant.Convert.Naming
import Eggplant.Convert.Ledger
import Eggplant.Lib.CompleteSet
import Eggplant.Lib.Levels
import Eggplant.Convert.Tiers
import Eggplant.Convert.Event
import Eggplant.Convert.Harvest
import Eggplant.Convert.Proceeds
import Eggplant.Convert.Execute
import Eggplant.Convert.Optimal
import Eggplant.Convert.Balances
import Eggplant.Convert.Chunks
import Eggplant.Convert.Engine
import Eggplant.Convert.PreBatch
import Eggplant.Convert.Accounting
import Eggplant.Convert.Resume
import Eggplant.Convert.Sessions
import Eggplant.Data
import Eggplant.Redeem.Plan
import Eggplant.Convert.Worker
import Eggplant.Convert.FillSettle
import Eggplant.Lib.Table
import Eggplant.Sweep.LegSizes
import Eggplant.Sweep.Classify
import Eggplant.Lib.Batches
import Eggplant.Clob.Cancel
import Eggplant.Lib.Buffer
import Eggplant.Lib.Eip712
import Eggplant.Lib.Keccak
import Eggplant.Lib.Oracle
import Eggplant.Clob.Types
import Eggplant.Clob.Signing
import Eggplant.Clob.Amounts
import Eggplant.Clob.Placement
import Eggplant.Relayer.Hashes
import Eggplant.Clob.Envelope
import Eggplant.Relayer.Binding
import Eggplant.Relayer.Typed
import Eggplant.Digests
import Eggplant.Clob.Wire
import Eggplant.Book.Apply
import Eggplant.Book.Replay
import Eggplant.Lib.Ladder
import Eggplant.Book.Depth
import Eggplant.Lib.Window
import Eggplant.Ws.SeenIds
import Eggplant.Ws.Fills
import Eggplant.Ws.Liveness
import Eggplant.Lib.Phases
import Eggplant.Ws.Recycle
import Eggplant.Lib.Retry
import Eggplant.Redeem.Submit
import Eggplant.Redeem.Soundness
import Eggplant.Redeem.Attempts
import Eggplant.Redeem.Drain
import Eggplant.Lib.Rounds
import Eggplant.Redeem.Summary
import Eggplant.Redeem.ShortReads
import Eggplant.Lib.Orbits
import Eggplant.Clob.Listing
import Eggplant.Lib.Pages
import Eggplant.Positions
import Eggplant.Lib.Grid
import Eggplant.Clob.SizeRule
import Eggplant.Lib.Join
import Eggplant.Clob.Posting
import Eggplant.Lib.Serde
import Eggplant.Clob.OpenOrders
import Eggplant.Lib.UrlQuery
import Eggplant.Clob.Query
import Eggplant.Lib.JsonText
import Eggplant.Lib.PrefixCode
import Eggplant.Clob.L2
import Eggplant.Lib.Percent
import Eggplant.Gamma
import Eggplant.Sweep.Discover
import Eggplant.Sweep.Sources
import Eggplant.Sweep.Engine
import Eggplant.Sweep.Rerun
import Eggplant.Clob.Endpoints
import Eggplant.Clob.Desk
import Eggplant.Lib.TypedBinding
import Eggplant.Addresses
import Eggplant.Auth
import Eggplant.Payloads
import Eggplant.Relayer.Submit
import Eggplant.Relayer.Receipt
import Eggplant.Lib.Tagged
import Eggplant.Clob.Books
import Eggplant.Ws.Market
import Eggplant.Book.Live
import Eggplant.Ws.User
import Eggplant.Ws.Credits
import Eggplant.Lib.Base64
import Eggplant.Clob.Headers
import Eggplant.Lib.Sequenced
import Eggplant.Wallets
import Eggplant.Approval
import Eggplant.Clob.Handshake
