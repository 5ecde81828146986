import OnreApp.Accounts
import OnreApp.Constants
import OnreApp.Error
import OnreApp.Library.Balance
import OnreApp.Library.Checked
import OnreApp.Library.FiniteStore
import OnreApp.Library.Intervals
import OnreApp.Library.LittleEndian
import OnreApp.Library.Log
import OnreApp.Library.Ordered
import OnreApp.Library.Outcome
import OnreApp.Library.Reorder
import OnreApp.Library.Rounding
import OnreApp.Library.RoundingError
import OnreApp.Library.Run
import OnreApp.Library.Schedule
import OnreApp.Library.Search
import OnreApp.Library.Signed
import OnreApp.Library.SlotSet
import OnreApp.Offers.Exchange
import OnreApp.Offers.MakeOffer
import OnreApp.Offers.OfferUtils
import OnreApp.Offers.PricedVectors
import OnreApp.Offers.PricingGap
import OnreApp.Offers.ScheduleRefinement
import OnreApp.Offers.SlotInvariant
import OnreApp.Offers.StepPrice
import OnreApp.Offers.TakeEffect
import OnreApp.Offers.TakeLedger
import OnreApp.Offers.TakeOffer
import OnreApp.Offers.TakeOrder
import OnreApp.Offers.Takes
import OnreApp.Offers.VectorCapacity
import OnreApp.Offers.Vectors
import OnreApp.Program.ApprovalSoundness
import OnreApp.Program.Apy
import OnreApp.Program.ApyAccuracy
import OnreApp.Program.AuthorityLists
import OnreApp.Program.BooksReplay
import OnreApp.Program.CapScope
import OnreApp.Program.Effects
import OnreApp.Program.EventReplay
import OnreApp.Program.Events
import OnreApp.Program.FeeCeiling
import OnreApp.Program.FuzzOracle
import OnreApp.Program.FuzzVectors
import OnreApp.Program.Genesis
import OnreApp.Program.Governance
import OnreApp.Program.Initialization
import OnreApp.Program.KillSwitch
import OnreApp.Program.Lifecycle
import OnreApp.Program.MarketInfo
import OnreApp.Program.MintAuthority
import OnreApp.Program.MintAuthorityRoundTrip
import OnreApp.Program.NavAdjustment
import OnreApp.Program.NextPriceChange
import OnreApp.Program.NoArbitrage
import OnreApp.Program.Outsiders
import OnreApp.Program.PanicFreedom
import OnreApp.Program.Panics
import OnreApp.Program.PositivePayout
import OnreApp.Program.PricingGap
import OnreApp.Program.Quotes
import OnreApp.Program.RouteEquivalence
import OnreApp.Program.Spending
import OnreApp.Program.StateOperations
import OnreApp.Program.Step
import OnreApp.Program.Succession
import OnreApp.Program.SupplyCap
import OnreApp.Program.SupplyViews
import OnreApp.Program.Unprivileged
import OnreApp.Program.VaultAccounting
import OnreApp.Program.VaultOperations
import OnreApp.Program.ViewAvailability
import OnreApp.Program.Waiting
import OnreApp.Program.World
import OnreApp.Redemption.Accounting
import OnreApp.Redemption.Book
import OnreApp.Redemption.ConversionLaws
import OnreApp.Redemption.CreditedRequests
import OnreApp.Redemption.ExactConversion
import OnreApp.Redemption.Exit
import OnreApp.Redemption.Fulfillment
import OnreApp.Redemption.RedemptionLedger
import OnreApp.Redemption.RedemptionOffers
import OnreApp.Redemption.RedemptionRequests
import OnreApp.Redemption.RedemptionUtils
import OnreApp.Redemption.Resolution
import OnreApp.Redemption.Settlement
import OnreApp.Redemption.Solvency
import OnreApp.Redemption.VaultRun
import OnreApp.Redemption.Withdrawals
import OnreApp.Tokens.Books
import OnreApp.Tokens.CallTrace
import OnreApp.Tokens.Calls
import OnreApp.Tokens.Conservation
import OnreApp.Tokens.Ledger
import OnreApp.Tokens.Valuation
import OnreApp.Utils.Approver
import OnreApp.Utils.Ed25519Encoder
import OnreApp.Utils.Ed25519Parser
import OnreApp.Utils.ExactRouting
import OnreApp.Utils.Precompile
import OnreApp.Utils.TokenRouting
import OnreApp.Utils.TokenUtils
