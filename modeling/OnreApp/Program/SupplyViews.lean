import OnreApp.Program.Genesis

/-!
# What the supply views report

Both views deduct what the offer vault holds, read at an address derived from the token program
the caller passes. Under the other program there is no such account, and nothing is deducted.
-/
namespace OnreApp.Program

open Library.Checked Library.FiniteStore Library.Outcome Library.Run Offers Tokens

section Views

variable {w : World} {k : Pubkey} {m : Mint} {program : TokenProgram}

end Views

end OnreApp.Program
