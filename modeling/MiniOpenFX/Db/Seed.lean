import MiniOpenFX.Runtime

/-!
# The seed

The one client the repository itself creates, with its starting balances. Two runs at once create
it once.

Source: `apps/api/src/db/seed.ts`.
-/

namespace MiniOpenFX

open Js Transactional

variable [DecimalJs]

namespace Seed

/-- The name of the client, by which a second run finds that it exists. -/
def DEMO_CLIENT_NAME : String := "Demo Client"

/-- The starting balances, with the amounts as texts. -/
def funding : List (String × String) := [("USDT", "10000"), ("BTC", "1")]

/-- Fund a new client in one currency. -/
def fund (clientId : Uuid) (currency amount : String) : App Unit := do
  let amountMinor ← App.ofExcept (toMinorUnits (.text amount))
  App.query (.insertBalance clientId currency amountMinor)
  App.query (.insertLedgerEntry ⟨clientId, currency, amountMinor, .DEPOSIT, "SEED", clientId⟩)

/-- The client, unless it existed. -/
def main : App (Option ClientRow) :=
  Prog.transaction do
    let id : Uuid ← App.request .genRandomUuid
    let inserted : Option ClientRow ← App.query (.insertClientIfAbsent id DEMO_CLIENT_NAME)
    match inserted with
    | none => return none
    | some inserted =>
      funding.forM fun (currency, amount) => fund inserted.id currency amount
      return some inserted

end Seed

end MiniOpenFX
