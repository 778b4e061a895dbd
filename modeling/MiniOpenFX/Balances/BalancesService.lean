import MiniOpenFX.Ledger.LedgerService

/-!
# The balances service

Reading a client's balances, and the deposits that fund it.

Source: `balances.service.ts` and `balance.mapper.ts` in `apps/api/src/balances`.
-/

namespace MiniOpenFX

open Js Transactional

variable [DecimalJs]

/-- A balance as a client sees it: the amount as the text of a decimal number, never as a JSON
number, which would lose digits. -/
structure BalanceResponse where
  currency : String
  available : String
  deriving DecidableEq

/-- `toBalanceResponse` of `balance.mapper.ts`: minor units become a decimal text. -/
def toBalanceResponse (row : BalanceRow) : BalanceResponse :=
  ⟨row.currency, formatMinorUnits row.availableMinor⟩

/-- The body of `POST /v1/deposits`. -/
structure CreateDepositDto where
  currency : String
  amount : String
  deriving DecidableEq

namespace BalancesService

/-- The rows of the client, as its balances; one statement outside any transaction. -/
def getBalances (clientId : Uuid) : App (List BalanceResponse) := do
  let rows : List BalanceRow ← App.query (.selectBalances clientId)
  return rows.map toBalanceResponse

/-- Credit a deposit and answer with all balances. The amount is refused before anything is
written; lock, balance and ledger entry are one transaction, and the balances in the answer are
read after it, so they may show what committed in between. -/
def createDeposit (clientId : Uuid) (dto : CreateDepositDto) : App (List BalanceResponse) := do
  let amountMinor ← match toMinorUnits (.text dto.amount) with
    | .ok n => pure n
    | .error _ =>
      Prog.fail (.badRequestException "amount must not have more than 8 decimal places")
  if amountMinor ≤ 0 then Prog.fail (.badRequestException "amount must be greater than zero")
  else
    let depositId ← App.uuidv4
    Prog.transaction do
      let lock ← LedgerService.lockBalanceRows clientId [dto.currency]
      LedgerService.credit lock
        { clientId, currency := dto.currency, amountMinor, reason := .DEPOSIT
          refType := "DEPOSIT", refId := depositId }
    getBalances clientId

end BalancesService

end MiniOpenFX
