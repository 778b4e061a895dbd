import MiniOpenFX.Runtime

/-!
# The ledger service

Money moves only here: `debit` and `credit` change a balance and write the ledger entry that
explains the change. Both take the `BalanceLock` that `lockBalanceRows` returns, so the rows are
locked before they are touched.

Source: `apps/api/src/ledger/ledger.service.ts`.
-/

namespace MiniOpenFX

open Js Transactional

/-- A movement of money: whose, in which currency, how much, why, and the trade or deposit it
belongs to. The amount is positive in both directions. -/
structure LedgerMovementParams where
  clientId : Uuid
  currency : String
  amountMinor : Int
  reason : LedgerReason
  refType : String
  refId : Uuid

/-- Proof that the rows of these currencies are locked for the client. -/
structure BalanceLock where
  clientId : Uuid
  currencies : List String

namespace LedgerService

/-- `[...new Set(currencies)]`: each once, in the order of first occurrence. -/
def uniqueCurrencies (currencies : List String) : List String := currencies.eraseDups

/-- Make sure the rows exist, in the order given, then lock them, in the order of the
currencies. -/
def lockBalanceRows (clientId : Uuid) (currencies : List String) : App BalanceLock := do
  (uniqueCurrencies currencies).forM fun currency =>
    App.query (.insertBalanceIfAbsent clientId currency 0)
  ((uniqueCurrencies currencies).insertionSort (· ≤ ·)).forM fun currency => do
    let _ ← App.query (.lockBalance clientId currency)
  return ⟨clientId, uniqueCurrencies currencies⟩

/-- Refuse a movement whose row the lock does not cover. It is checked when the code runs, so a
caller that forgets a currency fails on every call and not in a race only. -/
def assertCovers (lock : BalanceLock) (clientId : Uuid) (currency : String) :
    Except JsError Unit :=
  if lock.clientId ≠ clientId ∨ currency ∉ lock.currencies then
    .error (.error (s!"LedgerService: \"{currency}\" for client \"{clientId.text}\" was not " ++
      "covered by the provided lock"))
  else .ok ()

/-- Take an amount from a balance, unless it is not there: the comparison is part of the `UPDATE`,
so no balance is read first and none becomes negative. -/
def debit (lock : BalanceLock) (params : LedgerMovementParams) : App Unit := do
  App.ofExcept (assertCovers lock params.clientId params.currency)
  let updated : Option BalanceRow ← App.query
    (.debitBalance params.clientId params.currency params.amountMinor)
  match updated with
  | none => Prog.fail (.unprocessableEntityException
      s!"Insufficient {params.currency} balance for client")
  | some _ => App.query (.insertLedgerEntry ⟨params.clientId, params.currency,
      -params.amountMinor, params.reason, params.refType, params.refId⟩)

/-- Add an amount to a balance, and write the entry for it. -/
def credit (lock : BalanceLock) (params : LedgerMovementParams) : App Unit := do
  App.ofExcept (assertCovers lock params.clientId params.currency)
  App.query (.creditBalance params.clientId params.currency params.amountMinor)
  App.query (.insertLedgerEntry ⟨params.clientId, params.currency, params.amountMinor,
    params.reason, params.refType, params.refId⟩)

end LedgerService

end MiniOpenFX
