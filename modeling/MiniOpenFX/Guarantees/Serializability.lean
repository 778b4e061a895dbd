import MiniOpenFX.Proof.Commits
import MiniOpenFX.Guarantees.Tables

/-!
# Serializability

Whatever runs at once, the committed tables are those of the committed transactions run one after
the other, in the order of their commits (`serializable`). Each of them sees there what it saw: the
same rows, the same fresh ids and the same readings of the clock.
-/

namespace MiniOpenFX

open Js Transactional

/-! ## Two transactions at once

A deposit of Alice comes between the statements of her trade and commits first. -/

namespace Sample

open scoped Reference

/-- Alice has her balance and her quote, and no call is in progress. -/
def quoted : Sys := State.init (after (deposits ++ quotes)).data surroundings

/-- The trade (thread 0) has read the clock when the deposit (thread 1) takes the balance it needs,
and goes on after the deposit's commit. -/
def interleaved : List (Label backend Call) :=
  [executes quoteId.text "key", .spawn (.createDeposit alice ⟨"USDT", "1000"⟩)] ++
    acts 0 4 tradeId ++ acts 1 4 depositId ++ acts 0 1 tradeId ++ acts 1 3 depositId ++
    acts 0 12 tradeId

/-- The state afterwards. -/
def interleavedState : Sys := (quoted.exec program interleaved).getD quoted

/-- The run in which Alice's deposit comes between the acts of her trade. -/
theorem exec_interleaved : quoted.exec program interleaved = some interleavedState := by
  have h : (quoted.exec program interleaved).isSome := by decide +kernel
  obtain ⟨s, hs⟩ := Option.isSome_iff_exists.mp h
  rw [interleavedState, hs]
  rfl

theorem interleaved_createQuote (clientId : Uuid) (dto : CreateQuoteDto) :
    .spawn (.createQuote clientId dto) ∉ interleaved := by
  simp [interleaved, executes, acts]

end Sample

section
variable [DecimalJs]

/-- Transactions of calls, with what they see, run alone one after the other: each from the tables
that the one before it has left. -/
inductive Serially (db : Database) : List (Call × History) → Database → Prop where
  | nil : Serially db [] db
  | snoc {cs c ℓ db₁ db₂} (earlier : Serially db cs db₁) (alone : CommitsAlone c ℓ db₁ db₂) :
      Serially db (cs ++ [(c, ℓ)]) db₂

/-- **Money movement is serializable.** From any tables, whatever calls run at once, in any order
and with any failures: the committed tables are those of the committed transactions run alone, one
after the other, in the order of their commits, and each succeeds there. New quotes are left out:
they are made outside transactions. -/
theorem serializable {db : Database} {e : Surroundings} {ls : List (Label backend Call)} {s : Sys}
    (h : (State.init db e).exec program ls = some s)
    (hcalls : ∀ clientId dto, .spawn (.createQuote clientId dto) ∉ ls) :
    Serially db ((State.init db e).commits program ls) s.data := by
  refine State.exec_commits (C := fun c => ∀ clientId dto, c ≠ .createQuote clientId dto)
    (Serially db) verified_of (.init trivial trivial) h (fun _ ht => by cases ht)
    (fun c hc clientId dto heq => hcalls clientId dto (heq ▸ hc)) ?_ ?_
    (show Serially db [] _ from .nil)
  · intro _ c p ℓ st χ r ws cs hc hs hx hserial
    have hx : exec (backend.stamp p.env) p.data st = .ok (r, ws) := hx
    obtain rfl := hs.1.reads (fun v hv => by
      subst hv
      obtain ⟨dto, hcall⟩ := hs.2.insertQuote
      exact hc _ _ hcall) hx
    exact hserial
  · intro _ c p ℓ st ws L cs _ hcommit hserial
    exact hserial.snoc hcommit.2

end

section
open scoped Reference

/-- The deposit commits before the trade: the tables are those of the deposit and then the trade. -/
theorem serializable_interleaved :
    Serially Sample.quoted.data (Sample.quoted.commits program Sample.interleaved)
      Sample.interleavedState.data :=
  serializable Sample.exec_interleaved Sample.interleaved_createQuote

example : (Sample.quoted.commits program Sample.interleaved).map Prod.fst =
    [.createDeposit Sample.alice ⟨"USDT", "1000"⟩,
      .executeTrade Sample.alice ⟨Sample.quoteId.text⟩ "key"] := by
  decide +kernel

end

end MiniOpenFX
