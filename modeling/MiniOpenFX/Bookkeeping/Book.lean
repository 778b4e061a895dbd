import Mathlib.Logic.Function.Basic
import Mathlib.Algebra.BigOperators.Group.List.Basic
import Mathlib.Algebra.Ring.Int.Defs

/-!
# Books

A book keeps, for accounts of any type, a balance for each opened account and the list of all
postings. It is consistent when every balance is the sum of its account's postings, no posting is
on an unopened account, and no balance is negative (`Book.Consistent`). Opening an account and
posting to one, as long as the balance does not go below zero, keep a book consistent.
-/

namespace Bookkeeping

variable {K : Type} [DecidableEq K]

/-- Balances of the opened accounts, and all postings: two records of the same money, which may or
may not agree. -/
structure Book (K : Type) where
  balance : K → Option Int
  entries : List (K × Int)

namespace Book

/-- The sum of an account's postings. -/
def total (b : Book K) (k : K) : Int := ((b.entries.filter fun e => e.1 = k).map Prod.snd).sum

/-- Open an account with nothing on it, unless it is open. -/
def openAccount (b : Book K) (k : K) : Book K :=
  { b with balance := Function.update b.balance k (some ((b.balance k).getD 0)) }

/-- Post an amount to an account, which is opened if need be. -/
def post (b : Book K) (k : K) (n : Int) : Book K where
  balance := Function.update b.balance k (some ((b.balance k).getD 0 + n))
  entries := b.entries ++ [(k, n)]

/-- Balances are the sums of the postings, and never negative; an account with a posting is open.
-/
structure Consistent (b : Book K) : Prop where
  settled : ∀ k n, b.balance k = some n → n = b.total k
  opened : ∀ e ∈ b.entries, (b.balance e.1).isSome
  covered : ∀ k n, b.balance k = some n → 0 ≤ n

variable {b : Book K}

/-- Nothing is posted on an account that is not open. -/
theorem Consistent.total_of_none (h : b.Consistent) {k : K} (hk : b.balance k = none) :
    b.total k = 0 := by
  have : b.entries.filter (fun e => e.1 = k) = [] := by
    refine List.filter_eq_nil_iff.mpr fun e he => ?_
    simp only [decide_eq_true_eq]
    rintro rfl
    have := h.opened e he
    rw [hk] at this
    cases this
  rw [total, this]
  rfl

/-- An open account has its total on it, one that is not open has nothing. -/
theorem Consistent.getD (h : b.Consistent) (k : K) : (b.balance k).getD 0 = b.total k := by
  cases hk : b.balance k with
  | none => exact (h.total_of_none hk).symm
  | some n => exact h.settled k n hk

/-- Posting an entry adds it to the total of its key, and to no other. -/
theorem total_post (b : Book K) (k j : K) (n : Int) :
    (b.post k n).total j = if k = j then b.total j + n else b.total j := by
  by_cases hkj : k = j <;> simp [total, post, List.filter_append, hkj]

/-- Opening an account gives it a balance of zero, unless it has one, and leaves the others as they
are. -/
theorem balance_openAccount (b : Book K) (k j : K) : (b.openAccount k).balance j =
    if j = k then some ((b.balance k).getD 0) else b.balance j :=
  Function.update_apply ..

/-- Posting an entry moves the balance of its key by the entry, from zero if there was no account,
and no other balance. -/
theorem balance_post (b : Book K) (k j : K) (n : Int) : (b.post k n).balance j =
    if j = k then some ((b.balance k).getD 0 + n) else b.balance j :=
  Function.update_apply ..

/-- Opening an account keeps a book consistent. -/
theorem Consistent.openAccount (h : b.Consistent) (k : K) : (b.openAccount k).Consistent := by
  refine ⟨fun j n hj => ?_, fun e he => ?_, fun j n hj => ?_⟩
  · rw [balance_openAccount] at hj
    split at hj
    · next hjk => exact (Option.some.inj hj).symm.trans (hjk ▸ h.getD k)
    · exact h.settled j n hj
  · rw [balance_openAccount]
    split
    · rfl
    · exact h.opened e he
  · rw [balance_openAccount] at hj
    split at hj
    · cases hb : b.balance k with
      | none => rw [hb] at hj; cases hj; exact Int.le_refl _
      | some m => rw [hb] at hj; cases hj; exact h.covered k m hb
    · exact h.covered j n hj

/-- A posting that the balance covers keeps a book consistent: balance and total grow by the same
amount. -/
theorem Consistent.post (h : b.Consistent) {k : K} {n : Int} (hn : 0 ≤ (b.balance k).getD 0 + n) :
    (b.post k n).Consistent := by
  refine ⟨fun j m hj => ?_, fun e he => ?_, fun j m hj => ?_⟩
  · rw [total_post]
    rw [balance_post] at hj
    split at hj
    · next hjk =>
      subst hjk
      rw [if_pos rfl, ← h.getD]
      exact (Option.some.inj hj).symm
    · next hjk =>
      rw [if_neg (Ne.symm hjk)]
      exact h.settled j m hj
  · rw [balance_post]
    split
    · rfl
    · next hek =>
      rcases List.mem_append.mp he with he | he
      · exact h.opened e he
      · exact absurd (congrArg Prod.fst (List.mem_singleton.mp he)) hek
  · rw [balance_post] at hj
    split at hj
    · exact Option.some.inj hj ▸ hn
    · exact h.covered j m hj

end Book

end Bookkeeping
