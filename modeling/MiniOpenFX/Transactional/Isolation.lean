import MiniOpenFX.Transactional.Machine

/-!
# Locks held to the end isolate transactions

What a store has to satisfy for its locks to isolate transactions (`Isolation`): data that agree
on everything a transaction has locked give its statements the same answers and writes, and a
write of somebody else, which touches none of those locks, keeps that agreement. Under these laws
an open transaction looks, at any moment, as if it had run alone from its start on the data
committed *now*, whatever was committed since (`Transactional.Soundness`).

Some answers are not protected by a lock (a row that was not found has nothing to lock). Those
are the ones outside `Isolation.Durable`: a program may see one, but then it has to roll back, as
it has to after an error.
-/

namespace Transactional

variable {S : Sig} {ε : Type}

/-- What a store must satisfy for locks to isolate transactions. -/
structure Isolation (B : Backend S ε) where
  /-- the two data agree on everything the locks protect -/
  Agree : List B.Resource → B.Data → B.Data → Prop
  /-- the answers that cannot change while the locks are held -/
  Durable : (s : S.Stmt) → S.StmtRes s → Prop
  agree_refl : ∀ L d, Agree L d d
  agree_trans : ∀ {L d d' d''}, Agree L d d' → Agree L d' d'' → Agree L d d''
  agree_foreign : ∀ {L w} d, (∀ r ∈ B.touches w, r ∉ L) → Agree L d (B.apply w d)
  agree_apply : ∀ {L d d'} w, Agree L d d' → Agree L (B.apply w d) (B.apply w d')
  exec_agree : ∀ {L d d' s χ st r ws}, Agree L d d' → (∀ x ∈ B.needs s d, x ∈ L) →
    B.exec s χ st d = .ok (r, ws) → Durable s r →
    B.exec s χ st d' = .ok (r, ws) ∧ B.needs s d' = B.needs s d
  touches_needs : ∀ {s χ st d r ws}, B.exec s χ st d = .ok (r, ws) →
    ∀ w ∈ ws, ∀ x ∈ B.touches w, x ∈ B.needs s d

variable {B : Backend S ε}

namespace Isolation

variable (I : Isolation B)

/-- Writes that touch none of the locks keep the data in agreement. -/
theorem agree_applyAll_foreign {L : List B.Resource} {ws : List B.Write} (d : B.Data)
    (h : ∀ w ∈ ws, ∀ r ∈ B.touches w, r ∉ L) : I.Agree L d (B.applyAll ws d) := by
  induction ws generalizing d with
  | nil => exact I.agree_refl L d
  | cons w ws ih =>
    exact I.agree_trans (I.agree_foreign d (h w (.head _)))
      (ih (B.apply w d) fun v hv => h v (.tail _ hv))

/-- The same writes on both sides keep the data in agreement. -/
theorem agree_applyAll {L : List B.Resource} {d d' : B.Data} (ws : List B.Write)
    (h : I.Agree L d d') : I.Agree L (B.applyAll ws d) (B.applyAll ws d') := by
  induction ws generalizing d d' with
  | nil => exact h
  | cons w ws ih => exact ih (I.agree_apply w h)

end Isolation

end Transactional
