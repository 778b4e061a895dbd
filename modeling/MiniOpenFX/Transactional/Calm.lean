import MiniOpenFX.Transactional.Serial

/-!
# Transactions that nothing disturbs

A transaction run alone, in which no act fails, depends on little but the data it begins with:
`Prog.Settles` walks through its body on the data seen, with the body's own writes, whatever the
surroundings answer. `Settles.run` is its soundness for `Prog.run`: a body that settles with a value
commits what it sees at its end, and one that settles with an error leaves the data alone
(`transaction_attempt`, `run_ending`).
-/

namespace Transactional

variable {S : Sig} {ε : Type} {B : Backend S ε}

/-- The surroundings after the moves of the first turns. -/
def Turn.after : (Nat → Turn B) → Nat → B.Env → B.Env
  | _, 0, e => e
  | τ, n + 1, e => Turn.after (fun i => τ (i + 1)) n ((τ 0).env e)

namespace Prog

variable {α β γ : Type}

/-! ## How a transaction ends -/

/-- Roll back and go on with the error. -/
def undo (H : Except ε α → Prog S ε β) (e : ε) : Prog S ε β :=
  .rollback fun
    | .ok () => H (.error e)
    | .error e' => H (.error e')

/-- How a transaction goes on from the end of its body: it commits after a value, and rolls back
after an error or a commit that failed. -/
def ending (H : Except ε α → Prog S ε β) : Except ε α → Prog S ε β
  | .ok a => .commit fun
    | .ok () => H (.ok a)
    | .error e => undo H e
  | .error e => undo H e

/-- A transaction and what follows it, from the point of view of the body. The body can then be run
without looking at what comes after. -/
theorem transaction_attempt (body : Prog S ε α) (H : Except ε α → Prog S ε β) :
    (transaction body).attempt.bind H = .begin fun
      | .error e => H (.error e)
      | .ok () => body.attempt.bind (ending H) := by
  refine congrArg Prog.begin (funext fun r => ?_)
  cases r with
  | error e => rfl
  | ok u =>
    induction body with
    | done r =>
      cases r with
      | error e =>
        refine congrArg Prog.rollback (funext fun r => ?_)
        cases r <;> rfl
      | ok a =>
        refine congrArg Prog.commit (funext fun r => ?_)
        cases r with
        | ok u => rfl
        | error e =>
          refine congrArg Prog.rollback (funext fun r => ?_)
          cases r <;> rfl
    | begin k ih | commit k ih | rollback k ih | sql s k ih | ext x k ih =>
      exact congrArg _ (funext fun r => ih r)

/-! ## Runs without failures -/

/-- Run a program alone, without failures. -/
abbrev runCalm (p : Prog S ε α) (τ : Nat → Turn B) (w : World B) : Except ε α × World B :=
  p.run (fun _ => false) τ w

section
variable (τ : Nat → Turn B) (d : B.Data) (e : B.Env) (ws : List B.Write) (L : List B.Resource)
  (st : B.Stamp)

/-- Where nothing fails, a transaction is opened at once: it starts without writes and locks, with
the stamp of the moment. -/
theorem runCalm_begin (k : Except ε Unit → Prog S ε α) :
    (Prog.begin k).runCalm τ ⟨d, e, none⟩ = (k (.ok ())).runCalm (fun n => τ (n + 1))
      ⟨d, (τ 0).env e, some ⟨[], [], B.stamp ((τ 0).env e)⟩⟩ := by
  simp [runCalm, Prog.run]

/-- A statement inside a transaction. -/
theorem runCalm_query {s : S.Stmt} (g : S.StmtRes s → Prog S ε α) (K : Except ε α → Prog S ε β) :
    (((query s).bind g).attempt.bind K).runCalm τ ⟨d, e, some ⟨ws, L, st⟩⟩ =
      match B.exec s (τ 0).choice st (B.applyAll ws d) with
      | .ok (r, w) => ((g r).attempt.bind K).runCalm (fun n => τ (n + 1))
        ⟨d, (τ 0).env e, some ⟨ws ++ w, L ++ B.needs s (B.applyAll ws d), st⟩⟩
      | .error x => (K (.error x)).runCalm (fun n => τ (n + 1))
        ⟨d, (τ 0).env e, some ⟨ws, L, st⟩⟩ := by
  simp only [runCalm, query, bind_sql, attempt, Prog.run, Bool.and_false, Bool.false_eq_true,
    if_false, World.stamp, World.view, World.record]
  cases B.exec s (τ 0).choice st (B.applyAll ws d) <;> rfl

/-- A request inside a transaction. -/
theorem runCalm_request {x : S.Ext} (g : S.ExtRes x → Prog S ε α) (K : Except ε α → Prog S ε β)
    (tx : Option (Tx B)) : (((request x).bind g).attempt.bind K).runCalm τ ⟨d, e, tx⟩ =
      (((done (B.answer x (τ 0).choice ((τ 0).env e)).1).bind g).attempt.bind K).runCalm
        (fun n => τ (n + 1)) ⟨d, (B.answer x (τ 0).choice ((τ 0).env e)).2, tx⟩ := by
  simp [runCalm, request, attempt, Prog.run]

end

/-! ## Settling -/

section
variable (A : B.Choice → Prop) (st : B.Stamp)

/-- Inside a transaction that begins under `st`, and where the choices made satisfy `A`, the program
ends with `Q` of its result and of the data it sees then. -/
def Settles (Q : Except ε α → B.Data → Prop) : B.Data → Prog S ε α → Prop
  | d, .done r => Q r d
  | d, .sql s k => ∀ χ, A χ → match B.exec s χ st d with
    | .ok (r, ws) => (k (.ok r)).Settles Q (B.applyAll ws d)
    | .error e => (k (.error e)).Settles Q d
  | d, .ext x k => ∀ χ e, A χ → (k (B.answer x χ e).1).Settles Q d
  | _, .begin _ | _, .commit _ | _, .rollback _ => False

end

section
variable {A : B.Choice → Prop} {st : B.Stamp} {Q Q' : Except ε α → B.Data → Prop} {d : B.Data}
  {p : Prog S ε α}

/-- A program that settles with a postcondition settles with a weaker one. -/
theorem Settles.mono (h : p.Settles A st Q d) (hQ : ∀ r d, Q r d → Q' r d) :
    p.Settles A st Q' d := by
  induction p generalizing d with
  | done r => exact hQ r d h
  | begin k ih | commit k ih | rollback k ih => exact h.elim
  | sql s k ih =>
    intro χ hχ
    have h := h χ hχ
    split
    · next hx =>
      rw [hx] at h
      exact ih _ h
    · next hx =>
      rw [hx] at h
      exact ih _ h
  | ext x k ih => exact fun χ e hχ => ih _ (h χ e hχ)

/-- Two programs in sequence settle if the first does, the second settles after each value of it,
and an error of the first meets the postcondition. -/
theorem settles_bind {Q : Except ε β → B.Data → Prop} {f : α → Prog S ε β}
    (h : p.Settles A st (fun r d => match r with
      | .ok a => (f a).Settles A st Q d
      | .error e => Q (.error e) d) d) : (p.bind f).Settles A st Q d := by
  induction p generalizing d with
  | done r => cases r <;> exact h
  | begin k ih | commit k ih | rollback k ih => exact h.elim
  | sql s k ih =>
    intro χ hχ
    have h := h χ hχ
    split
    · next hx =>
      rw [hx] at h
      exact ih _ h
    · next hx =>
      rw [hx] at h
      exact ih _ h
  | ext x k ih => exact fun χ e hχ => ih _ (h χ e hχ)

/-- A statement that succeeds, and what follows it. -/
theorem settles_query {s : S.Stmt} {r : S.StmtRes s} {ws : List B.Write}
    {g : S.StmtRes s → Prog S ε α}
    (hx : ∀ χ, B.exec s χ st d = .ok (r, ws)) (h : (g r).Settles A st Q (B.applyAll ws d)) :
    ((query s).bind g).Settles A st Q d := by
  intro χ _
  rw [hx χ]
  exact h

/-- A statement that fails. -/
theorem settles_query_error {s : S.Stmt} {e : ε} {g : S.StmtRes s → Prog S ε α}
    (hx : ∀ χ, B.exec s χ st d = .error e) (h : Q (.error e) d) :
    ((query s).bind g).Settles A st Q d := by
  intro χ _
  rw [hx χ]
  exact h

/-- A body that settles, run alone: it comes to its end with the data and the result that it
settles with, whatever is drawn on the way. -/
theorem Settles.run {v : B.Data} (h : p.Settles A st Q v) (K : Except ε α → Prog S ε β)
    {τ : Nat → Turn B} (hτ : ∀ n, A (τ n).choice) {e : B.Env} {ws : List B.Write}
    {L : List B.Resource} (hv : B.applyAll ws d = v) :
    ∃ τ' e' ws' L' r, (p.attempt.bind K).runCalm τ ⟨d, e, some ⟨ws, L, st⟩⟩ =
      (K r).runCalm τ' ⟨d, e', some ⟨ws', L', st⟩⟩ ∧ Q r (B.applyAll ws' d) := by
  induction p generalizing τ e ws L v with
  | done r => exact ⟨τ, e, ws, L, r, rfl, hv ▸ h⟩
  | begin k ih | commit k ih | rollback k ih => exact h.elim
  | sql s k ih =>
    have h := h (τ 0).choice (hτ 0)
    rw [← hv] at h
    simp only [runCalm, attempt, bind_sql, Prog.run, Bool.and_false, Bool.false_eq_true, if_false,
      World.stamp, World.view, World.record]
    cases hx : B.exec s (τ 0).choice st (B.applyAll ws d) with
    | ok rw =>
      rw [hx] at h
      exact ih _ h (fun n => hτ (n + 1)) (Backend.applyAll_append ws rw.2 d)
    | error x =>
      rw [hx] at h
      exact ih _ h (fun n => hτ (n + 1)) rfl
  | ext x k ih =>
    simp only [runCalm, attempt, bind_ext, Prog.run, Bool.and_false, Bool.false_eq_true, if_false]
    exact ih _ (h (τ 0).choice _ (hτ 0)) (fun n => hτ (n + 1)) hv

/-- A transaction with a body that settles, from somewhere in the body to its end: the writes are
committed after a value and gone after an error. -/
theorem Settles.run_ending {v : B.Data} (h : p.Settles A st Q v) (H : Except ε α → Prog S ε β)
    {τ : Nat → Turn B} (hτ : ∀ n, A (τ n).choice) {e : B.Env} {ws : List B.Write}
    {L : List B.Resource} (hv : B.applyAll ws d = v) :
    ∃ τ' e' r d', Q r d' ∧ (p.attempt.bind (ending H)).runCalm τ ⟨d, e, some ⟨ws, L, st⟩⟩ =
      (H r).runCalm τ' ⟨if r.toBool then d' else d, e', none⟩ := by
  obtain ⟨τ', e', ws', L', r, hrun, hQ⟩ := h.run (ending H) hτ (e := e) (L := L) hv
  refine ⟨fun n => τ' (n + 1), (τ' 0).env e', r, _, hQ, hrun.trans ?_⟩
  cases r with
  | ok a => simp [runCalm, ending, Prog.run, World.committed, World.view, Except.toBool]
  | error x => simp [runCalm, ending, undo, Prog.run, Except.toBool]

end

end Prog

end Transactional
