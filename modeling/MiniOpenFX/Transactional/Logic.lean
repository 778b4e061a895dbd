import MiniOpenFX.Transactional.Isolation

/-!
# A program logic for transactional programs

A program is verified once, on its own, against what everybody else may do. `Rely` is that
assumption: an invariant of the committed data and of the surroundings, and how far each can move
between two acts of the program. `Spec` lists the program's own obligations, at each statement, at
the commit and at each request.

`Prog.Wp` walks through a program: outside a transaction the data and the surroundings may have
moved, as the rely allows, before every act; inside one the program stands where running alone on
the data committed now would have brought it, with its own writes and the locks it has taken
(`Mode`). Every act it sees is added to its history, so an obligation can speak of what the program
has seen. `Prog.wp_bind` is the sequencing rule, `wp_transaction` the rule of a whole transaction,
and `Prog.Wp.upgrade` strengthens the rely in the middle of a program. `Transactional.Soundness`
turns verified programs into facts about every interleaving.
-/

namespace Transactional

variable {S : Sig} {ε : Type}

/-- The kinds of act that can fail without effect. -/
inductive Act (S : Sig) where
  | begin
  | commit
  | rollback
  | sql (s : S.Stmt)
  | ext (x : S.Ext)

/-- What a program has last seen of the world it shares with others: committed data and
surroundings. -/
structure Seen (B : Backend S ε) where
  data : B.Data
  env : B.Env

/-- What a program may rely on: invariants, how the committed data and the surroundings move
between its acts, and which acts may fail without effect. -/
structure Rely (B : Backend S ε) where
  inv : B.Data → Prop
  data : B.Data → B.Data → Prop
  envInv : B.Env → Prop
  env : B.Env → B.Env → Prop
  fails : Act S → Prop
  data_refl : ∀ d, data d d
  data_trans : ∀ {d₁ d₂ d₃}, data d₁ d₂ → data d₂ d₃ → data d₁ d₃
  data_inv : ∀ {d d'}, data d d' → inv d → inv d'
  env_refl : ∀ e, env e e
  env_trans : ∀ {e₁ e₂ e₃}, env e₁ e₂ → env e₂ e₃ → env e₁ e₃
  env_inv : ∀ {e e'}, env e e' → envInv e → envInv e'

variable {B : Backend S ε}

namespace Rely

/-- The surroundings can be `e'` when the program next looks: an invariant still holds, and others
have only done what the rely allows. -/
structure EnvLater (R : Rely B) (e e' : B.Env) : Prop where
  env : R.env e e'
  inv : R.envInv e'

/-- Data and surroundings can be `q` when the program next looks. It is what a proof may assume of
the acts of all others between two acts of its own. -/
structure Later (R : Rely B) (p q : Seen B) : Prop where
  data : R.data p.data q.data
  env : R.env p.env q.env
  inv : R.inv q.data
  envInv : R.envInv q.env

variable {R : Rely B}

/-- No time passes from data and surroundings that keep the invariants to themselves. -/
theorem Later.refl {p : Seen B} (h : R.inv p.data) (h' : R.envInv p.env) : R.Later p p :=
  ⟨R.data_refl _, R.env_refl _, h, h'⟩

/-- What may have happened meanwhile may have happened in two parts. -/
theorem Later.trans {p q r : Seen B} (h : R.Later p q) (h' : R.Later q r) : R.Later p r :=
  ⟨R.data_trans h.data h'.data, R.env_trans h.env h'.env, h'.inv, h'.envInv⟩

/-- The surroundings, too, may have changed in two parts. -/
theorem EnvLater.trans {e₁ e₂ e₃ : B.Env} (h : R.EnvLater e₁ e₂) (h' : R.EnvLater e₂ e₃) :
    R.EnvLater e₁ e₃ :=
  ⟨R.env_trans h.env h'.env, h'.inv⟩

end Rely

variable (B) in
/-- The obligations of a program: at a statement inside a transaction, given what was seen, the
history, the writes and the locks so far; at the commit; at a statement outside a transaction; at
a request to the surroundings. -/
structure Spec where
  inside : B.Data → List (Event S ε) → B.Stamp → List B.Write → List B.Resource → S.Stmt → Prop
  commit : Seen B → List (Event S ε) → B.Stamp → List B.Write → List B.Resource → Prop
  outside : Seen B → List (Event S ε) → S.Stmt → Prop
  request : Seen B → List (Event S ε) → S.Ext → Prop

variable (B) in
/-- Where a program stands: outside a transaction, inside one that has run so far on the committed
data, or inside one that can only roll back. -/
inductive Mode where
  | outside (p : Seen B)
  | inside (p : Seen B) (st : B.Stamp) (ws : List B.Write) (L : List B.Resource)
  | doomed (p : Seen B)

/-- The errors a statement can answer with: its own and, where acts may fail, that of a lost
connection. -/
def Rely.Errs (R : Rely B) (s : S.Stmt) (st : B.Stamp) (d : B.Data) (e : ε) : Prop :=
  (∃ χ, B.exec s χ st d = .error e) ∨ R.fails (.sql s) ∧ e = B.broken

/-- The answers of a rollback. -/
def Rely.RollbackAnswer (R : Rely B) (r : Except ε Unit) : Prop :=
  r = .ok () ∨ R.fails .rollback ∧ r = .error B.broken

/-- What a failed transaction throws: the error that made it roll back, or the rollback's own. -/
def rollbackError (e : ε) : Except ε Unit → ε
  | .ok () => e
  | .error e' => e'

/-- A transaction that fails by a lost connection throws that error, however its rollback is
answered. -/
theorem Rely.RollbackAnswer.broken {R : Rely B} {r : Except ε Unit} (h : R.RollbackAnswer r) :
    rollbackError B.broken r = B.broken := by
  rcases h with rfl | ⟨-, rfl⟩ <;> rfl

namespace Prog

variable {α β : Type}

/-- The program meets the obligations of `V` at every act it can come to, it ends its transactions
properly, and wherever it ends, `Q` holds of the mode, the history and the answer. -/
def Wp (I : Isolation B) (R : Rely B) (V : Spec B)
    (Q : Mode B → List (Event S ε) → Except ε α → Prop) :
    Mode B → List (Event S ε) → Prog S ε α → Prop
  | m, ℓ, .done r => Q m ℓ r
  | .outside p, ℓ, .begin k =>
    (∀ q, R.Later p q → (k (.ok ())).Wp I R V Q (.inside q (B.stamp q.env) [] [])
      (ℓ ++ [.begin (.ok ())])) ∧
    (R.fails .begin → ∀ q, R.Later p q →
      (k (.error B.broken)).Wp I R V Q (.outside q) (ℓ ++ [.begin (.error B.broken)]))
  | .outside p, ℓ, .sql s k => ∀ q, R.Later p q →
    V.outside q ℓ s ∧
    (∀ χ r ws, B.exec s χ (B.stamp q.env) q.data = .ok (r, ws) →
      (k (.ok r)).Wp I R V Q (.outside ⟨B.applyAll ws q.data, q.env⟩)
        (ℓ ++ [.sql s (.ok r)])) ∧
    (∀ e, R.Errs s (B.stamp q.env) q.data e →
      (k (.error e)).Wp I R V Q (.outside q) (ℓ ++ [.sql s (.error e)]))
  | .outside p, ℓ, .ext x k => ∀ q, R.Later p q →
    V.request q ℓ x ∧
    (∀ χ, (k (B.answer x χ q.env).1).Wp I R V Q (.outside ⟨q.data, (B.answer x χ q.env).2⟩)
      (ℓ ++ [.ext x (B.answer x χ q.env).1])) ∧
    (R.fails (.ext x) →
      (k (.error B.broken)).Wp I R V Q (.outside q) (ℓ ++ [.ext x (.error B.broken)]))
  | .inside p st ws L, ℓ, .commit k => ∀ e, R.EnvLater p.env e →
    V.commit ⟨p.data, e⟩ ℓ st ws L ∧
    (k (.ok ())).Wp I R V Q (.outside ⟨B.applyAll ws p.data, e⟩) (ℓ ++ [.commit (.ok ())]) ∧
    (R.fails .commit →
      (k (.error B.broken)).Wp I R V Q (.doomed ⟨p.data, e⟩) (ℓ ++ [.commit (.error B.broken)]))
  | .inside p st ws L, ℓ, .sql s k =>
    V.inside p.data ℓ st ws L s ∧
    (∀ χ r w, B.exec s χ st (B.applyAll ws p.data) = .ok (r, w) →
      (I.Durable s r → (k (.ok r)).Wp I R V Q
        (.inside p st (ws ++ w) (L ++ B.needs s (B.applyAll ws p.data)))
        (ℓ ++ [.sql s (.ok r)])) ∧
      (¬ I.Durable s r → (k (.ok r)).Wp I R V Q (.doomed p) (ℓ ++ [.sql s (.ok r)]))) ∧
    (∀ e, R.Errs s st (B.applyAll ws p.data) e →
      (k (.error e)).Wp I R V Q (.doomed p) (ℓ ++ [.sql s (.error e)]))
  | .inside p st ws L, ℓ, .ext x k => ∀ e, R.EnvLater p.env e →
    V.request ⟨p.data, e⟩ ℓ x ∧
    (∀ χ, (k (B.answer x χ e).1).Wp I R V Q (.inside ⟨p.data, (B.answer x χ e).2⟩ st ws L)
      (ℓ ++ [.ext x (B.answer x χ e).1])) ∧
    (R.fails (.ext x) → (k (.error B.broken)).Wp I R V Q (.inside ⟨p.data, e⟩ st ws L)
      (ℓ ++ [.ext x (.error B.broken)]))
  | .inside p _ _ _, ℓ, .rollback k | .doomed p, ℓ, .rollback k => ∀ e, R.EnvLater p.env e →
    ∀ r, R.RollbackAnswer r → (k r).Wp I R V Q (.outside ⟨p.data, e⟩) (ℓ ++ [.rollback r])
  | .outside _, _, .commit _ | .outside _, _, .rollback _ => False
  | .inside _ _ _ _, _, .begin _ => False
  | .doomed _, _, .begin _ | .doomed _, _, .commit _ | .doomed _, _, .sql _ _
  | .doomed _, _, .ext _ _ => False

variable {I : Isolation B} {R : Rely B} {V : Spec B}

/-! ## Rules -/

/-- A program that has ended meets its postcondition if its result does. -/
@[simp] theorem wp_done {Q : Mode B → List (Event S ε) → Except ε α → Prop} {m : Mode B}
    {ℓ : List (Event S ε)} {r : Except ε α} : (done r).Wp I R V Q m ℓ ↔ Q m ℓ r := by
  cases m <;> rfl

/-- Consequence: a weaker postcondition is met as well. -/
theorem Wp.mono {Q Q' : Mode B → List (Event S ε) → Except ε α → Prop} {m : Mode B}
    {ℓ : List (Event S ε)} {p : Prog S ε α} (h : p.Wp I R V Q m ℓ)
    (hQ : ∀ m ℓ r, Q m ℓ r → Q' m ℓ r) : p.Wp I R V Q' m ℓ := by
  induction p generalizing m ℓ with
  | done r => exact wp_done.mpr (hQ _ _ _ (wp_done.mp h))
  | begin k ih =>
    cases m with
    | outside p => exact ⟨fun q hq => ih _ (h.1 q hq), fun hf q hq => ih _ (h.2 hf q hq)⟩
    | inside | doomed => exact h.elim
  | commit k ih =>
    cases m with
    | inside p st ws L =>
      intro e he
      obtain ⟨h₁, h₂, h₃⟩ := h e he
      exact ⟨h₁, ih _ h₂, fun hf => ih _ (h₃ hf)⟩
    | outside | doomed => exact h.elim
  | rollback k ih =>
    cases m with
    | inside | doomed => exact fun e he r hr => ih _ (h e he r hr)
    | outside => exact h.elim
  | sql s k ih =>
    cases m with
    | outside p =>
      intro q hq
      obtain ⟨h₁, h₂, h₃⟩ := h q hq
      exact ⟨h₁, fun χ r ws hx => ih _ (h₂ χ r ws hx), fun e he => ih _ (h₃ e he)⟩
    | inside p st ws L =>
      obtain ⟨h₁, h₂, h₃⟩ := h
      exact ⟨h₁, fun χ r w hx => ⟨fun hr => ih _ ((h₂ χ r w hx).1 hr),
        fun hr => ih _ ((h₂ χ r w hx).2 hr)⟩, fun e he => ih _ (h₃ e he)⟩
    | doomed => exact h.elim
  | ext x k ih =>
    cases m with
    | outside p =>
      intro q hq
      obtain ⟨h₁, h₂, h₃⟩ := h q hq
      exact ⟨h₁, fun χ => ih _ (h₂ χ), fun hf => ih _ (h₃ hf)⟩
    | inside p st ws L =>
      intro e he
      obtain ⟨h₁, h₂, h₃⟩ := h e he
      exact ⟨h₁, fun χ => ih _ (h₂ χ), fun hf => ih _ (h₃ hf)⟩
    | doomed => exact h.elim

/-- A history only grows, so a postcondition may assume that it begins as the history did before.
-/
theorem Wp.grows {Q : Mode B → List (Event S ε) → Except ε α → Prop} {m : Mode B}
    {ℓ : List (Event S ε)} {p : Prog S ε α} (h : p.Wp I R V Q m ℓ) :
    p.Wp I R V (fun m ℓ' r => ℓ <+: ℓ' ∧ Q m ℓ' r) m ℓ := by
  suffices ∀ ℓ₀, ℓ₀ <+: ℓ → p.Wp I R V (fun m ℓ' r => ℓ₀ <+: ℓ' ∧ Q m ℓ' r) m ℓ from
    this ℓ (List.prefix_refl ℓ)
  intro ℓ₀ hℓ
  induction p generalizing m ℓ with
  | done r => exact wp_done.mpr ⟨hℓ, wp_done.mp h⟩
  | begin k ih | commit k ih | rollback k ih | sql s k ih | ext x k ih =>
    have ih : ∀ {r m ev}, (k r).Wp I R V Q m (ℓ ++ [ev]) →
        (k r).Wp I R V (fun m ℓ' r => ℓ₀ <+: ℓ' ∧ Q m ℓ' r) m (ℓ ++ [ev]) :=
      fun h => ih _ h (hℓ.trans (List.prefix_append ℓ _))
    cases m <;> simp only [Wp] at h ⊢ <;> grind

/-- What a program goes on with after an answer: the rest of the program after a value, the
postcondition after an error. -/
def Then (I : Isolation B) (R : Rely B) (V : Spec B)
    (Q : Mode B → List (Event S ε) → Except ε β → Prop) (f : α → Prog S ε β) (m : Mode B)
    (ℓ : List (Event S ε)) : Except ε α → Prop
  | .ok a => (f a).Wp I R V Q m ℓ
  | .error e => Q m ℓ (.error e)

/-- Sequencing: the first program is verified with the second one as its postcondition. -/
theorem wp_bind {Q : Mode B → List (Event S ε) → Except ε β → Prop} {f : α → Prog S ε β}
    {m : Mode B} {ℓ : List (Event S ε)} {p : Prog S ε α} :
    (p.bind f).Wp I R V Q m ℓ ↔ p.Wp I R V (Then I R V Q f) m ℓ := by
  induction p generalizing m ℓ with
  | done r =>
    cases r with
    | ok a => rw [bind_ok, wp_done]; rfl
    | error e => rw [bind_error, wp_done, wp_done]; rfl
  | begin k ih | commit k ih | rollback k ih | sql s k ih | ext x k ih =>
    cases m <;> simp only [Prog.bind, Wp, ih]

/-- An error handed over as a value. The postcondition sees both outcomes as successes. -/
theorem wp_attempt {Q : Mode B → List (Event S ε) → Except ε (Except ε α) → Prop}
    {m : Mode B} {ℓ : List (Event S ε)} {p : Prog S ε α} :
    p.attempt.Wp I R V Q m ℓ ↔ p.Wp I R V (fun m ℓ r => Q m ℓ (.ok r)) m ℓ := by
  induction p generalizing m ℓ with
  | done r => rw [attempt, wp_done, wp_done]
  | begin k ih | commit k ih | rollback k ih | sql s k ih | ext x k ih =>
    cases m <;> simp only [attempt, Wp, ih]

/-- One statement outside a transaction. It runs on whatever the data are by then and its writes
are committed at once; nothing of it is there if it fails. -/
theorem wp_query_outside {s : S.Stmt}
    {Q : Mode B → List (Event S ε) → Except ε (S.StmtRes s) → Prop}
    {p : Seen B} {ℓ : List (Event S ε)} (hV : ∀ q, R.Later p q → V.outside q ℓ s)
    (hok : ∀ q, R.Later p q → ∀ χ r ws, B.exec s χ (B.stamp q.env) q.data = .ok (r, ws) →
      Q (.outside ⟨B.applyAll ws q.data, q.env⟩) (ℓ ++ [.sql s (.ok r)]) (.ok r))
    (herr : ∀ q, R.Later p q → ∀ e, R.Errs s (B.stamp q.env) q.data e →
      Q (.outside q) (ℓ ++ [.sql s (.error e)]) (.error e)) :
    (query s).Wp I R V Q (.outside p) ℓ :=
  fun q hq => ⟨hV q hq, fun χ r ws hx => wp_done.mpr (hok q hq χ r ws hx),
    fun e he => wp_done.mpr (herr q hq e he)⟩

/-- One statement inside a transaction. It runs on the data the transaction began to see; after an
answer that its locks do not make durable, or an error, it can only roll back. -/
theorem wp_query_inside {s : S.Stmt} {Q : Mode B → List (Event S ε) → Except ε (S.StmtRes s) → Prop}
    {p : Seen B} {st : B.Stamp} {ws : List B.Write} {L : List B.Resource} {ℓ : List (Event S ε)}
    (hV : V.inside p.data ℓ st ws L s)
    (hok : ∀ χ r w, B.exec s χ st (B.applyAll ws p.data) = .ok (r, w) → I.Durable s r →
      Q (.inside p st (ws ++ w) (L ++ B.needs s (B.applyAll ws p.data))) (ℓ ++ [.sql s (.ok r)])
        (.ok r))
    (hloose : ∀ χ r w, B.exec s χ st (B.applyAll ws p.data) = .ok (r, w) → ¬ I.Durable s r →
      Q (.doomed p) (ℓ ++ [.sql s (.ok r)]) (.ok r))
    (herr : ∀ e, R.Errs s st (B.applyAll ws p.data) e →
      Q (.doomed p) (ℓ ++ [.sql s (.error e)]) (.error e)) :
    (query s).Wp I R V Q (.inside p st ws L) ℓ :=
  ⟨hV, fun χ r w hx => ⟨fun hr => wp_done.mpr (hok χ r w hx hr),
    fun hr => wp_done.mpr (hloose χ r w hx hr)⟩, fun e he => wp_done.mpr (herr e he)⟩

/-- One request outside a transaction: the surroundings answer as they are by then, and the data
may be later ones, too. -/
theorem wp_request_outside {x : S.Ext}
    {Q : Mode B → List (Event S ε) → Except ε (S.ExtRes x) → Prop}
    {p : Seen B} {ℓ : List (Event S ε)} (hV : ∀ q, R.Later p q → V.request q ℓ x)
    (hok : ∀ q, R.Later p q → ∀ χ, Q (.outside ⟨q.data, (B.answer x χ q.env).2⟩)
      (ℓ ++ [.ext x (B.answer x χ q.env).1]) (B.answer x χ q.env).1)
    (herr : R.fails (.ext x) → ∀ q, R.Later p q →
      Q (.outside q) (ℓ ++ [.ext x (.error B.broken)]) (.error B.broken)) :
    (request x).Wp I R V Q (.outside p) ℓ :=
  fun q hq => ⟨hV q hq, fun χ => wp_done.mpr (hok q hq χ), fun hf => wp_done.mpr (herr hf q hq)⟩

/-- One request inside a transaction. The surroundings move on while the data stay as the
transaction sees them. -/
theorem wp_request_inside {x : S.Ext} {Q : Mode B → List (Event S ε) → Except ε (S.ExtRes x) → Prop}
    {p : Seen B} {st : B.Stamp} {ws : List B.Write} {L : List B.Resource} {ℓ : List (Event S ε)}
    (hV : ∀ e, R.EnvLater p.env e → V.request ⟨p.data, e⟩ ℓ x)
    (hok : ∀ e, R.EnvLater p.env e → ∀ χ, Q (.inside ⟨p.data, (B.answer x χ e).2⟩ st ws L)
      (ℓ ++ [.ext x (B.answer x χ e).1]) (B.answer x χ e).1)
    (herr : R.fails (.ext x) → ∀ e, R.EnvLater p.env e →
      Q (.inside ⟨p.data, e⟩ st ws L) (ℓ ++ [.ext x (.error B.broken)]) (.error B.broken)) :
    (request x).Wp I R V Q (.inside p st ws L) ℓ :=
  fun e he => ⟨hV e he, fun χ => wp_done.mpr (hok e he χ), fun hf => wp_done.mpr (herr hf e he)⟩

/-- What a transaction needs where its body ends: after a value the commit's obligation and its
two outcomes, after an error the outcomes of the rollback. -/
def BodyEnd (R : Rely B) (V : Spec B) (Q : Mode B → List (Event S ε) → Except ε α → Prop) :
    Mode B → List (Event S ε) → Except ε α → Prop
  | .outside _, _, _ => False
  | .inside p st ws L, ℓ, .ok a => ∀ e, R.EnvLater p.env e →
    V.commit ⟨p.data, e⟩ ℓ st ws L ∧
    Q (.outside ⟨B.applyAll ws p.data, e⟩) (ℓ ++ [.commit (.ok ())]) (.ok a) ∧
    (R.fails .commit → ∀ e', R.EnvLater e e' → ∀ r, R.RollbackAnswer r →
      Q (.outside ⟨p.data, e'⟩) (ℓ ++ [.commit (.error B.broken)] ++ [.rollback r])
        (.error B.broken))
  | .doomed _, _, .ok _ => False
  | .inside p _ _ _, ℓ, .error x | .doomed p, ℓ, .error x => ∀ e, R.EnvLater p.env e →
    ∀ r, R.RollbackAnswer r → Q (.outside ⟨p.data, e⟩) (ℓ ++ [.rollback r])
      (.error (rollbackError x r))

/-- A whole transaction. The body is verified on any later data, its commit against the obligation
for commits, and each way of failing against the postcondition. -/
theorem wp_transaction {Q : Mode B → List (Event S ε) → Except ε α → Prop} {p : Seen B}
    {ℓ : List (Event S ε)} {body : Prog S ε α}
    (hbody : ∀ q, R.Later p q → body.Wp I R V (BodyEnd R V Q) (.inside q (B.stamp q.env) [] [])
      (ℓ ++ [.begin (.ok ())]))
    (hbegin : R.fails .begin → ∀ q, R.Later p q →
      Q (.outside q) (ℓ ++ [.begin (.error B.broken)]) (.error B.broken)) :
    (transaction body).Wp I R V Q (.outside p) ℓ := by
  refine ⟨fun q hq => ?_, fun hf q hq => wp_done.mpr (hbegin hf q hq)⟩
  rw [wp_bind, wp_attempt, wp_bind]
  refine (hbody q hq).mono fun m ℓ' r h => ?_
  have hroll : ∀ (q' : Seen B) x ℓ₁, (∀ e, R.EnvLater q'.env e → ∀ r, R.RollbackAnswer r →
      Q (.outside ⟨q'.data, e⟩) (ℓ₁ ++ [.rollback r]) (.error (rollbackError x r))) →
      ∀ e, R.EnvLater q'.env e → ∀ r, R.RollbackAnswer r →
      Prog.Wp I R V Q (.outside ⟨q'.data, e⟩) (ℓ₁ ++ [.rollback r])
        (match r with | .ok () => fail x | .error x' => fail x') := by
    intro q' x ℓ₁ h e he r hr
    cases r with
    | ok u => exact wp_done.mpr (h e he _ hr)
    | error x' => exact wp_done.mpr (h e he _ hr)
  cases r with
  | ok a =>
    cases m with
    | outside | doomed => exact h.elim
    | inside p st ws L =>
      intro e he
      obtain ⟨h₁, h₂, h₃⟩ := h e he
      refine ⟨h₁, wp_done.mpr h₂, fun hf => hroll ⟨p.data, e⟩ B.broken _ fun e' he' r hr => ?_⟩
      rw [hr.broken]
      exact h₃ hf e' he' r hr
  | error e =>
    cases m with
    | outside => exact h.elim
    | inside | doomed => exact hroll _ e ℓ' h

/-! ## Moving on and strengthening the rely -/

/-- The mode after others have moved on: outside a transaction the data and the surroundings,
inside one the surroundings. -/
inductive Mode.Later (R : Rely B) : Mode B → Mode B → Prop where
  | outside {p q} (h : R.Later p q) : Mode.Later R (.outside p) (.outside q)
  | inside {p e st ws L} (hd : R.inv p.data) (h : R.EnvLater p.env e) :
      Mode.Later R (.inside p st ws L) (.inside ⟨p.data, e⟩ st ws L)
  | doomed {p q} (h : R.Later p q) : Mode.Later R (.doomed p) (.doomed q)

/-- A verified program stays verified while others move on, if its answers do. This is what
interference costs: nothing, for postconditions that are stable. -/
theorem Wp.later {Q : Mode B → List (Event S ε) → Except ε α → Prop} {m m' : Mode B}
    {ℓ : List (Event S ε)} {p : Prog S ε α}
    (hQ : ∀ m m' ℓ r, Mode.Later R m m' → Q m ℓ r → Q m' ℓ r) (h : p.Wp I R V Q m ℓ)
    (hm : Mode.Later R m m') : p.Wp I R V Q m' ℓ := by
  induction p generalizing m m' ℓ with
  | done r => exact wp_done.mpr (hQ _ _ _ _ hm (wp_done.mp h))
  | begin k ih =>
    cases hm with
    | outside hp =>
      exact ⟨fun q hq => h.1 q (hp.trans hq), fun hf q hq => h.2 hf q (hp.trans hq)⟩
    | inside | doomed => exact h.elim
  | commit k ih =>
    cases hm with
    | inside _ he => exact fun e he' => h e (he.trans he')
    | outside | doomed => exact h.elim
  | rollback k ih =>
    cases hm with
    | @inside p e st ws L hd he =>
      exact fun e' he' r hr => h e' (he.trans he') r hr
    | @doomed p q hp =>
      exact fun e' he' r hr => ih _ (h e' ((Rely.EnvLater.mk hp.env hp.envInv).trans he') r hr)
        (.outside ⟨hp.data, R.env_refl _, hp.inv, he'.inv⟩)
    | outside => exact h.elim
  | sql s k ih =>
    cases hm with
    | outside hp => exact fun q hq => h q (hp.trans hq)
    | @inside p e st ws L hd he =>
      obtain ⟨h₁, h₂, h₃⟩ := h
      have hself : R.Later p ⟨p.data, e⟩ := ⟨R.data_refl _, he.env, hd, he.inv⟩
      exact ⟨h₁, fun χ r w hx => ⟨fun hr => ih _ ((h₂ χ r w hx).1 hr) (.inside hd he),
        fun hr => ih _ ((h₂ χ r w hx).2 hr) (.doomed hself)⟩,
        fun e he' => ih _ (h₃ e he') (.doomed hself)⟩
    | doomed => exact h.elim
  | ext x k ih =>
    cases hm with
    | outside hp => exact fun q hq => h q (hp.trans hq)
    | inside _ he => exact fun e he' => h e (he.trans he')
    | doomed => exact h.elim

/-- `R'` allows less than `R`, and under it a history that satisfies `H` keeps satisfying it and
turns the obligations of `V` into those of `V'`. -/
structure Upgrade (R R' : Rely B) (V V' : Spec B) (H : List (Event S ε) → Prop) : Prop where
  inv : ∀ {d}, R'.inv d → R.inv d
  data : ∀ {d d'}, R'.data d d' → R.data d d'
  envInv : ∀ {e}, R'.envInv e → R.envInv e
  env : ∀ {e e'}, R'.env e e' → R.env e e'
  fails : ∀ {a}, R'.fails a → R.fails a
  inside : ∀ {d ℓ st ws L s}, R'.inv d → H ℓ → V.inside d ℓ st ws L s →
    V'.inside d ℓ st ws L s
  commit : ∀ {p ℓ st ws L}, R'.inv p.data → H ℓ → V.commit p ℓ st ws L → V'.commit p ℓ st ws L
  outside : ∀ {p ℓ s}, R'.inv p.data → H ℓ → V.outside p ℓ s → V'.outside p ℓ s
  request : ∀ {p ℓ x}, R'.inv p.data → H ℓ → V.request p ℓ x → V'.request p ℓ x
  begin : ∀ {ℓ r}, H ℓ → H (ℓ ++ [.begin r])
  committed : ∀ {ℓ r}, H ℓ → H (ℓ ++ [.commit r])
  rollback : ∀ {ℓ r}, H ℓ → H (ℓ ++ [.rollback r])
  error : ∀ {ℓ s e}, H ℓ → H (ℓ ++ [.sql s (.error e)])
  answer : ∀ {ℓ x r}, H ℓ → H (ℓ ++ [.ext x r])
  sqlInside : ∀ {d ℓ st ws L s χ r w}, R'.inv d → H ℓ → V.inside d ℓ st ws L s →
    B.exec s χ st (B.applyAll ws d) = .ok (r, w) → H (ℓ ++ [.sql s (.ok r)])
  sqlOutside : ∀ {p ℓ st s χ r w}, R'.inv p.data → H ℓ → V.outside p ℓ s →
    B.exec s χ st p.data = .ok (r, w) → H (ℓ ++ [.sql s (.ok r)])

variable {R' : Rely B} {V' : Spec B} {H : List (Event S ε) → Prop}

/-- What happens to the data under the stronger rely happens under the weaker one, so that a proof
made for the weaker one is still of use. -/
theorem Upgrade.later (u : Upgrade R R' V V' H) {p q : Seen B} (h : R'.Later p q) :
    R.Later p q :=
  ⟨u.data h.data, u.env h.env, u.inv h.inv, u.envInv h.envInv⟩

/-- What happens to the surroundings under the stronger rely happens under the weaker one. -/
theorem Upgrade.envLater (u : Upgrade R R' V V' H) {e e' : B.Env} (h : R'.EnvLater e e') :
    R.EnvLater e e' :=
  ⟨u.env h.env, u.envInv h.inv⟩

/-- The errors of statements under the stronger rely are errors under the weaker one. -/
theorem Upgrade.errs (u : Upgrade R R' V V' H) {s : S.Stmt} {st : B.Stamp} {d : B.Data} {e : ε}
    (h : R'.Errs s st d e) : R.Errs s st d e :=
  h.imp_right fun ⟨hf, he⟩ => ⟨u.fails hf, he⟩

/-- The answers to a rollback under the stronger rely are answers under the weaker one. -/
theorem Upgrade.rollbackAnswer (u : Upgrade R R' V V' H) {r : Except ε Unit}
    (h : R'.RollbackAnswer r) : R.RollbackAnswer r :=
  h.imp_right fun ⟨hf, he⟩ => ⟨u.fails hf, he⟩

/-- The histories can be tracked for some programs only; of the others nothing is known and nothing
is needed. -/
theorem Upgrade.imp (u : Upgrade R R' V V H) (P : Prop) :
    Upgrade R R' V V (fun ℓ => P → H ℓ) where
  inv := u.inv
  data := u.data
  envInv := u.envInv
  env := u.env
  fails := u.fails
  inside _ _ h := h
  commit _ _ h := h
  outside _ _ h := h
  request _ _ h := h
  begin h hP := u.begin (h hP)
  committed h hP := u.committed (h hP)
  rollback h hP := u.rollback (h hP)
  error h hP := u.error (h hP)
  answer h hP := u.answer (h hP)
  sqlInside hinv h hV hx hP := u.sqlInside hinv (h hP) hV hx
  sqlOutside hinv h hV hx hP := u.sqlOutside hinv (h hP) hV hx

/-- The invariant of the committed data a transaction runs on. -/
def DataOk (R : Rely B) : Mode B → Prop
  | .inside p _ _ _ => R.inv p.data
  | .outside _ | .doomed _ => True

/-- From the moment the rely is stronger, the rest of a verified program is verified against it.
Programs are thus verified once, against the weakest rely. -/
theorem Wp.upgrade {Q Q' : Mode B → List (Event S ε) → Except ε α → Prop} {m : Mode B}
    {ℓ : List (Event S ε)} {p : Prog S ε α} (u : Upgrade R R' V V' H)
    (hQ : ∀ m ℓ r, H ℓ → Q m ℓ r → Q' m ℓ r) (h : p.Wp I R V Q m ℓ) (hm : DataOk R' m)
    (hH : H ℓ) : p.Wp I R' V' Q' m ℓ := by
  induction p generalizing m ℓ with
  | done r => exact wp_done.mpr (hQ _ _ _ hH (wp_done.mp h))
  | begin k ih =>
    cases m with
    | outside p =>
      exact ⟨fun q hq => ih _ (h.1 q (u.later hq)) hq.inv (u.begin hH),
        fun hf q hq => ih _ (h.2 (u.fails hf) q (u.later hq)) trivial (u.begin hH)⟩
    | inside | doomed => exact h.elim
  | commit k ih =>
    cases m with
    | inside p st ws L =>
      intro e he
      obtain ⟨h₁, h₂, h₃⟩ := h e (u.envLater he)
      exact ⟨u.commit hm hH h₁, ih _ h₂ trivial (u.committed hH),
        fun hf => ih _ (h₃ (u.fails hf)) trivial (u.committed hH)⟩
    | outside | doomed => exact h.elim
  | rollback k ih =>
    cases m with
    | inside | doomed =>
      exact fun e he r hr =>
        ih _ (h e (u.envLater he) r (u.rollbackAnswer hr)) trivial (u.rollback hH)
    | outside => exact h.elim
  | sql s k ih =>
    cases m with
    | outside p =>
      intro q hq
      obtain ⟨h₁, h₂, h₃⟩ := h q (u.later hq)
      exact ⟨u.outside hq.inv hH h₁,
        fun χ r ws hx => ih _ (h₂ χ r ws hx) trivial (u.sqlOutside hq.inv hH h₁ hx),
        fun e he => ih _ (h₃ e (u.errs he)) trivial (u.error hH)⟩
    | inside p st ws L =>
      obtain ⟨h₁, h₂, h₃⟩ := h
      exact ⟨u.inside hm hH h₁, fun χ r w hx =>
        ⟨fun hr => ih _ ((h₂ χ r w hx).1 hr) hm (u.sqlInside hm hH h₁ hx),
          fun hr => ih _ ((h₂ χ r w hx).2 hr) trivial (u.sqlInside hm hH h₁ hx)⟩,
        fun e he => ih _ (h₃ e (u.errs he)) trivial (u.error hH)⟩
    | doomed => exact h.elim
  | ext x k ih =>
    cases m with
    | outside p =>
      intro q hq
      obtain ⟨h₁, h₂, h₃⟩ := h q (u.later hq)
      exact ⟨u.request hq.inv hH h₁, fun χ => ih _ (h₂ χ) trivial (u.answer hH),
        fun hf => ih _ (h₃ (u.fails hf)) trivial (u.answer hH)⟩
    | inside p st ws L =>
      intro e he
      obtain ⟨h₁, h₂, h₃⟩ := h e (u.envLater he)
      exact ⟨u.request hm hH h₁, fun χ => ih _ (h₂ χ) hm (u.answer hH),
        fun hf => ih _ (h₃ (u.fails hf)) hm (u.answer hH)⟩
    | doomed => exact h.elim

end Prog
end Transactional
