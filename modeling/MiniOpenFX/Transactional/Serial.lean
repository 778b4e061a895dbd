import MiniOpenFX.Transactional.Logic

/-!
# Programs run alone

`Prog.run` runs one program to its end with nobody else at work. What is left open is what the
surroundings do: how they move before each act, what they choose, and which of the acts that may
fail do (`Turn`). `Prog.Wp.run` is the soundness of the program logic for it: with nobody else at
work the committed data stand still between acts (`Rely.alone`), and a verified program ends where
its postcondition holds.
-/

namespace Transactional

variable {S : Sig} {ε : Type} {B : Backend S ε}

variable (B) in
/-- What the surroundings do at one act: how they move, what they choose, and whether the act
fails. -/
structure Turn where
  moves : List B.Choice
  choice : B.Choice
  fails : Bool

/-- The surroundings after a turn's moves. -/
def Turn.env (t : Turn B) (e : B.Env) : B.Env := t.moves.foldl (fun e χ => B.tick χ e) e

namespace Prog

variable {α : Type}

/-- Run a program alone, turn by turn. Acts outside `F` never fail. The result and the world it
leaves are computed, so a run can be evaluated. -/
def run (F : Act S → Bool) : Prog S ε α → (Nat → Turn B) → World B → Except ε α × World B
  | .done r, _, w => (r, w)
  | .begin k, τ, w =>
    let e := (τ 0).env w.env
    if (τ 0).fails && F .begin then
      (k (.error B.broken)).run F (fun n => τ (n + 1)) { w with env := e }
    else (k (.ok ())).run F (fun n => τ (n + 1))
      { w with env := e, tx := some { writes := [], locks := [], stamp := B.stamp e } }
  | .commit k, τ, w =>
    let e := (τ 0).env w.env
    if (τ 0).fails && F .commit then
      (k (.error B.broken)).run F (fun n => τ (n + 1)) { w with env := e }
    else (k (.ok ())).run F (fun n => τ (n + 1)) { data := w.committed, env := e, tx := none }
  | .rollback k, τ, w =>
    let e := (τ 0).env w.env
    let r := if (τ 0).fails && F .rollback then .error B.broken else .ok ()
    (k r).run F (fun n => τ (n + 1)) { w with env := e, tx := none }
  | .sql s k, τ, w =>
    let w := { w with env := (τ 0).env w.env }
    if (τ 0).fails && F (.sql s) then (k (.error B.broken)).run F (fun n => τ (n + 1)) w
    else match B.exec s (τ 0).choice w.stamp w.view with
      | .ok (r, ws) => (k (.ok r)).run F (fun n => τ (n + 1)) (w.record (B.needs s w.view) ws)
      | .error e => (k (.error e)).run F (fun n => τ (n + 1)) w
  | .ext x k, τ, w =>
    let e := (τ 0).env w.env
    if (τ 0).fails && F (.ext x) then
      (k (.error B.broken)).run F (fun n => τ (n + 1)) { w with env := e }
    else (k (B.answer x (τ 0).choice e).1).run F (fun n => τ (n + 1))
      { w with env := (B.answer x (τ 0).choice e).2 }

section
variable {F : Act S → Bool} {β : Type}

/-- A statement outside a transaction, when it does not fail. -/
theorem run_query_bind {s : S.Stmt} (hF : F (.sql s) = false) (f : S.StmtRes s → Prog S ε β)
    (τ : Nat → Turn B) (d : B.Data) (e : B.Env) :
    ((query s).bind f).run F τ ⟨d, e, none⟩ =
      match B.exec s (τ 0).choice (B.stamp ((τ 0).env e)) d with
      | .ok (r, ws) => (f r).run F (fun n => τ (n + 1)) ⟨B.applyAll ws d, (τ 0).env e, none⟩
      | .error err => (.error err, ⟨d, (τ 0).env e, none⟩) := by
  rw [query, bind_sql, Prog.run]
  simp only [hF, Bool.and_false, Bool.false_eq_true, if_false, World.view, World.stamp,
    World.record]
  split <;> rfl

/-- A request, when it does not fail. -/
theorem run_request_bind {x : S.Ext} (hF : F (.ext x) = false) (f : S.ExtRes x → Prog S ε β)
    (τ : Nat → Turn B) (w : World B) :
    ((request x).bind f).run F τ w =
      ((done (B.answer x (τ 0).choice ((τ 0).env w.env)).1).bind f).run F (fun n => τ (n + 1))
        { w with env := (B.answer x (τ 0).choice ((τ 0).env w.env)).2 } := by
  rw [request, bind_ext, Prog.run]
  simp only [hF, Bool.and_false, Bool.false_eq_true, if_false]

end

/-- Two runs of one program, in surroundings that agree on everything the program heeds, end with
the same answer and the same data, whichever of the other requests fail. -/
theorem run_heeds {Q : S.Ext → Prop} {E : B.Env → B.Env → Prop} (hE : Equivalence E)
    (hstamp : ∀ {e e'}, E e e' → B.stamp e = B.stamp e')
    (htick : ∀ {e e'} χ, E e e' → E (B.tick χ e) (B.tick χ e'))
    (heeded : ∀ {x e e'} χ, Q x → E e e' → (B.answer x χ e).1 = (B.answer x χ e').1 ∧
      E (B.answer x χ e).2 (B.answer x χ e').2)
    (other : ∀ {x} χ e, ¬ Q x → E e (B.answer x χ e).2) {F F' : Act S → Bool}
    (hF : ∀ a, F a = true ∨ F' a = true → ∃ x, a = .ext x ∧ ¬ Q x) {τ τ' : Nat → Turn B}
    (hτ : ∀ n, (τ n).moves = (τ' n).moves ∧ (τ n).choice = (τ' n).choice) {p : Prog S ε α}
    (hp : p.Heeds Q) {d : B.Data} {e e' : B.Env} (he : E e e') (tx : Option (Tx B)) :
    (p.run F τ ⟨d, e, tx⟩).1 = (p.run F' τ' ⟨d, e', tx⟩).1 ∧
      (p.run F τ ⟨d, e, tx⟩).2.data = (p.run F' τ' ⟨d, e', tx⟩).2.data := by
  have hoff : ∀ a, (∀ x, a = .ext x → Q x) → F a = false ∧ F' a = false := by
    intro a ha
    refine ⟨Bool.eq_false_iff.mpr fun h => ?_, Bool.eq_false_iff.mpr fun h => ?_⟩
    · obtain ⟨x, hx, hQ⟩ := hF a (.inl h)
      exact hQ (ha x hx)
    · obtain ⟨x, hx, hQ⟩ := hF a (.inr h)
      exact hQ (ha x hx)
  have hmoves : ∀ {e e'} n, E e e' → E ((τ n).env e) ((τ' n).env e') := by
    intro e e' n he
    unfold Turn.env
    rw [(hτ n).1]
    induction (τ' n).moves generalizing e e' with
    | nil => exact he
    | cons χ χs ih => exact ih (htick χ he)
  induction p generalizing τ τ' d e e' tx with
  | done r => exact ⟨rfl, rfl⟩
  | begin k ih =>
    have hnow := hmoves 0 he
    rw [Prog.run, Prog.run]
    simp only [(hoff .begin (by simp)).1, (hoff .begin (by simp)).2, Bool.and_false,
      Bool.false_eq_true, if_false, hstamp hnow]
    exact ih _ (fun n => hτ (n + 1)) (hp _) hnow _ fun n => hmoves (n + 1)
  | commit k ih =>
    rw [Prog.run, Prog.run]
    simp only [(hoff .commit (by simp)).1, (hoff .commit (by simp)).2, Bool.and_false,
      Bool.false_eq_true, if_false]
    exact ih _ (fun n => hτ (n + 1)) (hp _) (hmoves 0 he) _ fun n => hmoves (n + 1)
  | rollback k ih =>
    rw [Prog.run, Prog.run]
    simp only [(hoff .rollback (by simp)).1, (hoff .rollback (by simp)).2, Bool.and_false,
      Bool.false_eq_true, if_false]
    exact ih _ (fun n => hτ (n + 1)) (hp _) (hmoves 0 he) _ fun n => hmoves (n + 1)
  | sql s k ih =>
    have hnow := hmoves 0 he
    have hst : World.stamp ⟨d, (τ 0).env e, tx⟩ = World.stamp (B := B) ⟨d, (τ' 0).env e', tx⟩ := by
      cases tx with
      | none => exact hstamp hnow
      | some tx => rfl
    rw [Prog.run, Prog.run]
    simp only [(hoff (.sql s) (by simp)).1, (hoff (.sql s) (by simp)).2, Bool.and_false,
      Bool.false_eq_true, if_false, hst, (hτ 0).2, World.view]
    split
    · next r ws hx =>
      cases tx with
      | none => exact ih _ (fun n => hτ (n + 1)) (hp _) hnow _ fun n => hmoves (n + 1)
      | some tx => exact ih _ (fun n => hτ (n + 1)) (hp _) hnow _ fun n => hmoves (n + 1)
    · exact ih _ (fun n => hτ (n + 1)) (hp _) hnow _ fun n => hmoves (n + 1)
  | ext x k ih =>
    have hnow := hmoves 0 he
    rw [Prog.run, Prog.run]
    by_cases hQ : Q x
    · obtain ⟨h₁, h₂⟩ := hoff (.ext x) fun y hy => by cases hy; exact hQ
      obtain ⟨hr, he'⟩ := heeded (τ' 0).choice hQ hnow
      simp only [h₁, h₂, Bool.and_false, Bool.false_eq_true, if_false, (hτ 0).2, hr]
      exact ih _ (fun n => hτ (n + 1)) (hp.2 _) he' _ fun n => hmoves (n + 1)
    · -- whatever the two are answered, they go on the same way
      have hsame := hp.1.resolve_left hQ
      have hend : ∀ r r' e₁ e₂, E ((τ 0).env e) e₁ → E ((τ' 0).env e') e₂ →
          ((k r).run F (fun n => τ (n + 1)) ⟨d, e₁, tx⟩).1 =
            ((k r').run F' (fun n => τ' (n + 1)) ⟨d, e₂, tx⟩).1 ∧
          ((k r).run F (fun n => τ (n + 1)) ⟨d, e₁, tx⟩).2.data =
            ((k r').run F' (fun n => τ' (n + 1)) ⟨d, e₂, tx⟩).2.data := by
        intro r r' e₁ e₂ h₁ h₂
        rw [hsame r r']
        exact ih _ (fun n => hτ (n + 1)) (hp.2 _) (hE.trans (hE.symm h₁) (hE.trans hnow h₂)) _
          fun n => hmoves (n + 1)
      split <;> split
      · exact hend _ _ _ _ (hE.refl _) (hE.refl _)
      · exact hend _ _ _ _ (hE.refl _) (other _ _ hQ)
      · exact hend _ _ _ _ (other _ _ hQ) (hE.refl _)
      · exact hend _ _ _ _ (other _ _ hQ) (other _ _ hQ)

end Prog

/-- The rely of a program that runs alone: the committed data stand still, and the surroundings
move by `E`. -/
def Rely.alone (E : B.Env → B.Env → Prop) (hrefl : ∀ e, E e e)
    (htrans : ∀ {e₁ e₂ e₃}, E e₁ e₂ → E e₂ e₃ → E e₁ e₃) (F : Act S → Bool) : Rely B where
  inv _ := True
  data := Eq
  envInv _ := True
  env := E
  fails a := F a = true
  data_refl _ := rfl
  data_trans := Eq.trans
  data_inv _ h := h
  env_refl := hrefl
  env_trans := htrans
  env_inv _ h := h

/-- The worlds a mode describes: exactly what was last seen outside a transaction, with
surroundings that may have moved since inside one. -/
def Mode.World (E : B.Env → B.Env → Prop) : Mode B → World B → Prop
  | .outside p, w => w = ⟨p.data, p.env, none⟩
  | .inside p st ws L, w => ∃ e, E p.env e ∧ w = ⟨p.data, e, some ⟨ws, L, st⟩⟩
  | .doomed p, w => ∃ e tx, E p.env e ∧ w = ⟨p.data, e, some tx⟩

/-- A verified program, run alone, ends where its postcondition holds. It is how results of the
logic become results about `run`. -/
theorem Prog.Wp.run {α : Type} {I : Isolation B} {E : B.Env → B.Env → Prop} {hrefl : ∀ e, E e e}
    {htrans : ∀ {e₁ e₂ e₃}, E e₁ e₂ → E e₂ e₃ → E e₁ e₃} {F : Act S → Bool} {V : Spec B}
    {Q : Mode B → List (Event S ε) → Except ε α → Prop} {p : Prog S ε α} {m : Mode B}
    {ℓ : List (Event S ε)} (htick : ∀ χ e, E e (B.tick χ e))
    (h : p.Wp I (Rely.alone E hrefl htrans F) V Q m ℓ) {w : World B} (hw : m.World E w)
    (τ : Nat → Turn B) :
    ∃ m' ℓ', m'.World E (p.run F τ w).2 ∧ Q m' ℓ' (p.run F τ w).1 := by
  have hmoves : ∀ (t : Turn B) e, E e (t.env e) := by
    intro t e
    unfold Turn.env
    induction t.moves generalizing e with
    | nil => exact hrefl e
    | cons χ χs ih => exact htrans (htick χ e) (ih _)
  have hlater : ∀ (t : Turn B) (p : Seen B),
      (Rely.alone E hrefl htrans F).Later p ⟨p.data, t.env p.env⟩ :=
    fun t p => ⟨rfl, hmoves t _, trivial, trivial⟩
  have henv : ∀ (t : Turn B) {e e'}, E e e' →
      (Rely.alone E hrefl htrans F).EnvLater e (t.env e') :=
    fun t _ _ he => ⟨htrans he (hmoves t _), trivial⟩
  induction p generalizing m ℓ w τ with
  | done r => exact ⟨m, ℓ, hw, Prog.wp_done.mp h⟩
  | begin k ih =>
    cases m with
    | outside p =>
      cases hw
      rw [Prog.run]
      split
      · next hf => exact ih _ (h.2 (Bool.and_eq_true_iff.mp hf).2 _ (hlater (τ 0) p)) rfl _
      · exact ih _ (h.1 _ (hlater (τ 0) p)) ⟨_, hrefl _, rfl⟩ _
    | inside | doomed => exact h.elim
  | commit k ih =>
    cases m with
    | inside p st ws L =>
      obtain ⟨e, he, rfl⟩ := hw
      obtain ⟨-, h₂, h₃⟩ := h _ (henv (τ 0) he)
      rw [Prog.run]
      split
      · next hf => exact ih _ (h₃ (Bool.and_eq_true_iff.mp hf).2) ⟨_, _, hrefl _, rfl⟩ _
      · exact ih _ h₂ rfl _
    | outside | doomed => exact h.elim
  | rollback k ih =>
    have hanswer : ∀ b, (Rely.alone E hrefl htrans F).RollbackAnswer
        (if b && F .rollback then .error B.broken else .ok ()) := by
      intro b
      split
      · next hf => exact .inr ⟨(Bool.and_eq_true_iff.mp hf).2, rfl⟩
      · exact .inl rfl
    cases m with
    | inside p st ws L =>
      obtain ⟨e, he, rfl⟩ := hw
      exact ih _ (h _ (henv (τ 0) he) _ (hanswer _)) rfl _
    | doomed p =>
      obtain ⟨e, tx, he, rfl⟩ := hw
      exact ih _ (h _ (henv (τ 0) he) _ (hanswer _)) rfl _
    | outside => exact h.elim
  | sql s k ih =>
    rw [Prog.run]
    cases m with
    | outside p =>
      cases hw
      obtain ⟨-, h₂, h₃⟩ := h _ (hlater (τ 0) p)
      simp only [World.view, World.stamp, World.record]
      split
      · next hf => exact ih _ (h₃ _ (.inr ⟨(Bool.and_eq_true_iff.mp hf).2, rfl⟩)) rfl _
      · split
        · next r ws hx => exact ih _ (h₂ _ _ _ hx) rfl _
        · next e hx => exact ih _ (h₃ _ (.inl ⟨_, hx⟩)) rfl _
    | inside p st ws L =>
      obtain ⟨e, he, rfl⟩ := hw
      obtain ⟨-, h₂, h₃⟩ := h
      have hnow : E p.env ((τ 0).env e) := htrans he (hmoves _ _)
      simp only [World.view, World.stamp, World.record]
      split
      · next hf =>
        exact ih _ (h₃ _ (.inr ⟨(Bool.and_eq_true_iff.mp hf).2, rfl⟩)) ⟨_, _, hnow, rfl⟩ _
      · split
        · next r ws' hx =>
          by_cases hr : I.Durable s r
          · exact ih _ ((h₂ _ _ _ hx).1 hr) ⟨_, hnow, rfl⟩ _
          · exact ih _ ((h₂ _ _ _ hx).2 hr) ⟨_, _, hnow, rfl⟩ _
        · next e hx => exact ih _ (h₃ _ (.inl ⟨_, hx⟩)) ⟨_, _, hnow, rfl⟩ _
    | doomed => exact h.elim
  | ext x k ih =>
    rw [Prog.run]
    cases m with
    | outside p =>
      cases hw
      obtain ⟨-, h₂, h₃⟩ := h _ (hlater (τ 0) p)
      dsimp only
      split
      · next hf => exact ih _ (h₃ (Bool.and_eq_true_iff.mp hf).2) rfl _
      · exact ih _ (h₂ _) rfl _
    | inside p st ws L =>
      obtain ⟨e, he, rfl⟩ := hw
      obtain ⟨-, h₂, h₃⟩ := h _ (henv (τ 0) he)
      dsimp only
      split
      · next hf => exact ih _ (h₃ (Bool.and_eq_true_iff.mp hf).2) ⟨_, hrefl _, rfl⟩ _
      · exact ih _ (h₂ _) ⟨_, hrefl _, rfl⟩ _
    | doomed => exact h.elim

end Transactional
