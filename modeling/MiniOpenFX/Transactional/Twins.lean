import MiniOpenFX.Transactional.Calm
import MiniOpenFX.Transactional.Solo

/-!
# Two runs of one program

`Prog.Twin` walks through a program on two stores at once. What the program is answered may differ,
as long as it goes on the same way; where it is answered alike by any two stores that a relation
relates, nothing else is to be shown (`Acts.twin`). `Twin.run` is the soundness for `Prog.run`: run
alone on the two stores, in surroundings that a relation relates and that choose alike, the program
ends with the same result.
-/

namespace Transactional

variable {S : Sig} {ε : Type} {B : Backend S ε}

/-- What two runs have committed and what they see; in a transaction, under which stamp. The stamp
is one, as both clocks show the same time. -/
structure Twins (B : Backend S ε) where
  data : B.Data × B.Data
  view : B.Data × B.Data
  stamp : Option B.Stamp

namespace Twins

/-- Two runs outside a transaction. -/
abbrev outside (d d' : B.Data) : Twins B := ⟨(d, d'), (d, d'), none⟩

/-- Two runs in a transaction. -/
abbrev inside (data view : B.Data × B.Data) (st : B.Stamp) : Twins B := ⟨data, view, some st⟩

/-- Two runs that see other data from now on. -/
def seeing (t : Twins B) (view : B.Data × B.Data) : Twins B :=
  match t.stamp with
  | none => ⟨view, view, none⟩
  | some st => ⟨t.data, view, some st⟩

/-- Two runs that are made to see other data see these. -/
@[simp] theorem view_seeing (t : Twins B) (v : B.Data × B.Data) : (t.seeing v).view = v := by
  obtain ⟨d, u, st⟩ := t
  cases st <;> rfl

/-- Only the last data that two runs are made to see count. -/
@[simp] theorem seeing_seeing (t : Twins B) (v v' : B.Data × B.Data) :
    (t.seeing v).seeing v' = t.seeing v' := by
  obtain ⟨d, u, st⟩ := t
  cases st <;> rfl

/-- The worlds of two runs: their data are those of `t`, their surroundings are related by `E`, and
both are in a transaction or neither is. -/
structure Are (E : B.Env → B.Env → Prop) (t : Twins B) (w w' : World B) : Prop where
  data : t.data = (w.data, w'.data)
  view : t.view = (w.view, w'.view)
  stamp : w.tx.map Tx.stamp = t.stamp
  stamp' : w'.tx.map Tx.stamp = t.stamp
  env : E w.env w'.env

namespace Are

variable {E : B.Env → B.Env → Prop} {t : Twins B} {w w' : World B}

/-- The surroundings move. -/
theorem moved (h : t.Are E w w') {e e' : B.Env} (he : E e e') :
    t.Are E { w with env := e } { w' with env := e' } :=
  ⟨h.data, h.view, h.stamp, h.stamp', he⟩

/-- Both statements run under one stamp. -/
theorem stamps (h : t.Are E w w') (stamp : ∀ {e e'}, E e e' → B.stamp e = B.stamp e') :
    w.stamp = w'.stamp ∧ ∀ st ∈ t.stamp, st = w.stamp := by
  obtain ⟨d, e, tx⟩ := w
  obtain ⟨d', e', tx'⟩ := w'
  have h₁ : tx.map Tx.stamp = t.stamp := h.stamp
  have h₂ : tx'.map Tx.stamp = t.stamp := h.stamp'
  rw [← h₁] at h₂ ⊢
  cases tx with
  | none =>
    cases tx' with
    | none => exact ⟨stamp h.env, fun _ hst => by cases hst⟩
    | some _ => cases h₂
  | some tx =>
    cases tx' with
    | none => cases h₂
    | some _ => exact ⟨(Option.some.inj h₂).symm, fun _ hst => (Option.some.inj hst).symm⟩

end Are

end Twins

/-- What a statement leaves. -/
def Backend.left (d : B.Data) {R : Type} : Except ε (R × List B.Write) → B.Data
  | .ok (_, ws) => B.applyAll ws d
  | .error _ => d

/-- What a statement leaves of the world. -/
def World.left (w : World B) (L : List B.Resource) {R : Type} :
    Except ε (R × List B.Write) → World B
  | .ok (_, ws) => w.record L ws
  | .error _ => w

/-- What a world sees after a statement are the data that the backend leaves of what it saw before.
-/
theorem World.view_left (w : World B) (L : List B.Resource) {R : Type}
    (x : Except ε (R × List B.Write)) : (w.left L x).view = B.left w.view x := by
  obtain ⟨d, e, tx⟩ := w
  cases x with
  | error _ => rfl
  | ok r =>
    cases tx with
    | none => rfl
    | some tx => exact Backend.applyAll_append _ _ _

/-- The worlds of two runs after a statement. -/
theorem Twins.Are.left {E : B.Env → B.Env → Prop} {t : Twins B} {w w' : World B}
    (h : t.Are E w w') (L L' : List B.Resource) {R : Type} (x x' : Except ε (R × List B.Write)) :
    (t.seeing (B.left w.view x, B.left w'.view x')).Are E (w.left L x) (w'.left L' x') := by
  have hview := congrArg₂ Prod.mk (w.view_left L x) (w'.view_left L' x')
  rw [← hview]
  obtain ⟨d, e, tx⟩ := w
  obtain ⟨d', e', tx'⟩ := w'
  obtain ⟨data, view, st⟩ := t
  have h₁ : tx.map Tx.stamp = st := h.stamp
  have h₂ : tx'.map Tx.stamp = st := h.stamp'
  cases h.data
  subst h₁
  cases tx with
  | none =>
    cases tx' with
    | none => cases x <;> cases x' <;> exact ⟨rfl, rfl, rfl, rfl, h.env⟩
    | some _ => cases h₂
  | some tx =>
    cases tx' with
    | none => cases h₂
    | some tx' => cases x <;> cases x' <;> exact ⟨rfl, rfl, rfl, h₂, h.env⟩

namespace Prog

variable {α β : Type}

/-- One statement of a run without failures. -/
theorem runCalm_sql {s : S.Stmt} (k : Except ε (S.StmtRes s) → Prog S ε α) (τ : Nat → Turn B)
    (w : World B) {w₁ : World B} (hw : w₁ = { w with env := (τ 0).env w.env }) :
    (sql s k).runCalm τ w =
      (k ((B.exec s (τ 0).choice w₁.stamp w₁.view).map Prod.fst)).runCalm (fun n => τ (n + 1))
        (w₁.left (B.needs s w₁.view) (B.exec s (τ 0).choice w₁.stamp w₁.view)) := by
  subst hw
  simp only [runCalm, Prog.run, Bool.and_false, Bool.false_eq_true, if_false]
  cases B.exec s (τ 0).choice (World.stamp { w with env := (τ 0).env w.env })
    (World.view { w with env := (τ 0).env w.env }) <;> rfl

/-- A run of a program whose result is changed at its end. -/
theorem run_map {F : Act S → Bool} (f : α → β) (p : Prog S ε α) (τ : Nat → Turn B) (w : World B) :
    (p.bind fun a => done (.ok (f a))).run F τ w = ((p.run F τ w).1.map f, (p.run F τ w).2) := by
  induction p generalizing τ w with
  | done r => cases r <;> rfl
  | begin k ih | commit k ih | ext x k ih =>
    simp only [bind, Prog.run]
    split <;> exact ih _ _ _
  | rollback k ih => exact ih _ _ _
  | sql s k ih =>
    simp only [bind, Prog.run]
    split
    · exact ih _ _ _
    · cases B.exec s (τ 0).choice (World.stamp { w with env := (τ 0).env w.env })
        (World.view { w with env := (τ 0).env w.env }) <;> exact ih _ _ _

/-! ## The rules -/

section
variable (A : B.Choice → Prop) (E : B.Env → B.Env → Prop)

/-- Where the choices made satisfy `A` and are the same, and the surroundings of the two runs are
related by `E`, both go the same way and end with `Q`. -/
def Twin (Q : Except ε α → Twins B → Prop) : Twins B → Prog S ε α → Prop
  | t, .done r => Q r t
  | t, .begin k => t.stamp = none ∧ ∀ st, (k (.ok ())).Twin Q ⟨t.data, t.data, some st⟩
  | t, .commit k => (k (.ok ())).Twin Q ⟨t.view, t.view, none⟩
  | t, .rollback k => (k (.ok ())).Twin Q ⟨t.data, t.data, none⟩
  | t, .sql s k => ∀ χ st, A χ → (∀ st' ∈ t.stamp, st' = st) →
      k ((B.exec s χ st t.view.1).map Prod.fst) = k ((B.exec s χ st t.view.2).map Prod.fst) ∧
        (k ((B.exec s χ st t.view.1).map Prod.fst)).Twin Q
          (t.seeing (B.left t.view.1 (B.exec s χ st t.view.1),
            B.left t.view.2 (B.exec s χ st t.view.2)))
  | t, .ext x k => ∀ χ e e', A χ → E e e' → k (B.answer x χ e).1 = k (B.answer x χ e').1 ∧
      E (B.answer x χ e).2 (B.answer x χ e').2 ∧ (k (B.answer x χ e).1).Twin Q t

end

section
variable {A : B.Choice → Prop} {E : B.Env → B.Env → Prop} {Q Q' : Except ε α → Twins B → Prop}
  {t : Twins B} {p : Prog S ε α}

/-- Programs that are twins up to a postcondition are so up to a weaker one. -/
theorem Twin.mono (h : p.Twin A E Q t) (hQ : ∀ r t, Q r t → Q' r t) : p.Twin A E Q' t := by
  induction p generalizing t with
  | done r => exact hQ r t h
  | begin k ih => exact ⟨h.1, fun st => ih _ (h.2 st)⟩
  | commit k ih | rollback k ih => exact ih _ h
  | sql s k ih => exact fun χ st hχ hst => (h χ st hχ hst).imp_right (ih _)
  | ext x k ih => exact fun χ e e' hχ he => (h χ e e' hχ he).imp_right (And.imp_right (ih _))

/-- A sequence runs alike in two systems if its first program does, and so does what is left of it
after each result of the first. -/
theorem twin_bind {Q : Except ε β → Twins B → Prop} {f : α → Prog S ε β}
    (h : p.Twin A E (fun r t => ((done r).bind f).Twin A E Q t) t) : (p.bind f).Twin A E Q t := by
  induction p generalizing t with
  | done r => exact h
  | begin k ih => exact ⟨h.1, fun st => ih _ (h.2 st)⟩
  | commit k ih | rollback k ih => exact ih _ h
  | sql s k ih =>
    exact fun χ st hχ hst => (h χ st hχ hst).imp (congrArg (Prog.bind · f)) (ih _)
  | ext x k ih =>
    exact fun χ e e' hχ he => (h χ e e' hχ he).imp (congrArg (Prog.bind · f)) (And.imp_right (ih _))

/-- A program, and what follows it where it does not throw. -/
theorem Twin.bind {R : Except ε α → Twins B → Prop} {Q : Except ε β → Twins B → Prop}
    {f : α → Prog S ε β} (h : p.Twin A E R t)
    (ok : ∀ a u, R (.ok a) u → (f a).Twin A E Q u)
    (error : ∀ e u, R (.error e) u → Q (.error e) u) : (p.bind f).Twin A E Q t := by
  refine twin_bind (h.mono fun r u hr => ?_)
  cases r with
  | ok a => exact ok a u hr
  | error e => exact error e u hr

/-- Catching its error does not keep a program from running alike in two systems. -/
theorem twin_attempt {Q : Except ε (Except ε α) → Twins B → Prop}
    (h : p.Twin A E (fun r t => Q (.ok r) t) t) : p.attempt.Twin A E Q t := by
  induction p generalizing t with
  | done r => exact h
  | begin k ih => exact ⟨h.1, fun st => ih _ (h.2 st)⟩
  | commit k ih | rollback k ih => exact ih _ h
  | sql s k ih => exact fun χ st hχ hst => (h χ st hχ hst).imp (congrArg Prog.attempt) (ih _)
  | ext x k ih =>
    exact fun χ e e' hχ he => (h χ e e' hχ he).imp (congrArg Prog.attempt) (And.imp_right (ih _))

/-- A transaction commits what its body sees at its end, or leaves the data as they were. Both runs
do the one or the other. -/
theorem twin_transaction {d d' : B.Data}
    (h : ∀ st, p.Twin A E (fun r t => t.data = (d, d') ∧ match r with
      | .ok a => Q (.ok a) ⟨t.view, t.view, none⟩
      | .error e => Q (.error e) (.outside d d')) (.inside (d, d') (d, d') st)) :
    (transaction p).Twin A E Q (.outside d d') := by
  refine ⟨rfl, fun st => ?_⟩
  refine twin_bind (twin_attempt (twin_bind ((h st).mono fun r t hr => ?_)))
  cases r with
  | ok a => exact hr.2
  | error e =>
    have hr : t.data = (d, d') ∧ Q (.error e) (.outside d d') := hr
    change Q (.error e) ⟨t.data, t.data, none⟩
    rw [hr.1]
    exact hr.2

/-- A program that is answered alike by any stores that are related, if each of its acts is. The
program itself need not be looked at. -/
theorem Acts.twin {P : Act S → Prop} {D : B.Data → B.Data → Prop}
    (inner : ∀ a, P a → a.Inner)
    (sql : ∀ s χ st v v', P (.sql s) → A χ → D v v' →
      (B.exec s χ st v).map Prod.fst = (B.exec s χ st v').map Prod.fst ∧
        D (B.left v (B.exec s χ st v)) (B.left v' (B.exec s χ st v')))
    (ext : ∀ x χ e e', P (.ext x) → A χ → E e e' →
      (B.answer x χ e).1 = (B.answer x χ e').1 ∧ E (B.answer x χ e).2 (B.answer x χ e').2)
    (hp : p.Acts P) (hD : D t.view.1 t.view.2) (ht : t = t.seeing t.view) :
    p.Twin A E (fun _ u => D u.view.1 u.view.2 ∧ u = t.seeing u.view) t := by
  induction p generalizing t with
  | done r => exact ⟨hD, ht⟩
  | begin k ih => exact (inner _ hp.1).elim
  | commit k ih => exact (inner _ hp.1).elim
  | rollback k ih => exact (inner _ hp.1).elim
  | sql s k ih =>
    intro χ st hχ hst
    obtain ⟨hr, hD'⟩ := sql s χ st _ _ hp.1 hχ hD
    refine ⟨congrArg k hr, (ih _ (hp.2 _) (by simpa using hD') (by simp)).mono fun r u hu => ?_⟩
    simpa using hu
  | ext x k ih =>
    intro χ e e' hχ he
    obtain ⟨hr, hE⟩ := ext x χ e e' hp.1 hχ he
    exact ⟨congrArg k hr, hE, ih _ (hp.2 _) hD ht⟩

/-- A statement, and what follows it: the answers may differ, as long as the program goes on in the
same way. -/
theorem twin_query_bind {Q : Except ε β → Twins B → Prop} {s : S.Stmt}
    {g : S.StmtRes s → Prog S ε β}
    (h : ∀ χ st, A χ → (∀ st' ∈ t.stamp, st' = st) →
      (done ((B.exec s χ st t.view.1).map Prod.fst)).bind g =
          (done ((B.exec s χ st t.view.2).map Prod.fst)).bind g ∧
        ((done ((B.exec s χ st t.view.1).map Prod.fst)).bind g).Twin A E Q
          (t.seeing (B.left t.view.1 (B.exec s χ st t.view.1),
            B.left t.view.2 (B.exec s χ st t.view.2)))) :
    ((query s).bind g).Twin A E Q t := h

/-- A request, and what follows it. -/
theorem twin_request_bind {Q : Except ε β → Twins B → Prop} {x : S.Ext}
    {g : S.ExtRes x → Prog S ε β}
    (h : ∀ χ e e', A χ → E e e' → (B.answer x χ e).1 = (B.answer x χ e').1 ∧
      E (B.answer x χ e).2 (B.answer x χ e').2 ∧
        ((done (B.answer x χ e).1).bind g).Twin A E Q t) :
    ((request x).bind g).Twin A E Q t :=
  fun χ e e' hχ he => (h χ e e' hχ he).imp_left (congrArg fun r => (done r).bind g)

/-! ## Soundness -/

/-- Two runs of one program, alone on two stores, given the same choices: their results are equal
and their worlds related as the postcondition says. -/
theorem Twin.run (stamp : ∀ {e e'}, E e e' → B.stamp e = B.stamp e') (h : p.Twin A E Q t)
    {w w' : World B} (hw : t.Are E w w') {τ τ' : Nat → Turn B} (hA : ∀ n, A (τ n).choice)
    (choice : ∀ n, (τ n).choice = (τ' n).choice)
    (moves : ∀ n e e', E e e' → E ((τ n).env e) ((τ' n).env e')) :
    ∃ u, (p.runCalm τ w).1 = (p.runCalm τ' w').1 ∧ Q (p.runCalm τ w).1 u ∧
      u.Are E (p.runCalm τ w).2 (p.runCalm τ' w').2 := by
  induction p generalizing t w w' τ τ' with
  | done r => exact ⟨t, rfl, h, hw⟩
  | begin k ih =>
    have he := moves 0 _ _ hw.env
    have hopen : Twins.Are E ⟨t.data, t.data, some (B.stamp ((τ 0).env w.env))⟩
        ⟨w.data, (τ 0).env w.env, some ⟨[], [], B.stamp ((τ 0).env w.env)⟩⟩
        ⟨w'.data, (τ' 0).env w'.env, some ⟨[], [], B.stamp ((τ' 0).env w'.env)⟩⟩ :=
      ⟨hw.data, hw.data, rfl, congrArg some (stamp he).symm, he⟩
    simp only [runCalm, Prog.run, Bool.and_false, Bool.false_eq_true, if_false]
    exact ih _ (h.2 _) hopen (fun n => hA (n + 1)) (fun n => choice (n + 1)) fun n => moves (n + 1)
  | commit k ih =>
    have hdone : Twins.Are E ⟨t.view, t.view, none⟩ ⟨w.committed, (τ 0).env w.env, none⟩
        ⟨w'.committed, (τ' 0).env w'.env, none⟩ :=
      ⟨hw.view, hw.view, rfl, rfl, moves 0 _ _ hw.env⟩
    simp only [runCalm, Prog.run, Bool.and_false, Bool.false_eq_true, if_false]
    exact ih _ h hdone (fun n => hA (n + 1)) (fun n => choice (n + 1)) fun n => moves (n + 1)
  | rollback k ih =>
    have hdone : Twins.Are E ⟨t.data, t.data, none⟩ ⟨w.data, (τ 0).env w.env, none⟩
        ⟨w'.data, (τ' 0).env w'.env, none⟩ :=
      ⟨hw.data, hw.data, rfl, rfl, moves 0 _ _ hw.env⟩
    simp only [runCalm, Prog.run, Bool.and_false, Bool.false_eq_true, if_false]
    exact ih _ h hdone (fun n => hA (n + 1)) (fun n => choice (n + 1)) fun n => moves (n + 1)
  | sql s k ih =>
    have hw := hw.moved (moves 0 _ _ hw.env)
    obtain ⟨hst, hst'⟩ := hw.stamps stamp
    obtain ⟨hr, h⟩ := h (τ 0).choice _ (hA 0) hst'
    rw [hw.view] at hr h
    rw [runCalm_sql k τ w rfl, runCalm_sql k τ' w' rfl, ← choice 0, ← hst, ← hr]
    exact ih _ h (hw.left _ _ _ _) (fun n => hA (n + 1)) (fun n => choice (n + 1))
      fun n => moves (n + 1)
  | ext x k ih =>
    obtain ⟨hr, hE, h⟩ := h (τ 0).choice _ _ (hA 0) (moves 0 _ _ hw.env)
    simp only [runCalm, Prog.run, Bool.and_false, Bool.false_eq_true, if_false]
    rw [← choice 0, ← hr]
    exact ih _ h (hw.moved hE) (fun n => hA (n + 1)) (fun n => choice (n + 1))
      fun n => moves (n + 1)

end

end Prog

end Transactional
