import MiniOpenFX.Transactional.Soundness
import MiniOpenFX.Transactional.Serial

/-!
# What is committed has run alone

A program's acts on the data it finds and leaves itself, with nobody else's acts between them, are
a `Prog.Solo` run. The program logic already speaks of an open transaction as if it had run alone
on the data committed now; `Prog.wp_transaction_also` says so at the commit: a verified transaction
that is about to commit has, on those data, a solo run that returns what its history says and
succeeds. `State.commits` lists the transactions a run of the system commits, in order, so a
verified system's committed data are those of a serial run (`State.exec_commits`).
-/

namespace Transactional

variable {S : Sig} {ε : Type} {B : Backend S ε}

/-- The acts that neither open nor end a transaction. -/
def Act.Inner : Act S → Prop
  | .sql _ | .ext _ => True
  | .begin | .commit | .rollback => False

/-- Obligations `V` that are met by acts satisfying `P` are obligations `V'` met. -/
structure Spec.Implies (P : Act S → Prop) (V V' : Spec B) : Prop where
  inside : ∀ {d ℓ st ws L s}, P (.sql s) → V.inside d ℓ st ws L s → V'.inside d ℓ st ws L s
  commit : ∀ {p ℓ st ws L}, P .commit → V.commit p ℓ st ws L → V'.commit p ℓ st ws L
  outside : ∀ {p ℓ s}, P (.sql s) → V.outside p ℓ s → V'.outside p ℓ s
  request : ∀ {p ℓ x}, P (.ext x) → V.request p ℓ x → V'.request p ℓ x

/-- The obligations with one more at the commit. What the transaction did is known there, so facts
about commits are added to a verified system in this way. -/
def Spec.also (V : Spec B) (C : Seen B → List (Event S ε) → B.Stamp → List B.Write →
    List B.Resource → Prop) : Spec B where
  __ := V
  commit p ℓ st ws L := V.commit p ℓ st ws L ∧ C p ℓ st ws L

/-- A program that commits nothing does not meet the obligation that is added at the commit, so its
proof stands for the obligations with it, too. -/
theorem Spec.implies_also (V : Spec B) (C : Seen B → List (Event S ε) → B.Stamp → List B.Write →
    List B.Resource → Prop) {P : Act S → Prop} (hP : ¬ P .commit) : Spec.Implies P V (V.also C) :=
  ⟨fun _ h => h, fun h _ => absurd h hP, fun _ h => h, fun _ h => h⟩

namespace Prog

variable {α β : Type}

/-! ## The acts of a program -/

/-- Every act the program can come to satisfies `P`, whatever its acts are answered. -/
def Acts (P : Act S → Prop) : Prog S ε α → Prop
  | .done _ => True
  | .begin k => P .begin ∧ ∀ r, (k r).Acts P
  | .commit k => P .commit ∧ ∀ r, (k r).Acts P
  | .rollback k => P .rollback ∧ ∀ r, (k r).Acts P
  | .sql s k => P (.sql s) ∧ ∀ r, (k r).Acts P
  | .ext x k => P (.ext x) ∧ ∀ r, (k r).Acts P

section
variable {P : Act S → Prop}

/-- Acts that satisfy a predicate satisfy a weaker one. -/
theorem Acts.mono {P' : Act S → Prop} {p : Prog S ε α} (hp : p.Acts P) (h : ∀ a, P a → P' a) :
    p.Acts P' := by
  induction p with
  | done r => trivial
  | begin k ih | commit k ih | rollback k ih | sql s k ih | ext x k ih =>
    exact ⟨h _ hp.1, fun r => ih r (hp.2 r)⟩

/-- The acts of a sequence are those of its first program and those of what follows each of its
values. -/
theorem Acts.bind {p : Prog S ε α} {f : α → Prog S ε β} (hp : p.Acts P) (hf : ∀ a, (f a).Acts P) :
    (p.bind f).Acts P := by
  induction p with
  | done r =>
    cases r with
    | ok a => exact hf a
    | error e => trivial
  | begin k ih | commit k ih | rollback k ih | sql s k ih | ext x k ih =>
    exact ⟨hp.1, fun r => ih r (hp.2 r)⟩

theorem Acts.attempt {p : Prog S ε α} (hp : p.Acts P) : p.attempt.Acts P := by
  induction p with
  | done r => trivial
  | begin k ih | commit k ih | rollback k ih | sql s k ih | ext x k ih =>
    exact ⟨hp.1, fun r => ih r (hp.2 r)⟩

theorem acts_query {s : S.Stmt} (h : P (.sql s)) : (query s : Prog S ε _).Acts P :=
  ⟨h, fun _ => trivial⟩

theorem acts_request {x : S.Ext} (h : P (.ext x)) : (request x : Prog S ε _).Acts P :=
  ⟨h, fun _ => trivial⟩

/-- The acts of a transaction are those of its body and the three that delimit it. -/
theorem acts_transaction {body : Prog S ε α} (begin : P .begin) (commit : P .commit)
    (rollback : P .rollback) (h : body.Acts P) : (transaction body).Acts P := by
  refine ⟨begin, fun r => ?_⟩
  cases r with
  | error e => trivial
  | ok u =>
    refine (Acts.attempt (h.bind fun a => ?_)).bind fun r => ?_
    · refine ⟨commit, fun r => ?_⟩
      cases r <;> trivial
    · cases r with
      | ok a => trivial
      | error e =>
        refine ⟨rollback, fun r => ?_⟩
        cases r <;> trivial

end

/-! ## Solo runs -/

/-- The program runs from one world to another with nobody else at work, and sees `ℓ`. The
surroundings may be any at each act, and a request may fail. -/
inductive Solo : Prog S ε α → World B → List (Event S ε) → Prog S ε α → World B → Prop where
  | refl (p : Prog S ε α) (w : World B) : Solo p w [] p w
  | act {p p₁ p' ev w w₁ w' ℓ χ} (e : B.Env) (h : p.step χ { w with env := e } = some (p₁, ev, w₁))
      (rest : Solo p₁ w₁ ℓ p' w') : Solo p w (ev :: ℓ) p' w'
  | failed {x k p' w w' ℓ} (rest : Solo (k (.error B.broken)) w ℓ p' w') :
      Solo (.ext x k) w (.ext x (.error B.broken) :: ℓ) p' w'

namespace Solo

variable {p p' p'' : Prog S ε α} {w w' w'' : World B} {ℓ ℓ' : List (Event S ε)}

/-- A solo run can be followed by another: the events of the second come after those of the first.
-/
theorem trans (h : Solo p w ℓ p' w') (h' : Solo p' w' ℓ' p'' w'') : Solo p w (ℓ ++ ℓ') p'' w'' := by
  induction h with
  | refl => exact h'
  | act e hstep _ ih => exact .act e hstep (ih h')
  | failed _ ih => exact .failed (ih h')

end Solo

/-- A sequence performs the acts of its first program, as long as this has any, in the same way and
with the same effect. -/
theorem step_bind {p p' : Prog S ε α} {χ : B.Choice} {w w' : World B} {ev : Event S ε}
    (f : α → Prog S ε β) (h : p.step χ w = some (p', ev, w')) :
    (p.bind f).step χ w = some (p'.bind f, ev, w') := by
  cases p with
  | done => cases h
  | begin | commit | rollback | ext => cases h; rfl
  | sql s k =>
    simp only [step] at h
    simp only [Prog.bind, step]
    split at h
    · cases h; rfl
    · cases h; rfl

/-- A program whose error is caught performs its acts as it does without that. -/
theorem step_attempt {p p' : Prog S ε α} {χ : B.Choice} {w w' : World B} {ev : Event S ε}
    (h : p.step χ w = some (p', ev, w')) : p.attempt.step χ w = some (p'.attempt, ev, w') := by
  cases p with
  | done => cases h
  | begin | commit | rollback | ext => cases h; rfl
  | sql s k =>
    simp only [step] at h
    simp only [Prog.attempt, step]
    split at h
    · cases h; rfl
    · cases h; rfl

section
variable {p p' : Prog S ε α} {w w' : World B} {ℓ : List (Event S ε)}

/-- A solo run of a program is one of the program with something to follow, up to the same world.
-/
theorem Solo.bind (f : α → Prog S ε β) (h : Solo p w ℓ p' w') :
    Solo (p.bind f) w ℓ (p'.bind f) w' := by
  induction h with
  | refl => exact .refl _ _
  | act e hstep _ ih => exact .act e (step_bind f hstep) ih
  | failed _ ih => exact .failed ih

/-- A solo run of a program is one of the program with its error caught. -/
theorem Solo.attempt (h : Solo p w ℓ p' w') : Solo p.attempt w ℓ p'.attempt w' := by
  induction h with
  | refl => exact .refl _ _
  | act e hstep _ ih => exact .act e (step_attempt hstep) ih
  | failed _ ih => exact .failed ih

end

/-- A whole transaction, from the run of its body: it begins, the body runs in it, and it commits
what the body has written. -/
theorem Solo.transaction {body : Prog S ε α} {a : α} {d : B.Data} {e e₁ : B.Env} {ws : List B.Write}
    {L : List B.Resource} {ℓ : List (Event S ε)}
    (h : Solo body ⟨d, e, some ⟨[], [], B.stamp e⟩⟩ ℓ (.done (.ok a))
      ⟨d, e₁, some ⟨ws, L, B.stamp e⟩⟩) (χ : B.Choice) (e₀ : B.Env) :
    Solo (transaction body) ⟨d, e₀, none⟩ (.begin (.ok ()) :: ℓ ++ [.commit (.ok ())])
      (.done (.ok a)) ⟨B.applyAll ws d, e₁, none⟩ := by
  refine .act (χ := χ) e rfl (((h.bind _).attempt.bind _).trans ?_)
  exact .act (χ := χ) e₁ rfl (.refl _ _)

/-! ## Solo runs of verified programs -/

variable {I : Isolation B} {R : Rely B} {V V' : Spec B}

/-- Obligations met by a program whose acts satisfy `P`. -/
theorem Wp.implies {P : Act S → Prop} (hV : Spec.Implies P V V') {p : Prog S ε α} (hp : p.Acts P)
    {Q : Mode B → List (Event S ε) → Except ε α → Prop} {m : Mode B} {ℓ : List (Event S ε)}
    (h : p.Wp I R V Q m ℓ) : p.Wp I R V' Q m ℓ := by
  induction p generalizing m ℓ with
  | done r => exact wp_done.mpr (wp_done.mp h)
  | begin k ih =>
    cases m with
    | outside p =>
      exact ⟨fun q hq => ih _ (hp.2 _) (h.1 q hq), fun hf q hq => ih _ (hp.2 _) (h.2 hf q hq)⟩
    | inside | doomed => exact h.elim
  | commit k ih =>
    cases m with
    | inside p st ws L =>
      intro e he
      obtain ⟨h₁, h₂, h₃⟩ := h e he
      exact ⟨hV.commit hp.1 h₁, ih _ (hp.2 _) h₂, fun hf => ih _ (hp.2 _) (h₃ hf)⟩
    | outside | doomed => exact h.elim
  | rollback k ih =>
    cases m with
    | inside | doomed => exact fun e he r hr => ih _ (hp.2 _) (h e he r hr)
    | outside => exact h.elim
  | sql s k ih =>
    cases m with
    | outside p =>
      intro q hq
      obtain ⟨h₁, h₂, h₃⟩ := h q hq
      exact ⟨hV.outside hp.1 h₁, fun χ r ws hx => ih _ (hp.2 _) (h₂ χ r ws hx),
        fun e he => ih _ (hp.2 _) (h₃ e he)⟩
    | inside p st ws L =>
      obtain ⟨h₁, h₂, h₃⟩ := h
      exact ⟨hV.inside hp.1 h₁, fun χ r w hx => ⟨fun hr => ih _ (hp.2 _) ((h₂ χ r w hx).1 hr),
        fun hr => ih _ (hp.2 _) ((h₂ χ r w hx).2 hr)⟩, fun e he => ih _ (hp.2 _) (h₃ e he)⟩
    | doomed => exact h.elim
  | ext x k ih =>
    cases m with
    | outside p =>
      intro q hq
      obtain ⟨h₁, h₂, h₃⟩ := h q hq
      exact ⟨hV.request hp.1 h₁, fun χ => ih _ (hp.2 _) (h₂ χ), fun hf => ih _ (hp.2 _) (h₃ hf)⟩
    | inside p st ws L =>
      intro e he
      obtain ⟨h₁, h₂, h₃⟩ := h e he
      exact ⟨hV.request hp.1 h₁, fun χ => ih _ (hp.2 _) (h₂ χ), fun hf => ih _ (hp.2 _) (h₃ hf)⟩
    | doomed => exact h.elim

/-- What is left after a program has ended meets obligations that are implied by those it meets. -/
theorem Then.implies {P : Act S → Prop} (hV : Spec.Implies P V V') {f : α → Prog S ε β}
    (hf : ∀ a, (f a).Acts P) {Q : Mode B → List (Event S ε) → Except ε β → Prop} {m : Mode B}
    {ℓ : List (Event S ε)} {r : Except ε α} (h : Then I R V Q f m ℓ r) : Then I R V' Q f m ℓ r := by
  cases r with
  | ok a => exact Wp.implies hV (hf a) h
  | error e => exact h

/-- Where a program inside a transaction ends inside it, it has run there alone on the data
committed now. -/
def RanAlone (p : Prog S ε α) (d : B.Data) (tx : Tx B) (ℓ : List (Event S ε)) (m : Mode B)
    (ℓ' : List (Event S ε)) (r : Except ε α) : Prop :=
  ∀ q st ws L, m = .inside q st ws L → q.data = d ∧ st = tx.stamp ∧ ∃ ℓ₁, ℓ' = ℓ ++ ℓ₁ ∧
    ∀ e, ∃ e', Solo p ⟨d, e, some tx⟩ ℓ₁ (.done r) ⟨d, e', some ⟨ws, L, st⟩⟩

/-- Inside a transaction that can only roll back nothing is obliged: whatever the obligations are,
a program that runs there keeps its postcondition. -/
theorem Wp.of_doomed {p : Prog S ε α} {Q Q' : Mode B → List (Event S ε) → Except ε α → Prop}
    {q : Seen B} {ℓ : List (Event S ε)} (hp : p.Acts Act.Inner) (h : p.Wp I R V Q (.doomed q) ℓ)
    (hQ : ∀ r, Q (.doomed q) ℓ r → Q' (.doomed q) ℓ r) : p.Wp I R V' Q' (.doomed q) ℓ := by
  cases p with
  | done r => exact wp_done.mpr (hQ r (wp_done.mp h))
  | rollback => exact hp.1.elim
  | begin | commit | sql | ext => exact h.elim

/-- A program that stays inside its transaction runs there alone: its writes and locks are those of
a solo run from the data it sees. -/
theorem Wp.ranAlone (hV : Spec.Implies Act.Inner V V') {p : Prog S ε α} (hp : p.Acts Act.Inner)
    {Q : Mode B → List (Event S ε) → Except ε α → Prop} {q : Seen B} {st : B.Stamp}
    {ws : List B.Write} {L : List B.Resource} {ℓ : List (Event S ε)}
    (h : p.Wp I R V Q (.inside q st ws L) ℓ) :
    p.Wp I R V' (fun m ℓ' r => Q m ℓ' r ∧ RanAlone p q.data ⟨ws, L, st⟩ ℓ m ℓ' r)
      (.inside q st ws L) ℓ := by
  induction p generalizing q ws L ℓ with
  | done r =>
    refine wp_done.mpr ⟨wp_done.mp h, fun q' st' ws' L' hm => ?_⟩
    cases hm
    exact ⟨rfl, rfl, [], (List.append_nil ℓ).symm, fun e => ⟨e, .refl _ _⟩⟩
  | begin k | commit k | rollback k => exact hp.1.elim
  | sql s k ih =>
    obtain ⟨h₁, h₂, h₃⟩ := h
    have hend : ∀ (r : Except ε (S.StmtRes s)) (q : Seen B) ℓ₁ r', Q (.doomed q) ℓ₁ r' →
        Q (.doomed q) ℓ₁ r' ∧ RanAlone (.sql s k) q.data ⟨ws, L, st⟩ ℓ (.doomed q) ℓ₁ r' :=
      fun r q ℓ₁ r' hQ => ⟨hQ, fun _ _ _ _ hm => by cases hm⟩
    refine ⟨hV.inside trivial h₁, fun χ r w hx => ⟨fun hr => ?_, fun hr => ?_⟩, fun e he => ?_⟩
    · refine (ih _ (hp.2 _) ((h₂ χ r w hx).1 hr)).mono ?_
      rintro m ℓ' r' ⟨hQ, hran⟩
      refine ⟨hQ, fun q' st' ws' L' hm => ?_⟩
      obtain ⟨hd, hst, ℓ₁, hℓ, hsolo⟩ := hran q' st' ws' L' hm
      refine ⟨hd, hst, .sql s (.ok r) :: ℓ₁, by simp [hℓ], fun e => ?_⟩
      obtain ⟨e', hsolo⟩ := hsolo e
      refine ⟨e', .act (χ := χ) e ?_ hsolo⟩
      simp only [step, World.stamp, World.view, hx, World.record]
    · exact ((h₂ χ r w hx).2 hr).of_doomed (hp.2 _) (hend (.ok r) q _)
    · exact (h₃ e he).of_doomed (hp.2 _) (hend (.error e) q _)
  | ext x k ih =>
    intro e he
    obtain ⟨h₁, h₂, h₃⟩ := h e he
    refine ⟨hV.request trivial h₁, fun χ => ?_, fun hf => ?_⟩
    · refine (ih _ (hp.2 _) (h₂ χ)).mono ?_
      rintro m ℓ' r' ⟨hQ, hran⟩
      refine ⟨hQ, fun q' st' ws' L' hm => ?_⟩
      obtain ⟨hd, hst, ℓ₁, hℓ, hsolo⟩ := hran q' st' ws' L' hm
      refine ⟨hd, hst, .ext x (B.answer x χ e).1 :: ℓ₁, by simp [hℓ], fun e₀ => ?_⟩
      obtain ⟨e', hsolo⟩ := hsolo (B.answer x χ e).2
      exact ⟨e', .act (χ := χ) e rfl hsolo⟩
    · refine (ih _ (hp.2 _) (h₃ hf)).mono ?_
      rintro m ℓ' r' ⟨hQ, hran⟩
      refine ⟨hQ, fun q' st' ws' L' hm => ?_⟩
      obtain ⟨hd, hst, ℓ₁, hℓ, hsolo⟩ := hran q' st' ws' L' hm
      refine ⟨hd, hst, .ext x (.error B.broken) :: ℓ₁, by simp [hℓ], fun e₀ => ?_⟩
      obtain ⟨e', hsolo⟩ := hsolo e₀
      exact ⟨e', .failed hsolo⟩

/-- After an error of the body or of the commit there is only the rollback. -/
theorem acts_giveUp (e : ε) : Prog.Acts (fun a => a ≠ Act.commit) (.rollback fun
    | .ok () => fail e
    | .error e' => fail e' : Prog S ε α) :=
  ⟨by simp, fun r => by cases r <;> trivial⟩

/-- **What a transaction commits has run alone.** At its commit a verified transaction may promise,
in addition, whatever follows from its solo run on the data committed now. -/
theorem wp_transaction_also {C : Seen B → List (Event S ε) → B.Stamp → List B.Write →
      List B.Resource → Prop} {body : Prog S ε α} (hbody : body.Acts Act.Inner)
    {Q : Mode B → List (Event S ε) → Except ε α → Prop} {p : Seen B} {ℓ : List (Event S ε)}
    (χ : B.Choice) (h : (transaction body).Wp I R V Q (.outside p) ℓ)
    (hC : ∀ q st ws L ℓ₁ a e, Solo (transaction body) ⟨q.data, q.env, none⟩
      (ℓ₁ ++ [.commit (.ok ())]) (.done (.ok a)) ⟨B.applyAll ws q.data, e, none⟩ →
        C q (ℓ ++ ℓ₁) st ws L) :
    (transaction body).Wp I R (V.also C) Q (.outside p) ℓ := by
  have hV : Spec.Implies (fun a => a ≠ .commit) V (V.also C) := V.implies_also C fun h => h rfl
  refine ⟨fun q hq => ?_, fun hf q hq => Prog.wp_done.mpr (Prog.wp_done.mp (h.2 hf q hq))⟩
  have hin := h.1 q hq
  rw [wp_bind, wp_attempt, wp_bind] at hin ⊢
  refine (hin.ranAlone (V.implies_also C id) hbody).mono ?_
  rintro m ℓ' r ⟨hQ, hran⟩
  cases r with
  | error e => exact Wp.implies hV (acts_giveUp e) hQ
  | ok a =>
    cases m with
    | outside | doomed => exact hQ.elim
    | inside q' st ws L =>
      obtain ⟨hd, rfl, ℓ₁, rfl, hsolo⟩ := hran q' st ws L rfl
      intro e he
      obtain ⟨h₁, h₂, h₃⟩ := hQ e he
      obtain ⟨e', hsolo⟩ := hsolo q.env
      refine ⟨⟨h₁, ?_⟩, h₂, fun hf => Wp.implies hV (acts_giveUp _) (h₃ hf)⟩
      rw [List.append_assoc, List.singleton_append]
      refine hC ⟨q'.data, e⟩ _ _ _ _ a e' ?_
      rw [hd]
      exact hsolo.transaction χ e

/-- What a program in a solo run relies on: nobody changes the data, requests may fail. -/
def relySolo : Rely B := Rely.alone (fun _ _ => True) (fun _ => trivial) (fun _ _ => trivial) fun
  | .ext _ => true
  | _ => false

/-- A verified program stays so in its solo runs. What was proved of it among others is so known of
it alone. -/
theorem Wp.solo {Q : Mode B → List (Event S ε) → Except ε α → Prop} {p p' : Prog S ε α} {m : Mode B}
    {ℓ ℓ' : List (Event S ε)} {w w' : World B} (h : p.Wp I relySolo V Q m ℓ)
    (hw : m.World (fun _ _ => True) w) (hs : Solo p w ℓ' p' w') :
    ∃ m', m'.World (fun _ _ => True) w' ∧ p'.Wp I relySolo V Q m' (ℓ ++ ℓ') := by
  have hlater : ∀ (q : Seen B) e, (relySolo : Rely B).Later q ⟨q.data, e⟩ :=
    fun q e => ⟨rfl, trivial, trivial, trivial⟩
  have henv : ∀ e e' : B.Env, (relySolo : Rely B).EnvLater e e' := fun _ _ => ⟨trivial, trivial⟩
  induction hs generalizing m ℓ with
  | refl => exact ⟨m, hw, by rwa [List.append_nil]⟩
  | @failed x k _ w _ _ _ ih =>
    rw [List.append_cons]
    cases m with
    | outside q =>
      cases hw
      exact ih ((h _ (hlater q q.env)).2.2 rfl) rfl
    | inside q st ws L =>
      obtain ⟨e, -, rfl⟩ := hw
      exact ih ((h _ (henv q.env e)).2.2 rfl) ⟨e, trivial, rfl⟩
    | doomed => exact h.elim
  | @act p p₁ _ ev w w₁ _ _ χ e hstep _ ih =>
    rw [List.append_cons]
    suffices ∃ m', m'.World (fun _ _ => True) w₁ ∧ p₁.Wp I relySolo V Q m' (ℓ ++ [ev]) by
      obtain ⟨m', hw', h'⟩ := this
      exact ih h' hw'
    cases p with
    | done => cases hstep
    | begin k =>
      cases hstep
      cases m with
      | outside q =>
        cases hw
        exact ⟨.inside ⟨q.data, e⟩ (B.stamp e) [] [], ⟨e, trivial, rfl⟩, h.1 _ (hlater q e)⟩
      | inside | doomed => exact h.elim
    | commit k =>
      cases hstep
      cases m with
      | inside q st ws L =>
        obtain ⟨e', -, rfl⟩ := hw
        exact ⟨.outside ⟨B.applyAll ws q.data, e⟩, rfl, (h _ (henv q.env e)).2.1⟩
      | outside | doomed => exact h.elim
    | rollback k =>
      cases hstep
      cases m with
      | inside q st ws L =>
        obtain ⟨e', -, rfl⟩ := hw
        exact ⟨.outside ⟨q.data, e⟩, rfl, h _ (henv q.env e) _ (.inl rfl)⟩
      | doomed q =>
        obtain ⟨e', tx, -, rfl⟩ := hw
        exact ⟨.outside ⟨q.data, e⟩, rfl, h _ (henv q.env e) _ (.inl rfl)⟩
      | outside => exact h.elim
    | ext x k =>
      cases hstep
      cases m with
      | outside q =>
        cases hw
        exact ⟨.outside ⟨q.data, (B.answer x χ e).2⟩, rfl, (h _ (hlater q e)).2.1 χ⟩
      | inside q st ws L =>
        obtain ⟨e', -, rfl⟩ := hw
        exact ⟨.inside ⟨q.data, (B.answer x χ e).2⟩ st ws L, ⟨_, trivial, rfl⟩,
          (h _ (henv q.env e)).2.1 χ⟩
      | doomed => exact h.elim
    | sql s k =>
      simp only [step] at hstep
      cases m with
      | outside q =>
        cases hw
        obtain ⟨-, h₂, h₃⟩ := h _ (hlater q e)
        split at hstep
        · next r ws hx =>
          cases hstep
          exact ⟨.outside ⟨B.applyAll ws q.data, e⟩, rfl, h₂ χ r ws hx⟩
        · next err hx =>
          cases hstep
          exact ⟨.outside ⟨q.data, e⟩, rfl, h₃ err (.inl ⟨χ, hx⟩)⟩
      | inside q st ws L =>
        obtain ⟨e', -, rfl⟩ := hw
        obtain ⟨-, h₂, h₃⟩ := h
        split at hstep
        · next r w hx =>
          cases hstep
          by_cases hr : I.Durable s r
          · exact ⟨.inside q st (ws ++ w) (L ++ B.needs s (B.applyAll ws q.data)),
              ⟨e, trivial, rfl⟩, (h₂ χ r w hx).1 hr⟩
          · exact ⟨.doomed q, ⟨e, _, trivial, rfl⟩, (h₂ χ r w hx).2 hr⟩
        · next err hx =>
          cases hstep
          exact ⟨.doomed q, ⟨e, _, trivial, rfl⟩, h₃ err (.inl ⟨χ, hx⟩)⟩
      | doomed => exact h.elim

end Prog

/-! ## Serial runs -/

namespace State

variable {κ α : Type}

/-- What a step commits: the call and the history, with the commit, of the thread whose transaction
it is. -/
def committed (s : State B κ α) : Label B κ → List (κ × List (Event S ε))
  | .run i _ => match s.threads[i]? with
    | some ⟨c, .commit _, ℓ, _⟩ => [(c, ℓ ++ [.commit (.ok ())])]
    | _ => []
  | _ => []

/-- The transactions a run commits, in order, each with its call and the history up to the commit.
-/
def commits (program : κ → Prog S ε α) (s : State B κ α) :
    List (Label B κ) → List (κ × List (Event S ε))
  | [] => []
  | l :: ls => match s.step program l with
    | none => []
    | some s' => s.committed l ++ s'.commits program ls

variable {I : Isolation B} {R : Rely B} {program : κ → Prog S ε α} {Vs : Nat → κ → Spec B}
  {As : Nat → κ → Answer B α} {s s' : State B κ α} {l : Label B κ}

/-- A thread serves a call that has come in. -/
theorem step_call (h : s.step program l = some s') {t : Thread B κ α} (ht : t ∈ s'.threads) :
    (∃ t₀ ∈ s.threads, t₀.call = t.call) ∨ l = .spawn t.call := by
  rcases step_cases h with ⟨c, rfl, rfl⟩ | ⟨χ, -, rfl⟩ | ⟨j, u, hj, hmove⟩
  · rcases List.mem_append.mp ht with ht | ht
    · exact .inl ⟨t, ht, rfl⟩
    · rw [List.mem_singleton.mp ht]
      exact .inr rfl
  · exact .inl ⟨t, ht, rfl⟩
  · obtain ⟨u', hs', hcall⟩ : ∃ u', s'.threads = s.threads.set j u' ∧ u'.call = u.call := by
      cases hmove with
      | run _ _ | interrupt _ => exact ⟨_, rfl, rfl⟩
      | crash => exact ⟨_, rfl, rfl⟩
    rw [hs'] at ht
    rcases List.mem_or_eq_of_mem_set ht with ht | rfl
    · exact .inl ⟨t, ht, rfl⟩
    · exact .inl ⟨u, List.mem_of_getElem? hj, hcall.symm⟩

/-- The thread whose transaction a step commits: the label runs it, and the commit ends its
history. -/
theorem thread_of_committed (h : s.step program l = some s') {c : κ} {ℓ : List (Event S ε)}
    (hc : s.committed l = [(c, ℓ)]) : ∃ i χ t', l = .run i χ ∧ s'.threads[i]? = some t' ∧
      t'.call = c ∧ t'.log = ℓ ∧ .commit (.ok ()) ∈ ℓ := by
  cases l with
  | spawn | tick | interrupt | crash => cases hc
  | run i χ =>
    obtain ⟨⟨c', prog, ℓ', tx⟩, p, ev, w, hi, hact, rfl⟩ := step_run h
    have hlt : i < s.threads.length := (List.getElem?_eq_some_iff.mp hi).1
    simp only [committed, hi] at hc
    cases prog with
    | commit k =>
      cases hact
      cases hc
      exact ⟨i, χ, _, rfl, List.getElem?_set_self hlt, rfl, rfl, List.mem_concat_self⟩
    | done | begin | rollback | sql | ext => cases hc

/-- A commit in a history is an old one, or this step's. By induction every commit of a run is
found at its step. -/
theorem commit_of_step (h : s.step program l = some s') {i : Nat} {t' : Thread B κ α}
    (hi : s'.threads[i]? = some t') (hm : .commit (.ok ()) ∈ t'.log) :
    (∃ t, s.threads[i]? = some t ∧ t.call = t'.call ∧ .commit (.ok ()) ∈ t.log) ∨
      (∃ χ, l = .run i χ) ∧ s.committed l = [(t'.call, t'.log)] := by
  have hset : ∀ {j u u'}, s.threads[j]? = some u → (s.threads.set j u')[i]? = some t' →
      u'.call = u.call → (.commit (.ok ()) ∈ u'.log → .commit (.ok ()) ∈ u.log) →
      ∃ t, s.threads[i]? = some t ∧ t.call = t'.call ∧ .commit (.ok ()) ∈ t.log := by
    intro j u u' hj hi hcall hlog
    have hlt : j < s.threads.length := (List.getElem?_eq_some_iff.mp hj).1
    by_cases hij : j = i
    · subst hij
      rw [List.getElem?_set_self hlt] at hi
      cases hi
      exact ⟨u, hj, hcall.symm, hlog hm⟩
    · rw [List.getElem?_set_ne hij] at hi
      exact ⟨t', hi, rfl, hm⟩
  cases l with
  | spawn c =>
    cases h
    rcases getElem?_concat_some hi with hi | ⟨-, rfl⟩
    · exact .inl ⟨t', hi, rfl, hm⟩
    · cases hm
  | tick χ =>
    cases h
    exact .inl ⟨t', hi, rfl, hm⟩
  | crash j =>
    obtain ⟨u, hj, h⟩ := Option.bind_eq_some_iff.mp h
    cases h
    exact .inl (hset hj hi rfl id)
  | interrupt j =>
    obtain ⟨u, hj, h⟩ := Option.bind_eq_some_iff.mp h
    obtain ⟨⟨p, ev, w⟩, hout, rfl⟩ := Option.map_eq_some_iff.mp h
    refine .inl (hset hj hi rfl fun hm => ?_)
    refine (List.mem_append.mp hm).resolve_right fun hev => ?_
    rw [← List.mem_singleton.mp hev] at hout
    generalize u.prog = prog at hout
    cases prog <;> cases hout
  | run j χ =>
    obtain ⟨⟨c, prog, ℓ, tx⟩, p, ev, w, hj, hact, rfl⟩ := step_run h
    by_cases hev : ev = .commit (.ok ())
    · subst hev
      cases prog with
      | commit k =>
        by_cases hij : j = i
        · subst hij
          have hlt : j < s.threads.length := (List.getElem?_eq_some_iff.mp hj).1
          obtain rfl := Option.some.inj (hi.symm.trans (List.getElem?_set_self hlt))
          exact .inr ⟨⟨χ, rfl⟩, by simp only [committed, hj]⟩
        · exact .inl ⟨t', (List.getElem?_set_ne hij).symm.trans hi, rfl, hm⟩
      | sql st k =>
        simp only [Prog.step] at hact
        split at hact <;> cases hact
      | done | begin | rollback | ext => cases hact
    · refine .inl (hset hj hi rfl fun hm => ?_)
      exact (List.mem_append.mp hm).resolve_right fun hm => hev (List.mem_singleton.mp hm).symm

/-- A thread whose answer follows its commit at once had answered before, or this step commits.
There is no state between the commit and the answer. -/
theorem answered_of_step (h : s.step program l = some s') {i : Nat} {t' : Thread B κ α}
    (hi : s'.threads[i]? = some t') {a : α} (ha : t'.result? = some (.ok a))
    {ℓ : List (Event S ε)} (hℓ : t'.log = ℓ ++ [.commit (.ok ())]) (hno : .commit (.ok ()) ∉ ℓ) :
    s.threads[i]? = some t' ∨
      (∃ χ, l = .run i χ) ∧ s.committed l = [(t'.call, t'.log)] := by
  rcases commit_of_step h hi (hℓ ▸ List.mem_concat_self) with ⟨t, hit, -, hm⟩ | hc
  swap
  · exact .inr hc
  refine .inl ?_
  have hlt : i < s.threads.length := (List.getElem?_eq_some_iff.mp hit).1
  rcases step_cases h with ⟨c, -, rfl⟩ | ⟨χ, -, rfl⟩ | ⟨j, u, hj, hmove⟩
  · exact (List.getElem?_append_left hlt).symm.trans hi
  · exact hi
  by_cases hij : j = i
  · subst hij
    cases hj.symm.trans hit
    cases hmove with
    | run | interrupt =>
      obtain rfl := Option.some.inj ((List.getElem?_set_self hlt).symm.trans hi)
      obtain ⟨rfl, -⟩ := List.append_inj' hℓ rfl
      exact absurd hm hno
    | crash =>
      obtain rfl := Option.some.inj ((List.getElem?_set_self hlt).symm.trans hi)
      cases ha
  · cases hmove with
    | run | interrupt | crash => exact (List.getElem?_set_ne hij).symm.trans hi

/-- What holds of every act of the threads that start after a state, and goes on to hold as the data
move, holds of their histories. -/
theorem Reaches.new_histories {P : κ → List (Event S ε) → B.Data → Prop}
    (hv : Verified I R program Vs As) (h : Reaches program s s') (hs : Isolated I R Vs As s)
    (hstart : ∀ c d, P c [] d) (hmono : ∀ c ℓ d d', R.data d d' → P c ℓ d → P c ℓ d')
    (hact : ∀ (u : State B κ α) (i : Nat) t ev w, Reaches program s u → Isolated I R Vs As u →
      u.threads[i]? = some t → P t.call t.log u.data → u.Acts t ev w → R.data u.data w.data →
      P t.call (t.log ++ [ev]) w.data) {i : Nat} {t : Thread B κ α} (new : s.threads.length ≤ i)
    (hi : s'.threads[i]? = some t) : P t.call t.log s'.data := by
  suffices Reaches program s s' ∧ Isolated I R Vs As s' ∧ ∀ (i : Nat) (t : Thread B κ α),
      s.threads.length ≤ i → s'.threads[i]? = some t → P t.call t.log s'.data from
    this.2.2 i t new hi
  refine h.invariant (I := fun u => Reaches program s u ∧ Isolated I R Vs As u ∧
    ∀ (i : Nat) (t : Thread B κ α), s.threads.length ≤ i → u.threads[i]? = some t →
      P t.call t.log u.data) ⟨.refl _, hs, fun i t hi ht => ?_⟩ ?_
  · exact absurd (List.getElem?_eq_some_iff.mp ht).1 (Nat.not_lt.mpr hi)
  rintro u l u' ⟨hreach, hu, hP⟩ hst
  obtain ⟨hu', hl⟩ := hu.step hv hst
  refine ⟨hreach.tail hst, hu', fun i t new hi => ?_⟩
  rcases step_cases hst with ⟨c, -, rfl⟩ | ⟨χ, -, rfl⟩ | ⟨j, t₀, hj, hmove⟩
  · rcases getElem?_concat_some hi with hi | ⟨-, rfl⟩
    · exact hP i t new hi
    · exact hstart c _
  · exact hP i t new hi
  have hlt : j < u.threads.length := (List.getElem?_eq_some_iff.mp hj).1
  have hacts : ∀ p ev w, u.Acts t₀ ev w → R.data u.data w.data →
      (u.threads.set j ⟨t₀.call, p, t₀.log ++ [ev], w.tx⟩)[i]? = some t →
        P t.call t.log w.data := by
    intro p ev w hw hd hi
    by_cases hij : j = i
    · subst hij
      obtain rfl := Option.some.inj ((List.getElem?_set_self hlt).symm.trans hi)
      exact hact u j t₀ ev w hreach hu hj (hP j t₀ new hj) hw hd
    · rw [List.getElem?_set_ne hij] at hi
      exact hmono _ _ _ _ hd (hP i t new hi)
  cases hmove with
  | @run χ out _ hout =>
    obtain ⟨p, ev, w⟩ := out
    exact hacts p ev w (.run hout) hl.data hi
  | @interrupt out hout =>
    obtain ⟨p, ev, w⟩ := out
    exact hacts p ev w (.interrupt hout) hl.data hi
  | crash =>
    by_cases hij : j = i
    · subst hij
      obtain rfl := Option.some.inj ((List.getElem?_set_self hlt).symm.trans hi)
      exact hP j t₀ new hj
    · rw [List.getElem?_set_ne hij] at hi
      exact hP i t new hi

/-- Thread `i`, which serves `c` and has seen `ℓ` so far, sees the event in a step from `m` to
`m'`: the place in a run that an event of a history comes from. -/
structure SeesIn (i : Nat) (c : κ) (ℓ : List (Event S ε)) (ev : Event S ε) (m m' : State B κ α) :
    Prop where
  thread : ∃ t p w, m.threads[i]? = some t ∧ t.call = c ∧ t.log = ℓ ∧ m.Acts t ev w ∧
    Move m i t m' ∧ m' = m.resume i t (p, ev, w)

/-- Every event in the history of a thread that has started since happened at a moment of the run:
the thread had seen what comes before the event in its history, and saw the event next. -/
theorem Reaches.seen_in (h : Reaches program s s') {i : Nat} {t : Thread B κ α}
    (new : s.threads.length ≤ i) (hi : s'.threads[i]? = some t) {ℓ : List (Event S ε)}
    {ev : Event S ε} (hev : ℓ ++ [ev] <+: t.log) :
    ∃ m m', Reaches program s m ∧ SeesIn i t.call ℓ ev m m' ∧ Reaches program m' s' := by
  induction h generalizing t with
  | refl => exact absurd (List.getElem?_eq_some_iff.mp hi).1 (Nat.not_lt.mpr new)
  | @tail u u' hu hst ih =>
    obtain ⟨l, hl⟩ := hst
    -- an event that the thread had seen before the step
    have hold : ∀ {t₀ : Thread B κ α}, u.threads[i]? = some t₀ → t₀.call = t.call →
        ℓ ++ [ev] <+: t₀.log →
          ∃ m m', Reaches program s m ∧ SeesIn i t.call ℓ ev m m' ∧ Reaches program m' u' := by
      intro t₀ h₀ hcall hev₀
      obtain ⟨m, m', hm, hsees, hm'⟩ := ih h₀ hev₀
      exact ⟨m, m', hm, hcall ▸ hsees, hm'.tail hl⟩
    rcases step_cases hl with ⟨c, -, rfl⟩ | ⟨χ, -, rfl⟩ | ⟨j, t₀, hj, hmove⟩
    · rcases getElem?_concat_some hi with hi | ⟨-, rfl⟩
      · exact hold hi rfl hev
      · exact absurd (List.prefix_nil.mp hev) (by simp)
    · exact hold hi rfl hev
    have hlt : j < u.threads.length := (List.getElem?_eq_some_iff.mp hj).1
    by_cases hij : j = i
    swap
    · cases hmove with
      | run | interrupt | crash => exact hold ((List.getElem?_set_ne hij).symm.trans hi) rfl hev
    subst hij
    have hacts : ∀ {p ev' w}, u.Acts t₀ ev' w → Move u j t₀ u' →
        u' = u.resume j t₀ (p, ev', w) →
          ∃ m m', Reaches program s m ∧ SeesIn j t.call ℓ ev m m' ∧ Reaches program m' u' := by
      rintro p ev' w hw hmove rfl
      obtain rfl := Option.some.inj ((List.getElem?_set_self hlt).symm.trans hi)
      rcases List.prefix_concat_iff.mp hev with heq | hev
      · obtain ⟨hlog, hev'⟩ := List.append_inj' heq rfl
        cases hev'
        exact ⟨u, _, hu, ⟨t₀, p, w, hj, rfl, hlog.symm, hw, hmove, rfl⟩, .refl _⟩
      · exact hold hj rfl hev
    cases hmove with
    | @run χ out hfree hout =>
      obtain ⟨p, ev', w⟩ := out
      exact hacts (.run hout) (.run hfree hout) rfl
    | @interrupt out hout =>
      obtain ⟨p, ev', w⟩ := out
      exact hacts (.interrupt hout) (.interrupt hout) rfl
    | crash =>
      obtain rfl := Option.some.inj ((List.getElem?_set_self hlt).symm.trans hi)
      exact hold hj rfl hev

/-- Only a statement outside a transaction that succeeds, and a commit, move the data. Every other
act of a thread leaves the tables as they are. -/
theorem Acts.data {t : Thread B κ α} {ev : Event S ε} {w : World B} (h : s.Acts t ev w) :
    w.data = s.data ∨ ev = .commit (.ok ()) ∨ t.tx = none ∧ ∃ st χ r ws, ev = .sql st (.ok r) ∧
      B.exec st χ (B.stamp s.env) s.data = .ok (r, ws) ∧ w.data = B.applyAll ws s.data := by
  obtain ⟨c, prog, ℓ, tx⟩ := t
  cases h with
  | @run χ p h =>
    cases prog with
    | done => cases h
    | begin k | rollback k | ext x k =>
      cases h
      exact .inl rfl
    | commit k =>
      cases h
      exact .inr (.inl rfl)
    | sql st k =>
      simp only [Prog.step] at h
      split at h
      · next r ws hx =>
        cases h
        cases tx with
        | none => exact .inr (.inr ⟨rfl, st, χ, r, ws, rfl, hx, rfl⟩)
        | some tx => exact .inl rfl
      · cases h
        exact .inl rfl
  | @interrupt p h =>
    cases prog with
    | done => cases h
    | begin k | commit k | rollback k | sql st k | ext x k =>
      cases h
      exact .inl rfl

/-- A commit that succeeds has met its obligation, and puts its writes in the data. What was
required of commits is thereby true of the step that changes the tables. -/
theorem Acts.commit {i : Nat} {t : Thread B κ α} {w : World B}
    (h : s.Acts t (.commit (.ok ())) w) (hs : Isolated I R Vs As s)
    (hi : s.threads[i]? = some t) :
    ∃ tx, t.tx = some tx ∧ (Vs i t.call).commit s.seen t.log tx.stamp tx.writes tx.locks ∧
      w.data = B.applyAll tx.writes s.data := by
  have hok := hs.thread i t hi
  obtain ⟨c, prog, ℓ, tx⟩ := t
  cases h with
  | @run χ p h =>
    cases prog with
    | commit k =>
      cases h
      cases tx with
      | none =>
        obtain ⟨p, -, hw⟩ := hok.outside rfl
        exact hw.elim
      | some tx =>
        obtain ⟨k', hk⟩ | ⟨e, he, hw⟩ := hok.inside rfl
        · cases hk
        · exact ⟨tx, rfl, (hw s.env he).1, rfl⟩
    | sql st k =>
      simp only [Prog.step] at h
      split at h <;> cases h
    | done | begin | rollback | ext => cases h
  | @interrupt p h => cases prog <;> cases h

/-- The writes of an open transaction are those of the statements in the thread's history: a write
that no statement of a kind makes shows that another one ran. -/
theorem Reaches.writes {O : S.Stmt → Prop} {P : B.Write → Prop}
    (hO : ∀ st χ stamp d r ws, O st → B.exec st χ stamp d = .ok (r, ws) → ∀ w ∈ ws, P w)
    (h : Reaches program s s') (hs : s.threads = []) : ∀ t ∈ s'.threads, ∀ tx, t.tx = some tx →
      (∀ w ∈ tx.writes, P w) ∨ ∃ st r, ¬ O st ∧ Event.sql st (.ok r) ∈ t.log := by
  refine h.invariant (I := fun u => ∀ t ∈ u.threads, ∀ tx, t.tx = some tx →
    (∀ w ∈ tx.writes, P w) ∨ ∃ st r, ¬ O st ∧ Event.sql st (.ok r) ∈ t.log) ?_ ?_
  · rw [hs]
    exact fun t ht => absurd ht List.not_mem_nil
  intro u l u' hu hst t ht tx htx
  have hlonger : ∀ {t : Thread B κ α} {ev : Event S ε} {tx}, t ∈ u.threads → t.tx = some tx →
      (∀ w ∈ tx.writes, P w) ∨ ∃ st r, ¬ O st ∧ Event.sql st (.ok r) ∈ t.log ++ [ev] :=
    fun ht htx => (hu _ ht _ htx).imp_right fun h => h.imp fun _ h => h.imp fun _ h =>
      ⟨h.1, List.mem_append_left _ h.2⟩
  rcases step_cases hst with ⟨c, -, rfl⟩ | ⟨χ, -, rfl⟩ | ⟨i, t₀, hi, hmove⟩
  · rcases List.mem_append.mp ht with ht | ht
    · exact hu t ht tx htx
    · rw [List.mem_singleton.mp ht] at htx
      cases htx
  · exact hu t ht tx htx
  have ht₀ := List.mem_of_getElem? hi
  cases hmove with
  | @run χ out _ hout =>
    obtain ⟨p, ev, w⟩ := out
    rcases List.mem_or_eq_of_mem_set ht with ht | rfl
    · exact hu t ht tx htx
    generalize t₀.prog = prog at hout
    cases prog with
    | done => cases hout
    | begin k =>
      cases hout
      cases htx
      exact .inl fun w hw => absurd hw List.not_mem_nil
    | commit | rollback =>
      cases hout
      cases htx
    | ext x k =>
      cases hout
      exact hlonger ht₀ htx
    | sql st k =>
      simp only [Prog.step] at hout
      split at hout
      · next r ws hx =>
        cases hout
        obtain ⟨c, prog, ℓ, tx₀⟩ := t₀
        cases tx₀ with
        | none => cases htx
        | some tx₀ =>
          cases htx
          rcases hu _ ht₀ tx₀ rfl with hw | ⟨st', r', hst', hm⟩
          swap
          · exact .inr ⟨st', r', hst', List.mem_append_left _ hm⟩
          by_cases hopen : O st
          · refine .inl fun w hmem => ?_
            exact (List.mem_append.mp hmem).elim (hw w) (hO st _ _ _ r ws hopen hx w)
          · exact .inr ⟨st, r, hopen, List.mem_concat_self⟩
      · cases hout
        exact hlonger ht₀ htx
  | @interrupt out hout =>
    obtain ⟨p, ev, w⟩ := out
    rcases List.mem_or_eq_of_mem_set ht with ht | rfl
    · exact hu t ht tx htx
    generalize t₀.prog = prog at hout
    cases prog with
    | done => cases hout
    | rollback k =>
      cases hout
      cases htx
    | begin | commit | sql | ext =>
      cases hout
      exact hlonger ht₀ htx
  | crash =>
    rcases List.mem_or_eq_of_mem_set ht with ht | rfl
    · exact hu t ht tx htx
    · cases htx

/-- How a step changes the committed data: not at all, by a statement outside a transaction, or by a
commit. -/
inductive Changes (Vs : Nat → κ → Spec B) (s : State B κ α) (l : Label B κ) (d' : B.Data) :
    Prop where
  | same (data : d' = s.data) (committed : s.committed l = [])
  | outside {i t st χ r ws} (thread : s.threads[i]? = some t)
      (promise : (Vs i t.call).outside s.seen t.log st)
      (exec : B.exec st χ (B.stamp s.env) s.data = .ok (r, ws)) (data : d' = B.applyAll ws s.data)
      (committed : s.committed l = [])
  | commit {i t} {tx : Tx B} (thread : s.threads[i]? = some t)
      (promise : (Vs i t.call).commit s.seen t.log tx.stamp tx.writes tx.locks)
      (data : d' = B.applyAll tx.writes s.data)
      (committed : s.committed l = [(t.call, t.log ++ [.commit (.ok ())])])

/-- Only acts of verified threads change the data, and each such change is a commit or a single
statement that has met its obligation. -/
theorem changes (h : Isolated I R Vs As s) (hst : s.step program l = some s') :
    Changes Vs s l s'.data := by
  have hquiet : ∀ {i t}, s.threads[i]? = some t → (∀ k, t.prog ≠ .commit k) → ∀ χ,
      s.committed (.run i χ) = [] := by
    rintro i ⟨c, prog, ℓ, tx⟩ hi hne χ
    simp only [committed, hi]
    cases prog with
    | commit k => exact absurd rfl (hne k)
    | done | begin | rollback | sql | ext => rfl
  cases l with
  | spawn c =>
    cases hst
    exact .same rfl rfl
  | tick χ =>
    cases hst
    exact .same rfl rfl
  | interrupt i =>
    obtain ⟨t, hi, h'⟩ := Option.bind_eq_some_iff.mp hst
    obtain ⟨⟨p, ev, w⟩, hout, rfl⟩ := Option.map_eq_some_iff.mp h'
    refine .same ?_ rfl
    change w.data = s.data
    generalize t.prog = prog at hout
    cases prog <;> cases hout <;> rfl
  | crash i =>
    obtain ⟨t, hi, h'⟩ := Option.bind_eq_some_iff.mp hst
    cases h'
    exact .same rfl rfl
  | run i χ =>
    obtain ⟨t, p, ev, w, hi, hact, rfl⟩ := State.step_run hst
    have hok := h.thread i t hi
    obtain ⟨c, prog, ℓ, tx⟩ := t
    cases prog with
    | done => cases hact
    | begin | rollback | ext =>
      cases hact
      exact .same rfl (hquiet hi (fun k => by simp) χ)
    | commit k =>
      cases tx with
      | none =>
        obtain ⟨p, -, hw⟩ := hok.outside rfl
        exact hw.elim
      | some tx =>
        cases hact
        obtain ⟨k', hk⟩ | ⟨e, he, hw⟩ := hok.inside rfl
        · cases hk
        · exact .commit hi (hw s.env he).1 rfl (by simp [committed, hi])
    | sql st k =>
      have hnone := hquiet hi (fun k => by simp) χ
      simp only [Prog.step] at hact
      split at hact
      · next r ws hx =>
        cases hact
        cases tx with
        | some tx => exact .same rfl hnone
        | none =>
          obtain ⟨p, hl, hw⟩ := hok.outside rfl
          exact .outside hi (hw s.seen hl).1 hx rfl hnone
      · cases hact
        exact .same rfl hnone

/-- **Serial runs.** Where every commit of a verified system is one more transaction of a serial
run, and what is written outside transactions adds nothing to it, the committed data are those of
the serial run of the transactions committed, in the order of their commits. -/
theorem exec_commits {C : κ → Prop} (Serial : List (κ × List (Event S ε)) → B.Data → Prop)
    {ls : List (Label B κ)} (hv : Verified I R program Vs As) (hs : Isolated I R Vs As s)
    (h : s.exec program ls = some s') (hthreads : ∀ t ∈ s.threads, C t.call)
    (hcalls : ∀ c, .spawn c ∈ ls → C c)
    (outside : ∀ {i c p ℓ st χ r ws cs}, C c → (Vs i c).outside p ℓ st →
      B.exec st χ (B.stamp p.env) p.data = .ok (r, ws) → Serial cs p.data →
      Serial cs (B.applyAll ws p.data))
    (commit : ∀ {i c p ℓ st ws L cs}, C c → (Vs i c).commit p ℓ st ws L → Serial cs p.data →
      Serial (cs ++ [(c, ℓ ++ [.commit (.ok ())])]) (B.applyAll ws p.data))
    {cs : List (κ × List (Event S ε))} (hserial : Serial cs s.data) :
    Serial (cs ++ s.commits program ls) s'.data := by
  induction ls generalizing s cs with
  | nil =>
    cases h
    rwa [commits, List.append_nil]
  | cons l ls ih =>
    obtain ⟨s₁, hst, h⟩ := Option.bind_eq_some_iff.mp h
    rw [commits, hst, ← List.append_assoc]
    refine ih (hs.step hv hst).1 h (fun t ht => ?_) (fun c hc => hcalls c (.tail _ hc)) ?_
    · obtain ⟨t₀, ht₀, hcall⟩ | rfl := step_call hst ht
      · exact hcall ▸ hthreads t₀ ht₀
      · exact hcalls _ (.head _)
    · cases changes hs hst with
      | same data committed =>
        rwa [committed, List.append_nil, data]
      | outside thread promise exec data committed =>
        rw [committed, List.append_nil, data]
        exact outside (hthreads _ (List.mem_of_getElem? thread)) promise exec hserial
      | commit thread promise data committed =>
        rw [committed, data]
        exact commit (hthreads _ (List.mem_of_getElem? thread)) promise hserial

end State
end Transactional
