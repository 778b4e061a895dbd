import MiniOpenFX.Transactional.Solo

/-!
# What a history tells

A thread's history determines where its program stands. `Prog.Yields` is the part of the program
logic that speaks of little else: whatever the program's acts are answered, as long as it can happen
in a `Setting`, the program asks only for what the setting allows, and ends with a history and a
result that satisfy `Q`. A setting is what is taken for granted: of the committed data, of the
surroundings, and of the answers that turn up in histories. It holds of every thread of every run in
which these answers turn up (`State.Reaches.yields`), and of solo runs (`Prog.Yields.solo`).
-/

namespace Transactional

variable {S : Sig} {ε : Type} {B : Backend S ε}

variable (B) in
/-- What is taken for granted, and the requests that keep it so. A proof about what a program can
see chooses its setting and shows that the runs it is about stay in it. -/
structure Setting where
  data : B.Data → Prop
  env : B.Env → Prop
  /-- the events histories consist of -/
  event : Event S ε → Prop
  /-- the requests programs make -/
  asks : S.Ext → Prop
  apply : ∀ {d} w, data d → data (B.apply w d)
  tick : ∀ {e} χ, env e → env (B.tick χ e)
  answer : ∀ {e} x χ, asks x → event (.ext x (B.answer x χ e).1) → env e → env (B.answer x χ e).2

variable (B) in
/-- Nothing is taken for granted. -/
def Setting.free : Setting B where
  data _ := True
  env _ := True
  event _ := True
  asks _ := True
  apply _ := id
  tick _ := id
  answer _ _ _ _ := id

/-- What is taken for granted of the data survives the writes of a whole transaction: they are
applied one after the other. -/
theorem Setting.applyAll (W : Setting B) {d : B.Data} (ws : List B.Write) (h : W.data d) :
    W.data (B.applyAll ws d) := by
  induction ws generalizing d with
  | nil => exact h
  | cons w ws ih => exact ih (W.apply w h)

/-! ## Events -/

namespace Event

/-- The act of an event. -/
def act : Event S ε → Act S
  | .begin _ => .begin
  | .commit _ => .commit
  | .rollback _ => .rollback
  | .sql s _ => .sql s
  | .ext x _ => .ext x

/-- It can happen in the setting: some data and surroundings that are taken for granted answer the
act so. -/
def Possible (W : Setting B) (ev : Event S ε) : Prop :=
  W.event ev ∧ match ev with
    | .begin r | .commit r | .rollback r => r = .ok () ∨ r = .error B.broken
    | .sql s r => r = .error B.broken ∨ ∃ χ st d, W.data d ∧ (B.exec s χ st d).map Prod.fst = r
    | .ext x r => r = .error B.broken ∨ ∃ χ e, W.env e ∧ (B.answer x χ e).1 = r

end Event

/-- Whether a transaction is open after an event. A commit that fails leaves it open, a rollback
never does. -/
def Event.opens (o : Bool) : Event S ε → Bool
  | .begin (.ok ()) => true
  | .commit (.ok ()) | .rollback _ => false
  | .begin (.error _) | .commit (.error _) | .sql .. | .ext .. => o

/-- A transaction has begun and has not ended since. -/
def opened (ℓ : List (Event S ε)) : Bool := ℓ.foldl Event.opens false

/-- Acts inside a transaction leave it open. -/
theorem opened_append {ℓ ℓ' : List (Event S ε)} (h : ∀ ev ∈ ℓ', ev.act.Inner) :
    opened (ℓ ++ ℓ') = opened ℓ := by
  rw [opened, List.foldl_append, ← opened]
  generalize opened ℓ = o
  induction ℓ' with
  | nil => rfl
  | cons ev ℓ' ih =>
    have hev := h ev (.head _)
    cases ev with
    | begin | commit | rollback => exact hev.elim
    | sql | ext => exact ih fun ev hm => h ev (.tail _ hm)

namespace Prog

variable {α β : Type}

/-- Whatever its acts are answered, the program ends with `Q` of the history and the result. Of the
data it knows only what the setting takes for granted, so it holds among other threads, too. -/
def Yields (W : Setting B) (Q : List (Event S ε) → Except ε α → Prop) :
    List (Event S ε) → Prog S ε α → Prop
  | ℓ, .done r => Q ℓ r
  | ℓ, .begin k => ∀ r, (Event.begin r).Possible W → (k r).Yields W Q (ℓ ++ [.begin r])
  | ℓ, .commit k => ∀ r, (Event.commit r).Possible W → (k r).Yields W Q (ℓ ++ [.commit r])
  | ℓ, .rollback k => ∀ r, (Event.rollback r).Possible W → (k r).Yields W Q (ℓ ++ [.rollback r])
  | ℓ, .sql s k => ∀ r, (Event.sql s r).Possible W → (k r).Yields W Q (ℓ ++ [.sql s r])
  | ℓ, .ext x k => W.asks x ∧
    ∀ r, (Event.ext x r).Possible W → (k r).Yields W Q (ℓ ++ [.ext x r])

/-! ## Rules -/

section
variable {W : Setting B} {Q Q' : List (Event S ε) → Except ε α → Prop} {ℓ : List (Event S ε)}
  {p : Prog S ε α}

/-- A program that ends with `Q` ends with anything weaker. -/
theorem Yields.mono (h : p.Yields W Q ℓ) (hQ : ∀ ℓ r, Q ℓ r → Q' ℓ r) : p.Yields W Q' ℓ := by
  induction p generalizing ℓ with
  | done r => exact hQ _ _ h
  | begin k ih | commit k ih | rollback k ih | sql s k ih => exact fun r hr => ih r (h r hr)
  | ext x k ih => exact ⟨h.1, fun r hr => ih r (h.2 r hr)⟩

/-- What a program ends with for two reasons it ends with for both together, so that facts about
its endings can be proved one at a time. -/
theorem Yields.and (h : p.Yields W Q ℓ) (h' : p.Yields W Q' ℓ) :
    p.Yields W (fun ℓ r => Q ℓ r ∧ Q' ℓ r) ℓ := by
  induction p generalizing ℓ with
  | done r => exact ⟨h, h'⟩
  | begin k ih | commit k ih | rollback k ih | sql s k ih =>
      exact fun r hr => ih r (h r hr) (h' r hr)
  | ext x k ih => exact ⟨h.1, fun r hr => ih r (h.2 r hr) (h'.2 r hr)⟩

/-- The history goes on with events that can happen. With it a condition may leave out what the
setting rules out. -/
theorem Yields.possible (h : p.Yields W Q ℓ) (hℓ : ∀ ev ∈ ℓ, ev.Possible W) :
    p.Yields W (fun ℓ r => Q ℓ r ∧ ∀ ev ∈ ℓ, ev.Possible W) ℓ := by
  have hadd : ∀ {ℓ : List (Event S ε)} {ev}, (∀ ev ∈ ℓ, ev.Possible W) → ev.Possible W →
      ∀ ev' ∈ ℓ ++ [ev], ev'.Possible W := by
    intro ℓ ev hℓ hev
    rw [List.forall_mem_append, List.forall_mem_singleton]
    exact ⟨hℓ, hev⟩
  induction p generalizing ℓ with
  | done r => exact ⟨h, hℓ⟩
  | begin k ih | commit k ih | rollback k ih | sql s k ih =>
    exact fun r hr => ih r (h r hr) (hadd hℓ hr)
  | ext x k ih => exact ⟨h.1, fun r hr => ih r (h.2 r hr) (hadd hℓ hr)⟩

/-- The history goes on with acts the program can come to. It is the way to say that a history has
no act of some kind. -/
theorem Acts.yields {P : Act S → Prop} (hp : p.Acts P) (hasks : ∀ x, P (.ext x) → W.asks x) :
    p.Yields W (fun ℓ' _ => ∃ ℓ₁, ℓ' = ℓ ++ ℓ₁ ∧ ∀ ev ∈ ℓ₁, P ev.act) ℓ := by
  suffices ∀ ℓ₀ ℓ₁, ℓ = ℓ₀ ++ ℓ₁ → (∀ ev ∈ ℓ₁, P ev.act) →
      p.Yields W (fun ℓ' _ => ∃ ℓ₁, ℓ' = ℓ₀ ++ ℓ₁ ∧ ∀ ev ∈ ℓ₁, P ev.act) ℓ from
    this ℓ [] (List.append_nil ℓ).symm fun _ h => by cases h
  intro ℓ₀ ℓ₁ hℓ hℓ₁
  have hadd : ∀ {ℓ₁ : List (Event S ε)} {ev}, (∀ ev ∈ ℓ₁, P ev.act) → P ev.act →
      ∀ ev' ∈ ℓ₁ ++ [ev], P ev'.act := by
    intro ℓ₁ ev hℓ₁ hev
    rw [List.forall_mem_append, List.forall_mem_singleton]
    exact ⟨hℓ₁, hev⟩
  induction p generalizing ℓ ℓ₁ with
  | done r => exact ⟨ℓ₁, hℓ, hℓ₁⟩
  | begin k ih | commit k ih | rollback k ih | sql s k ih =>
    exact fun r _ => ih r (hp.2 r) (ℓ₁ ++ [_])
      (by rw [hℓ, List.append_assoc]) (by exact hadd hℓ₁ hp.1)
  | ext x k ih =>
    exact ⟨hasks x hp.1, fun r _ =>
      ih r (hp.2 r) (ℓ₁ ++ [_]) (by rw [hℓ, List.append_assoc]) (by exact hadd hℓ₁ hp.1)⟩

end

section
variable {W : Setting B} {ℓ : List (Event S ε)}

/-- A sequence ends with `Q` just if its first program ends with an error that does, or with a
value after which the second ends with `Q`. This is the rule that takes programs apart. -/
theorem yields_bind {Q : List (Event S ε) → Except ε β → Prop} {f : α → Prog S ε β}
    {p : Prog S ε α} : (p.bind f).Yields W Q ℓ ↔ p.Yields W (fun ℓ r => match r with
      | .ok a => (f a).Yields W Q ℓ
      | .error e => Q ℓ (.error e)) ℓ := by
  induction p generalizing ℓ with
  | done r => cases r <;> exact Iff.rfl
  | begin k ih | commit k ih | rollback k ih | sql s k ih => exact forall₂_congr fun r _ => ih r
  | ext x k ih => exact and_congr_right fun _ => forall₂_congr fun r _ => ih r

/-- A caught error is a value: the ending of the program is the ending of the attempt, as a result.
-/
theorem yields_attempt {Q : List (Event S ε) → Except ε (Except ε α) → Prop} {p : Prog S ε α} :
    p.attempt.Yields W Q ℓ ↔ p.Yields W (fun ℓ r => Q ℓ (.ok r)) ℓ := by
  induction p generalizing ℓ with
  | done r => exact Iff.rfl
  | begin k ih | commit k ih | rollback k ih | sql s k ih => exact forall₂_congr fun r _ => ih r
  | ext x k ih => exact and_congr_right fun _ => forall₂_congr fun r _ => ih r

/-- After an error of a transaction there is only the rollback. -/
theorem yields_giveUp {Q : List (Event S ε) → Except ε α → Prop} {e : ε}
    (lost : Q (ℓ ++ [.rollback (.error B.broken)]) (.error B.broken))
    (h : Q (ℓ ++ [.rollback (.ok ())]) (.error e)) : Prog.Yields W Q ℓ (.rollback fun
      | .ok () => fail e
      | .error e' => fail e') := by
  rintro r ⟨-, rfl | rfl⟩
  · exact h
  · exact lost

/-- A whole transaction: it commits, rolls back, or loses the connection. The body starts after the
event that opens it. -/
theorem yields_transaction {Q : List (Event S ε) → Except ε α → Prop} {body : Prog S ε α}
    (lost : ∀ ℓ', Q ℓ' (.error B.broken))
    (h : body.Yields W (fun ℓ r => match r with
      | .ok a => Q (ℓ ++ [.commit (.ok ())]) (.ok a)
      | .error e => Q (ℓ ++ [.rollback (.ok ())]) (.error e)) (ℓ ++ [.begin (.ok ())])) :
    (transaction body).Yields W Q ℓ := by
  rintro r ⟨-, rfl | rfl⟩
  swap
  · exact lost _
  refine yields_bind.mpr (yields_attempt.mpr (yields_bind.mpr (h.mono fun ℓ r hr => ?_)))
  cases r with
  | error e => exact yields_giveUp (lost _) hr
  | ok a =>
    rintro r ⟨-, rfl | rfl⟩
    · exact hr
    · exact yields_giveUp (lost _) (lost _)

/-- One statement and what follows it. -/
theorem yields_query {Q : List (Event S ε) → Except ε β → Prop} {s : S.Stmt}
    {f : S.StmtRes s → Prog S ε β}
    (h : ∀ a, (Event.sql s (.ok a)).Possible W → (f a).Yields W Q (ℓ ++ [.sql s (.ok a)]))
    (herr : ∀ e, (Event.sql s (.error e)).Possible W → Q (ℓ ++ [.sql s (.error e)]) (.error e)) :
    ((query s).bind f).Yields W Q ℓ
  | .ok a, hr => h a hr
  | .error e, hr => herr e hr

/-- One request and what follows it. -/
theorem yields_request {Q : List (Event S ε) → Except ε β → Prop} {x : S.Ext}
    {f : S.ExtRes x → Prog S ε β} (hasks : W.asks x)
    (h : ∀ a, (Event.ext x (.ok a)).Possible W → (f a).Yields W Q (ℓ ++ [.ext x (.ok a)]))
    (herr : ∀ e, (Event.ext x (.error e)).Possible W → Q (ℓ ++ [.ext x (.error e)]) (.error e)) :
    ((request x).bind f).Yields W Q ℓ := by
  refine ⟨hasks, fun r hr => ?_⟩
  cases r with
  | ok a => exact h a hr
  | error e => exact herr e hr

end

/-- What ends by returning a function of its result returns nothing else. -/
theorem yields_returns (p : Prog S ε α) (f : α → β) (ℓ : List (Event S ε)) :
    (p.bind fun a => .done (.ok (f a))).Yields (.free B) (fun _ r => ∀ b, r = .ok b → ∃ a, b = f a)
      ℓ := by
  induction p generalizing ℓ with
  | done r =>
    cases r with
    | ok a => exact fun b h => ⟨a, (Except.ok.inj h).symm⟩
    | error e => exact fun b h => by cases h
  | begin k ih | commit k ih | rollback k ih | sql s k ih => exact fun r _ => ih r _
  | ext x k ih => exact ⟨trivial, fun r _ => ih r _⟩

/-! ## Errors -/

/-- The program ends with no errors but those that satisfy `P`. Composite programs throw what their
parts do, so a service is done statement by statement. -/
def Throws (W : Setting B) (P : ε → Prop) (p : Prog S ε α) : Prop :=
  ∀ ℓ, p.Yields W (fun _ r => match r with
    | .ok _ => True
    | .error e => P e) ℓ

section
variable {W : Setting B} {P : ε → Prop}

/-- A sequence throws what its two programs throw. Whether the second one runs does not matter to
the bound. -/
theorem Throws.bind {p : Prog S ε α} {f : α → Prog S ε β} (hp : p.Throws W P)
    (hf : ∀ a, (f a).Throws W P) : (p.bind f).Throws W P := by
  refine fun ℓ => yields_bind.mpr ((hp ℓ).mono fun ℓ r hr => ?_)
  cases r with
  | ok a => exact hf a ℓ
  | error e => exact hr

/-- A query throws the errors that its statement can be answered with. -/
theorem throws_query {s : S.Stmt} (h : ∀ e, (Event.sql s (.error e)).Possible W → P e) :
    (query s : Prog S ε _).Throws W P := by
  intro ℓ r hr
  cases r with
  | ok a => trivial
  | error e => exact h e hr

/-- A request throws the errors that it can be answered with. -/
theorem throws_request {x : S.Ext} (hasks : W.asks x)
    (h : ∀ e, (Event.ext x (.error e)).Possible W → P e) :
    (request x : Prog S ε _).Throws W P := by
  refine fun ℓ => ⟨hasks, fun r hr => ?_⟩
  cases r with
  | ok a => trivial
  | error e => exact h e hr

end

/-! ## Runs -/

/-- The program performs an act, or the act fails: the two ways in which a thread moves its
program. -/
inductive Goes (p : Prog S ε α) (w : World B) (p' : Prog S ε α) (ev : Event S ε) (w' : World B) :
    Prop where
  | run {χ} (h : p.step χ w = some (p', ev, w'))
  | interrupt (h : p.interrupt w = some (p', ev, w'))

section
variable {W : Setting B} {Q : List (Event S ε) → Except ε α → Prop} {p p' : Prog S ε α}
  {w w' : World B} {ev : Event S ε} {ℓ ℓ' : List (Event S ε)}

/-- What the program sees is possible. -/
theorem Goes.possible (hp : p.Goes w p' ev w') (hdata : W.data w.data) (henv : W.env w.env)
    (hev : W.event ev) : ev.Possible W := by
  have hview : W.data w.view := by
    unfold World.view
    split
    · exact hdata
    · exact W.applyAll _ hdata
  cases hp with
  | interrupt hp =>
    cases p with
    | done => cases hp
    | begin | commit | rollback => cases hp; exact ⟨hev, .inr rfl⟩
    | sql | ext => cases hp; exact ⟨hev, .inl rfl⟩
  | @run χ hp =>
    cases p with
    | done => cases hp
    | begin | commit | rollback => cases hp; exact ⟨hev, .inl rfl⟩
    | ext x k => cases hp; exact ⟨hev, .inr ⟨χ, w.env, henv, rfl⟩⟩
    | sql s k =>
      simp only [step] at hp
      split at hp
      · next r ws hx =>
        cases hp
        exact ⟨hev, .inr ⟨χ, _, _, hview, by rw [hx]; rfl⟩⟩
      · next e hx =>
        cases hp
        exact ⟨hev, .inr ⟨χ, _, _, hview, by rw [hx]; rfl⟩⟩

/-- Where nothing is taken for granted, a program comes to an end: all of its acts may fail. So
every history that has begun has one that completes it. -/
theorem Yields.ends (h : p.Yields (.free B) Q ℓ) : ∃ ℓ' r, ℓ <+: ℓ' ∧ Q ℓ' r := by
  induction p generalizing ℓ with
  | done r => exact ⟨ℓ, r, List.prefix_refl ℓ, h⟩
  | begin k ih | commit k ih | rollback k ih =>
    obtain ⟨ℓ', r, hℓ, hQ⟩ := ih (.error B.broken) (h _ ⟨trivial, .inr rfl⟩)
    exact ⟨ℓ', r, (List.prefix_append _ _).trans hℓ, hQ⟩
  | sql s k ih =>
    obtain ⟨ℓ', r, hℓ, hQ⟩ := ih (.error B.broken) (h _ ⟨trivial, .inl rfl⟩)
    exact ⟨ℓ', r, (List.prefix_append _ _).trans hℓ, hQ⟩
  | ext x k ih =>
    obtain ⟨ℓ', r, hℓ, hQ⟩ := ih (.error B.broken) (h.2 _ ⟨trivial, .inl rfl⟩)
    exact ⟨ℓ', r, (List.prefix_append _ _).trans hℓ, hQ⟩

/-- After an act that the setting allows, what is left of a program still ends with `Q`, of the
history with that act. -/
theorem Yields.goes (h : p.Yields W Q ℓ) (hdata : W.data w.data) (henv : W.env w.env)
    (hev : W.event ev) (hp : p.Goes w p' ev w') : p'.Yields W Q (ℓ ++ [ev]) := by
  have hposs := hp.possible hdata henv hev
  cases hp with
  | interrupt hp =>
    cases p with
    | done => cases hp
    | begin | commit | rollback | sql => cases hp; exact h _ hposs
    | ext => cases hp; exact h.2 _ hposs
  | run hp =>
    cases p with
    | done => cases hp
    | begin | commit | rollback => cases hp; exact h _ hposs
    | ext => cases hp; exact h.2 _ hposs
    | sql s k =>
      simp only [step] at hp
      split at hp <;> cases hp <;> exact h _ hposs

/-- What is taken for granted of the surroundings goes on. -/
theorem Goes.env (hp : p.Goes w p' ev w') (h : W.env w.env) (hev : W.event ev)
    (hasks : ∀ x, ev.act = .ext x → W.asks x) : W.env w'.env := by
  cases hp with
  | interrupt hp =>
    cases p with
    | done => cases hp
    | begin | commit | rollback | sql | ext => cases hp; exact h
  | @run χ hp =>
    cases p with
    | done => cases hp
    | begin | commit | rollback => cases hp; exact h
    | ext x k => cases hp; exact W.answer x χ (hasks x rfl) hev h
    | sql s k =>
      simp only [step, World.record] at hp
      split at hp
      · cases hp
        split <;> exact h
      · cases hp
        exact h

/-- What is taken for granted of the committed data goes on. -/
theorem Goes.data (hp : p.Goes w p' ev w') (h : W.data w.data) : W.data w'.data := by
  cases hp with
  | interrupt hp =>
    cases p with
    | done => cases hp
    | begin | commit | rollback | sql | ext => cases hp; exact h
  | @run χ hp =>
    cases p with
    | done => cases hp
    | begin | rollback | ext => cases hp; exact h
    | commit =>
      cases hp
      simp only [World.committed, World.view]
      split
      · exact h
      · exact W.applyAll _ h
    | sql s k =>
      simp only [step, World.record] at hp
      split at hp
      · cases hp
        split
        · exact W.applyAll _ h
        · exact h
      · cases hp
        exact h

/-- A program that yields asks only for what the setting allows. -/
theorem Yields.asks (h : p.Yields W Q ℓ) (hp : p.Goes w p' ev w') {x : S.Ext}
    (hx : ev.act = .ext x) : W.asks x := by
  cases hp with
  | interrupt hp =>
    cases p with
    | done => cases hp
    | begin | commit | rollback | sql => cases hp; cases hx
    | ext y k =>
      cases hp
      cases hx
      exact h.1
  | @run χ hp =>
    cases p with
    | done => cases hp
    | begin | commit | rollback => cases hp; cases hx
    | sql s k =>
      simp only [step] at hp
      split at hp
      · cases hp
        cases hx
      · cases hp
        cases hx
    | ext y k =>
      cases hp
      cases hx
      exact h.1

/-- The history says whether a transaction is open: the last `begin` has been followed by a commit
or a rollback, or has not. -/
theorem Goes.opened (h : w.tx.isSome = opened ℓ) (hp : p.Goes w p' ev w') :
    w'.tx.isSome = Transactional.opened (ℓ ++ [ev]) := by
  rw [Transactional.opened, List.foldl_append, ← Transactional.opened, ← h]
  cases hp with
  | interrupt hp =>
    cases p with
    | done => cases hp
    | begin | commit | rollback | sql | ext => cases hp; rfl
  | @run χ hp =>
    cases p with
    | done => cases hp
    | begin | commit | rollback | ext => cases hp; rfl
    | sql s k =>
      simp only [step, World.record] at hp
      split at hp
      · cases hp
        split
        · next hnone => rw [hnone]; rfl
        · next tx hsome => rw [hsome]; rfl
      · cases hp
        rfl

/-- After a solo run, what is left of a program still ends with `Q`, of the whole history. It
carries what was proved of programs over to a prefix of a run. -/
theorem Yields.solo (h : p.Yields (.free B) Q ℓ) (hs : Solo p w ℓ' p' w') :
    p'.Yields (.free B) Q (ℓ ++ ℓ') := by
  induction hs generalizing ℓ with
  | refl => rwa [List.append_nil]
  | act e hstep _ ih =>
    rw [List.append_cons]
    exact ih (h.goes trivial trivial trivial (.run hstep))
  | failed _ ih =>
    rw [List.append_cons]
    exact ih (h.2 _ ⟨trivial, .inl rfl⟩)

end

end Prog

namespace State

variable {κ α : Type} {program : κ → Prog S ε α} {s s' : State B κ α} {W : Setting B}

/-- The events of every history are taken for granted. Runs in which the surroundings answer as
they like are not restricted otherwise. -/
def Shows (W : Setting B) (s : State B κ α) : Prop := ∀ t ∈ s.threads, ∀ ev ∈ t.log, W.event ev

/-- A step only adds to histories, so that what is taken for granted of their events afterwards was
so before. -/
theorem Shows.of_step {l : Label B κ} (h : s'.Shows W) (hst : s.step program l = some s') :
    s.Shows W := by
  intro t ht ev hev
  obtain ⟨i, hi⟩ := List.getElem?_of_mem ht
  obtain ⟨t', hi', -, hlog⟩ := step_thread hst hi
  exact h t' (List.mem_of_getElem? hi') ev (hlog.subset hev)

/-- What is taken for granted, and what holds of every thread by itself, goes on to hold if every
act keeps it. -/
theorem Reaches.threads {P : Nat → Thread B κ α → Prop} (h : Reaches program s s')
    (hdata : W.data s.data) (henv : W.env s.env) (hP : ∀ i t, s.threads[i]? = some t → P i t)
    (hshows : s'.Shows W) (spawn : ∀ i c, P i (.start program c))
    (act : ∀ (d : B.Data) e i t p ev w, W.data d → W.env e → W.event ev → P i t →
      t.prog.Goes ⟨d, e, t.tx⟩ p ev w →
      (∀ x, ev.act = .ext x → W.asks x) ∧ P i ⟨t.call, p, t.log ++ [ev], w.tx⟩)
    (crash : ∀ i t, P i t → P i ⟨t.call, .done (.error B.broken), t.log, none⟩) :
    W.data s'.data ∧ W.env s'.env ∧ ∀ i t, s'.threads[i]? = some t → P i t := by
  refine h.invariant (I := fun u => u.Shows W →
    W.data u.data ∧ W.env u.env ∧ ∀ i t, u.threads[i]? = some t → P i t)
    (fun _ => ⟨hdata, henv, hP⟩) ?_ hshows
  intro u l u' ih hst hshows
  obtain ⟨hdata, henv, hP⟩ := ih (hshows.of_step hst)
  have hset : ∀ {j v}, P j v → ∀ i t, (u.threads.set j v)[i]? = some t → P i t := by
    intro j v hv i t hi
    rw [List.getElem?_set] at hi
    split at hi
    · next hij =>
      split at hi
      · cases hi
        exact hij ▸ hv
      · cases hi
    · exact hP i t hi
  have hgoes : ∀ {j t p ev w}, u.threads[j]? = some t → t.prog.Goes (u.world t) p ev w →
    W.event ev →
      W.data w.data ∧ W.env w.env ∧
        ∀ i t', (u.threads.set j ⟨t.call, p, t.log ++ [ev], w.tx⟩)[i]? = some t' → P i t' := by
    intro j t p ev w hj hgo hev
    obtain ⟨hasks, hP'⟩ := act _ _ _ _ _ _ _ hdata henv hev (hP _ _ hj) hgo
    exact ⟨hgo.data hdata, hgo.env henv hev hasks, hset hP'⟩
  have hlast : ∀ {j t p ev w}, u.threads[j]? = some t → (u.resume j t (p, ev, w)).Shows W →
      W.event ev := by
    intro j t p ev w hj hshows
    have hlt : j < u.threads.length := (List.getElem?_eq_some_iff.mp hj).1
    exact hshows _ (List.mem_of_getElem? (List.getElem?_set_self hlt)) ev
      (List.mem_append_right _ (.head _))
  rcases step_cases hst with ⟨c, -, rfl⟩ | ⟨χ, -, rfl⟩ | ⟨j, t, hj, hmove⟩
  · refine ⟨hdata, henv, fun i t hi => ?_⟩
    rcases getElem?_concat_some hi with hi | ⟨-, rfl⟩
    · exact hP i t hi
    · exact spawn _ _
  · exact ⟨hdata, W.tick χ henv, hP⟩
  · cases hmove with
    | run _ h => exact hgoes hj (.run h) (hlast hj hshows)
    | interrupt h => exact hgoes hj (.interrupt h) (hlast hj hshows)
    | crash => exact ⟨hdata, henv, hset (crash _ _ (hP _ _ hj))⟩

/-- What a thread has seen since: its history goes on with what is possible from then on. -/
theorem Reaches.since (h : Reaches program s s') (hdata : W.data s.data) (henv : W.env s.env)
    (hevent : ∀ ev, W.event ev) (hasks : ∀ x, W.asks x) {i : Nat} {t : Thread B κ α}
    (hi : s'.threads[i]? = some t) : ∃ ℓ ℓ', t.log = ℓ ++ ℓ' ∧
      (ℓ = [] ∨ ∃ t₀, s.threads[i]? = some t₀ ∧ t₀.log = ℓ) ∧ ∀ ev ∈ ℓ', ev.Possible W := by
  refine (h.threads (P := fun i t => ∃ ℓ ℓ', t.log = ℓ ++ ℓ' ∧
    (ℓ = [] ∨ ∃ t₀, s.threads[i]? = some t₀ ∧ t₀.log = ℓ) ∧ ∀ ev ∈ ℓ', ev.Possible W) hdata henv
    (fun i t hi => ⟨t.log, [], by simp, .inr ⟨t, hi, rfl⟩, by simp⟩)
    (fun t _ ev _ => hevent ev) (fun i c => ⟨[], [], rfl, .inl rfl, by simp⟩) ?_
    fun i t h => h).2.2 i t hi
  rintro d e i t p ev w hd he hev ⟨ℓ, ℓ', hlog, hold, hposs⟩ hgo
  refine ⟨fun x _ => hasks x, ℓ, ℓ' ++ [ev], by simp [hlog], hold, fun ev' hm => ?_⟩
  rcases List.mem_append.mp hm with hm | hm
  · exact hposs ev' hm
  · exact List.mem_singleton.mp hm ▸ hgo.possible hd he hev

/-- What holds of every thread that has not disappeared: it has to hold of a thread that starts and
to be kept by its acts. -/
theorem Reaches.alive {P : Thread B κ α → Prop} (h : Reaches program s s') (hs : s.threads = [])
    (hdata : W.data s.data) (henv : W.env s.env) (hshows : s'.Shows W)
    (spawn : ∀ c, P (.start program c))
    (act : ∀ (d : B.Data) e t p ev w, W.data d → W.env e → W.event ev → P t →
      t.prog.Goes ⟨d, e, t.tx⟩ p ev w →
      (∀ x, ev.act = .ext x → W.asks x) ∧ P ⟨t.call, p, t.log ++ [ev], w.tx⟩) :
    W.data s'.data ∧ W.env s'.env ∧
      ∀ t ∈ s'.threads, t.prog = .done (.error B.broken) ∨ P t := by
  have hact : ∀ (d : B.Data) e (_ : Nat) t p ev w, W.data d → W.env e → W.event ev →
      (t.prog = .done (.error B.broken) ∨ P t) → t.prog.Goes ⟨d, e, t.tx⟩ p ev w →
      (∀ x, ev.act = .ext x → W.asks x) ∧
        (p = .done (.error B.broken) ∨ P ⟨t.call, p, t.log ++ [ev], w.tx⟩) := by
    rintro d e - t p ev w hd he hev (hdone | hP) hgo
    · rw [hdone] at hgo
      cases hgo with
      | run h | interrupt h => cases h
    · exact (act d e t p ev w hd he hev hP hgo).imp_right .inr
  obtain ⟨hd, he, hall⟩ := h.threads
    (P := fun _ t => t.prog = .done (.error B.broken) ∨ P t) hdata henv (by simp [hs]) hshows
    (fun _ c => .inr (spawn c)) hact fun _ _ _ => .inl rfl
  refine ⟨hd, he, fun t ht => ?_⟩
  obtain ⟨i, hi⟩ := List.getElem?_of_mem ht
  exact hall i t hi

/-- A call that has not disappeared stands where its program does: the rest of its program still
ends with `Q`, of the history it has. -/
theorem Reaches.standing {Q : κ → List (Event S ε) → Except ε α → Prop}
    (hQ : ∀ c, (program c).Yields W (Q c) []) (h : Reaches program s s') (hs : s.threads = [])
    (hdata : W.data s.data) (henv : W.env s.env) (hshows : s'.Shows W) :
    W.data s'.data ∧ W.env s'.env ∧ ∀ t ∈ s'.threads,
      t.prog = .done (.error B.broken) ∨ t.prog.Yields W (Q t.call) t.log :=
  h.alive (P := fun t => t.prog.Yields W (Q t.call) t.log) hs hdata henv hshows hQ
    fun _ _ _ _ _ _ hd he hev hP hgo => ⟨fun _ hx => hP.asks hgo hx, hP.goes hd he hev hgo⟩

theorem prog_of_result {t : Thread B κ α} {r : Except ε α} (hr : t.result? = some r) :
    t.prog = .done r := by
  unfold Thread.result? at hr
  split at hr
  · next hp => rw [hp, Option.some.inj hr]
  · cases hr

/-- A finished call has ended as its program does, or has disappeared. With it, facts about a
program become facts about every run. -/
theorem Reaches.yields {Q : κ → List (Event S ε) → Except ε α → Prop}
    (hQ : ∀ c, (program c).Yields W (Q c) []) (h : Reaches program s s') (hs : s.threads = [])
    (hdata : W.data s.data) (henv : W.env s.env) (hshows : s'.Shows W)
    {t : Thread B κ α} (ht : t ∈ s'.threads) {r : Except ε α} (hr : t.result? = some r) :
    r = .error B.broken ∨ Q t.call t.log r := by
  have hdone := prog_of_result hr
  rcases (h.standing hQ hs hdata henv hshows).2.2 t ht with hcrash | hy
  · rw [hdone] at hcrash
    cases hcrash
    exact .inl rfl
  · rw [hdone] at hy
    exact .inr hy

/-- Every history, also of a call that has disappeared, goes on to one that its program ends with.
What a complete history rules out is so ruled out of every history. -/
theorem Reaches.goes_on {Q : κ → List (Event S ε) → Except ε α → Prop}
    (hQ : ∀ c, (program c).Yields (.free B) (Q c) []) (h : Reaches program s s')
    (hs : s.threads = []) {t : Thread B κ α} (ht : t ∈ s'.threads) :
    ∃ ℓ r, t.log <+: ℓ ∧ Q t.call ℓ r := by
  obtain ⟨i, hi⟩ := List.getElem?_of_mem ht
  refine ((h.threads (W := .free B) (P := fun _ t => (∃ ℓ r, t.log <+: ℓ ∧ Q t.call ℓ r) ∧
    (t.prog = .done (.error B.broken) ∨ t.prog.Yields (.free B) (Q t.call) t.log)) trivial trivial
    (by simp [hs]) (fun _ _ _ _ => trivial) (fun _ c => ⟨(hQ c).ends, .inr (hQ c)⟩) ?_
    fun _ t h => ⟨h.1, .inl rfl⟩).2.2 i t hi).1
  rintro d e - t p ev w - - - ⟨-, hdone | hy⟩ hgo
  · rw [hdone] at hgo
    cases hgo with
    | run h | interrupt h => cases h
  · have hy := hy.goes (w := ⟨d, e, t.tx⟩) trivial trivial trivial hgo
    exact ⟨fun _ _ => trivial, hy.ends, .inr hy⟩

/-- In any state reached from one without threads, a thread that has not ended by losing its
connection is in a transaction just if its history says so. -/
theorem Reaches.opened (h : Reaches program s s') (hs : s.threads = []) {t : Thread B κ α}
    (ht : t ∈ s'.threads) :
    t.prog = .done (.error B.broken) ∨ t.tx.isSome = Transactional.opened t.log :=
  (h.alive (W := .free B) (P := fun t =>
    t.tx.isSome = Transactional.opened t.log) hs trivial trivial
    (fun _ _ _ _ => trivial) (fun _ => rfl)
    fun _ _ _ _ _ _ _ _ _ hP hgo => ⟨fun _ _ => trivial, hgo.opened hP⟩).2.2 t ht

end State
end Transactional
