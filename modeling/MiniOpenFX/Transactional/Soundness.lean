import MiniOpenFX.Transactional.Logic

/-!
# Verified programs in every interleaving

The soundness of `Prog.Wp` for the interleaved system. An open transaction stands, at any moment,
where running alone from its start on the data committed now would have brought it (`Stands`); a
commit of somebody else, which touches none of its locks, keeps that (`ThreadOk.transfer`). So each
thread of a reachable state still meets its obligations (`ThreadOk`), no two hold the same lock,
and every step of the system moves the committed data and the surroundings as the rely allows
(`Isolated.step`, `State.Reaches.isolated`). `ThreadOk.upgrade` lets a stronger rely take over in
the middle of a run.
-/

namespace Transactional

variable {S : Sig} {ε : Type} {B : Backend S ε}

section
variable {κ α : Type} {I : Isolation B} {R : Rely B}

/-- What a thread has to answer, given what it saw when it ended, its history and its result. -/
abbrev Answer (B : Backend S ε) (α : Type) := Seen B → List (Event S ε) → Except ε α → Prop

/-- A program ends outside a transaction, with an answer that satisfies `A`. -/
def Ends (A : Answer B α) (m : Mode B) (ℓ : List (Event S ε)) (r : Except ε α) : Prop :=
  ∃ p, m = .outside p ∧ A p ℓ r

/-- Where an open transaction stands. `K` are the data on which it would have come, running alone,
to the same point with the same writes and locks: writes of others that touch none of the locks
lead from `K` to `K`, and on each of `K` the rest of the program is verified. -/
structure Stands (I : Isolation B) (R : Rely B) (V : Spec B) (A : Answer B α) (p : Prog S ε α)
    (ℓ : List (Event S ε)) (tx : Tx B) (K : B.Data → Prop) (d₀ : B.Data) (e : B.Env) : Prop where
  keep : ∀ d vs, K d → (∀ v ∈ vs, ∀ r ∈ B.touches v, r ∉ tx.locks) → K (B.applyAll vs d)
  wp : ∀ d, K d → R.inv d → R.data d₀ d →
    p.Wp I R V (Ends A) (.inside ⟨d, e⟩ tx.stamp tx.writes tx.locks) ℓ
  touches : ∀ w ∈ tx.writes, ∀ r ∈ B.touches w, r ∈ tx.locks

/-- A thread is verified: it meets its obligations from here on. Inside a transaction it is about
to roll back, or stands where running alone on the data committed now would have brought it. -/
def ThreadOk (I : Isolation B) (R : Rely B) (V : Spec B) (A : Answer B α) (now : Seen B)
    (t : Thread B κ α) : Prop :=
  match t.tx with
  | none => ∃ p, R.Later p now ∧ t.prog.Wp I R V (Ends A) (.outside p) t.log
  | some tx =>
    (∃ p, R.Later p now ∧ t.prog.Wp I R V (Ends A) (.doomed p) t.log) ∨
      ∃ K d₀ e, Stands I R V A t.prog t.log tx K d₀ e ∧
        K now.data ∧ R.Later ⟨d₀, e⟩ now

variable {V : Spec B} {A : Answer B α}

/-- A program that can only roll back is about to, or has ended where it must not. The second is
excluded by `Ends`, so the rollback is the next act. -/
theorem wp_doomed {p : Prog S ε α} {q : Seen B} {ℓ : List (Event S ε)}
    (h : p.Wp I R V (Ends A) (.doomed q) ℓ) : ∃ k, p = .rollback k := by
  cases p with
  | rollback k => exact ⟨k, rfl⟩
  | done r => obtain ⟨_, h, _⟩ := Prog.wp_done.mp h; cases h
  | begin | commit | sql | ext => exact h.elim

/-- The rule at a point inside a transaction: the program is about to roll back, or it meets its
obligations over the data committed now. -/
theorem ThreadOk.inside {now : Seen B} {t : Thread B κ α} {tx : Tx B}
    (h : ThreadOk I R V A now t) (htx : t.tx = some tx) :
    (∃ k, t.prog = .rollback k) ∨ ∃ e, R.EnvLater e now.env ∧
      t.prog.Wp I R V (Ends A) (.inside ⟨now.data, e⟩ tx.stamp tx.writes tx.locks) t.log := by
  unfold ThreadOk at h
  rw [htx] at h
  rcases h with ⟨p, -, h⟩ | ⟨K, d₀, e, hs, hK, hl⟩
  · exact .inl (wp_doomed h)
  · exact .inr ⟨e, ⟨hl.env, hl.envInv⟩, hs.wp _ hK hl.inv hl.data⟩

/-- The rule outside a transaction: what is left of the program is verified at data and
surroundings that the current ones may have come from. -/
theorem ThreadOk.outside {now : Seen B} {t : Thread B κ α} (h : ThreadOk I R V A now t)
    (htx : t.tx = none) :
    ∃ p, R.Later p now ∧ t.prog.Wp I R V (Ends A) (.outside p) t.log := by
  unfold ThreadOk at h
  rwa [htx] at h

/-- A thread stays verified when the surroundings move and somebody else's writes are
committed. -/
theorem ThreadOk.transfer {now : Seen B} {t : Thread B κ α} (h : ThreadOk I R V A now t)
    (vs : List B.Write) (e' : B.Env) (hnow : R.Later now ⟨B.applyAll vs now.data, e'⟩)
    (hvs : ∀ v ∈ vs, ∀ r ∈ B.touches v, r ∉ t.locks) :
    ThreadOk I R V A ⟨B.applyAll vs now.data, e'⟩ t := by
  unfold ThreadOk at h ⊢
  unfold Thread.locks at hvs
  split
  · next htx =>
    rw [htx] at h
    obtain ⟨p, hp, h⟩ := h
    exact ⟨p, hp.trans hnow, h⟩
  · next tx htx =>
    rw [htx] at h hvs
    rcases h with ⟨p, hp, h⟩ | ⟨K, d₀, e, hs, hK, hl⟩
    · exact .inl ⟨p, hp.trans hnow, h⟩
    · exact .inr ⟨K, d₀, e, hs, hs.keep _ _ hK hvs, hl.trans hnow⟩

/-- One more statement of an open transaction, with a durable answer. The answer stays what it is
on all data that the transaction's locks allow. -/
theorem Stands.sql {s : S.Stmt} {k : Except ε (S.StmtRes s) → Prog S ε α}
    {ℓ : List (Event S ε)} {tx : Tx B} {K : B.Data → Prop} {d₀ d : B.Data} {e : B.Env}
    {χ : B.Choice} {r : S.StmtRes s} {w : List B.Write}
    (h : Stands I R V A (.sql s k) ℓ tx K d₀ e) (hK : K d)
    (hx : B.exec s χ tx.stamp (B.applyAll tx.writes d) = .ok (r, w)) (hr : I.Durable s r) :
    ∃ K', K' d ∧ Stands I R V A (k (.ok r)) (ℓ ++ [.sql s (.ok r)])
      ⟨tx.writes ++ w, tx.locks ++ B.needs s (B.applyAll tx.writes d), tx.stamp⟩ K' d₀ e := by
  refine ⟨fun d' => K d' ∧ B.exec s χ tx.stamp (B.applyAll tx.writes d') = .ok (r, w) ∧
    B.needs s (B.applyAll tx.writes d') = B.needs s (B.applyAll tx.writes d), ⟨hK, hx, rfl⟩,
    fun d' vs hd' hvs => ?_, fun d' hd' hinv hdd => ?_, fun v hv x hx' => ?_⟩
  · obtain ⟨hK', hx', hn⟩ := hd'
    have hag := I.agree_applyAll tx.writes (I.agree_applyAll_foreign d' hvs)
    obtain ⟨hx'', hn'⟩ :=
      I.exec_agree hag (fun x hx => List.mem_append_right _ (hn ▸ hx)) hx' hr
    exact ⟨h.keep d' vs hK' fun v hv r hr hm => hvs v hv r hr (List.mem_append_left _ hm), hx'',
      hn'.trans hn⟩
  · obtain ⟨hK', hx', hn⟩ := hd'
    have := ((h.wp d' hK' hinv hdd).2.1 χ r w hx').1 hr
    rw [hn] at this
    exact this
  · rcases List.mem_append.mp hv with hv | hv
    · exact List.mem_append_left _ (h.touches v hv x hx')
    · exact List.mem_append_right _ (I.touches_needs hx v hv x hx')

/-- What obligations mean for everybody else: the acts of a verified program move the data and the
surroundings as the rely allows. -/
structure Guarantees (R : Rely B) (V : Spec B) : Prop where
  outside : ∀ {p ℓ s χ r ws}, R.inv p.data → V.outside p ℓ s →
    B.exec s χ (B.stamp p.env) p.data = .ok (r, ws) → R.data p.data (B.applyAll ws p.data)
  commit : ∀ {p ℓ st ws L}, R.inv p.data → V.commit p ℓ st ws L →
    R.data p.data (B.applyAll ws p.data)
  request : ∀ {p ℓ x} χ, R.inv p.data → R.envInv p.env → V.request p ℓ x →
    R.env p.env (B.answer x χ p.env).2

/-- The same guarantees, to those who rely on less. Strengthening a rely so asks for new guarantees
only where it is stronger. -/
theorem Guarantees.mono {R' : Rely B} (h : Guarantees R V) (inv : ∀ {d}, R'.inv d → R.inv d)
    (envInv : ∀ {e}, R'.envInv e → R.envInv e) (data : ∀ {d d'}, R.data d d' → R'.data d d')
    (env : ∀ {e e'}, R.env e e' → R'.env e e') : Guarantees R' V where
  outside hd hV hx := data (h.outside (inv hd) hV hx)
  commit hd hV := data (h.commit (inv hd) hV)
  request χ hd he hV := env (h.request χ (inv hd) (envInv he) hV)

/-- What a verified thread does in one act: it moves the data and the surroundings as the rely
allows, it writes only what it holds or needs, and it stays verified. -/
structure Moved (I : Isolation B) (R : Rely B) (V : Spec B) (A : Answer B α) (now : Seen B)
    (t : Thread B κ α) (wants : List B.Resource) (now' : Seen B) (t' : Thread B κ α) : Prop where
  later : R.Later now now'
  writes : ∃ vs, now'.data = B.applyAll vs now.data ∧
    ∀ v ∈ vs, ∀ r ∈ B.touches v, r ∈ t.locks ∨ r ∈ wants
  ok : ThreadOk I R V A now' t'
  locks : ∀ r ∈ t'.locks, r ∈ t.locks ∨ r ∈ wants

variable {now : Seen B}

/-- An act that leaves the committed data alone. -/
theorem Moved.of_same {t t' : Thread B κ α} {wants : List B.Resource} {now' : Seen B}
    (later : R.Later now now') (same : now'.data = now.data) (ok : ThreadOk I R V A now' t')
    (locks : ∀ r ∈ t'.locks, r ∈ t.locks ∨ r ∈ wants) : Moved I R V A now t wants now' t' :=
  ⟨later, ⟨[], same, fun _ h => (List.not_mem_nil h).elim⟩, ok, locks⟩

/-- A thread outside a transaction holds nothing. -/
theorem Thread.holds_nothing {t : Thread B κ α} (h : t.tx = none) {P : B.Resource → Prop} :
    ∀ r ∈ t.locks, P r := by
  intro r hr
  rw [Thread.locks, h] at hr
  cases hr

/-- The data and surroundings right now. -/
def State.seen (s : State B κ α) : Seen B := ⟨s.data, s.env⟩

/-- The data and surroundings of a world. -/
def World.seen (w : World B) : Seen B := ⟨w.data, w.env⟩

/-- An act of a verified thread: it keeps the guarantees to the others and leaves the thread
verified. By cases on the act, each with its rule of the logic. -/
theorem ThreadOk.step {s : State B κ α} {t : Thread B κ α} {χ : B.Choice} {p : Prog S ε α}
    {ev : Event S ε} {w : World B} (hg : Guarantees R V) (hinv : R.inv s.data)
    (henv : R.envInv s.env) (h : ThreadOk I R V A s.seen t)
    (hs : t.prog.step χ (s.world t) = some (p, ev, w)) :
    Moved I R V A s.seen t (t.prog.wants (s.world t)) w.seen ⟨t.call, p, t.log ++ [ev], w.tx⟩ := by
  have hrefl : R.Later s.seen s.seen := ⟨R.data_refl _, R.env_refl _, hinv, henv⟩
  have hback : ∀ {q : Seen B}, R.Later q s.seen → R.Later ⟨q.data, s.env⟩ s.seen := fun hq =>
    ⟨hq.data, R.env_refl _, hinv, henv⟩
  have hext : ∀ {e : B.Env}, R.env s.env e → R.Later s.seen ⟨s.data, e⟩ := fun he =>
    ⟨R.data_refl _, he, hinv, R.env_inv he henv⟩
  obtain ⟨c, prog, log, tx⟩ := t
  cases tx with
  | none =>
    obtain ⟨q, hq, h⟩ := h.outside rfl
    cases prog with
    | done r => cases hs
    | begin k =>
      cases hs
      refine .of_same hrefl rfl (.inr ⟨fun _ => True, s.data, s.env,
        ⟨fun _ _ _ _ => trivial, fun d _ hd hdd => ?_, fun _ hw => (List.not_mem_nil hw).elim⟩,
        trivial, hrefl⟩)
        fun _ hr => (List.not_mem_nil hr).elim
      exact h.1 ⟨d, s.env⟩ ⟨R.data_trans hq.data hdd, hq.env, hd, henv⟩
    | commit k | rollback k => exact h.elim
    | ext x k =>
      cases hs
      obtain ⟨h₁, h₂, -⟩ := h s.seen hq
      have hl := hext (hg.request χ hinv henv h₁)
      exact .of_same hl rfl ⟨_, ⟨R.data_refl _, R.env_refl _, hl.inv, hl.envInv⟩, h₂ χ⟩
        (Thread.holds_nothing rfl)
    | sql st k =>
      obtain ⟨h₁, h₂, h₃⟩ := h s.seen hq
      simp only [Prog.step, State.world, World.view, World.stamp, World.record] at hs
      split at hs
      · next r ws hx =>
        cases hs
        have hd := hg.outside hinv h₁ hx
        have hl : R.Later s.seen ⟨B.applyAll ws s.data, s.env⟩ :=
          ⟨hd, R.env_refl _, R.data_inv hd hinv, henv⟩
        exact ⟨hl, ⟨ws, rfl, fun v hv r hr => .inr (I.touches_needs hx v hv r hr)⟩,
          ⟨_, ⟨R.data_refl _, R.env_refl _, hl.inv, henv⟩, h₂ χ r ws hx⟩, Thread.holds_nothing rfl⟩
      · next e hx =>
        cases hs
        exact .of_same hrefl rfl ⟨_, hrefl, h₃ e (.inl ⟨χ, hx⟩)⟩ (Thread.holds_nothing rfl)
  | some tx =>
    rcases h with ⟨q, hq, h⟩ | ⟨K, d₀, e, hst, hK, hl₀⟩
    · obtain ⟨k, rfl⟩ := wp_doomed h
      cases hs
      exact .of_same hrefl rfl ⟨_, hback hq, h _ ⟨hq.env, henv⟩ _ (.inl rfl)⟩
        (Thread.holds_nothing rfl)
    have h := hst.wp _ hK hinv hl₀.data
    have he : R.EnvLater e s.env := ⟨hl₀.env, henv⟩
    have hself : R.Later (⟨s.data, e⟩ : Seen B) s.seen := ⟨R.data_refl _, he.env, hinv, henv⟩
    cases prog with
    | done r => obtain ⟨_, h, -⟩ := Prog.wp_done.mp h; cases h
    | begin k => exact h.elim
    | commit k =>
      cases hs
      obtain ⟨h₁, h₂, -⟩ := h s.env he
      have hdd := hg.commit (p := s.seen) hinv h₁
      have hl : R.Later s.seen ⟨B.applyAll tx.writes s.data, s.env⟩ :=
        ⟨hdd, R.env_refl _, R.data_inv hdd hinv, henv⟩
      exact ⟨hl, ⟨tx.writes, rfl, fun v hv r hr => .inl (hst.touches v hv r hr)⟩,
        ⟨_, ⟨R.data_refl _, R.env_refl _, hl.inv, henv⟩, h₂⟩, Thread.holds_nothing rfl⟩
    | rollback k =>
      cases hs
      exact .of_same hrefl rfl ⟨_, hrefl, h _ he _ (.inl rfl)⟩ (Thread.holds_nothing rfl)
    | ext x k =>
      cases hs
      have hl := hext (hg.request χ (p := s.seen) hinv henv (h s.env he).1)
      refine .of_same hl rfl (.inr ⟨K, d₀, (B.answer x χ s.env).2,
        ⟨hst.keep, fun d hd hi hdd => ?_, hst.touches⟩, hK,
        ⟨hl₀.data, R.env_refl _, hinv, hl.envInv⟩⟩) fun _ hr => .inl hr
      exact (hst.wp d hd hi hdd s.env he).2.1 χ
    | sql st k =>
      obtain ⟨-, h₂, h₃⟩ := h
      simp only [Prog.step, State.world, World.view, World.stamp, World.record] at hs
      split at hs
      · next r ws hx =>
        cases hs
        refine .of_same hrefl rfl ?_ fun x hx => List.mem_append.mp hx
        by_cases hr : I.Durable st r
        · obtain ⟨K', hK', hst'⟩ := hst.sql hK hx hr
          exact .inr ⟨K', d₀, e, hst', hK', hl₀⟩
        · exact .inl ⟨_, hself, (h₂ _ _ _ hx).2 hr⟩
      · next err hx =>
        cases hs
        exact .of_same hrefl rfl (.inl ⟨_, hself, h₃ err (.inl ⟨χ, hx⟩)⟩) fun _ hr => .inl hr

/-- An act of a verified thread that fails without effect. -/
theorem ThreadOk.interrupt {s : State B κ α} {t : Thread B κ α} {p : Prog S ε α}
    {ev : Event S ε} {w : World B} (hfails : ∀ a, R.fails a)
    (hinv : R.inv s.data) (henv : R.envInv s.env) (h : ThreadOk I R V A s.seen t)
    (hs : t.prog.interrupt (s.world t) = some (p, ev, w)) :
    Moved I R V A s.seen t (t.prog.wants (s.world t)) w.seen ⟨t.call, p, t.log ++ [ev], w.tx⟩ := by
  have hrefl : R.Later s.seen s.seen := ⟨R.data_refl _, R.env_refl _, hinv, henv⟩
  have hback : ∀ {q : Seen B}, R.Later q s.seen → R.Later ⟨q.data, s.env⟩ s.seen := fun hq =>
    ⟨hq.data, R.env_refl _, hinv, henv⟩
  obtain ⟨c, prog, log, tx⟩ := t
  cases tx with
  | none =>
    obtain ⟨q, hq, h⟩ := h.outside rfl
    cases prog with
    | done r => cases hs
    | begin k =>
      cases hs
      exact .of_same hrefl rfl ⟨_, hrefl, h.2 (hfails _) _ hq⟩ (Thread.holds_nothing rfl)
    | commit k | rollback k => exact h.elim
    | ext x k =>
      cases hs
      exact .of_same hrefl rfl ⟨_, hrefl, (h _ hq).2.2 (hfails _)⟩ (Thread.holds_nothing rfl)
    | sql st k =>
      cases hs
      exact .of_same hrefl rfl ⟨_, hrefl, (h _ hq).2.2 _ (.inr ⟨hfails _, rfl⟩)⟩
        (Thread.holds_nothing rfl)
  | some tx =>
    rcases h with ⟨q, hq, h⟩ | ⟨K, d₀, e, hst, hK, hl₀⟩
    · obtain ⟨k, rfl⟩ := wp_doomed h
      cases hs
      exact .of_same hrefl rfl ⟨_, hback hq, h _ ⟨hq.env, henv⟩ _ (.inr ⟨hfails _, rfl⟩)⟩
        (Thread.holds_nothing rfl)
    have h := hst.wp _ hK hinv hl₀.data
    have he : R.EnvLater e s.env := ⟨hl₀.env, henv⟩
    have hself : R.Later (⟨s.data, e⟩ : Seen B) s.seen := ⟨R.data_refl _, he.env, hinv, henv⟩
    cases prog with
    | done r => obtain ⟨_, h, -⟩ := Prog.wp_done.mp h; cases h
    | begin k => exact h.elim
    | commit k =>
      cases hs
      exact .of_same hrefl rfl (.inl ⟨_, hrefl, (h s.env he).2.2 (hfails _)⟩) fun _ hr => .inl hr
    | rollback k =>
      cases hs
      exact .of_same hrefl rfl ⟨_, hrefl, h _ he _ (.inr ⟨hfails _, rfl⟩)⟩
        (Thread.holds_nothing rfl)
    | ext x k =>
      cases hs
      refine .of_same hrefl rfl (.inr ⟨K, d₀, s.env, ⟨hst.keep, fun d hd hi hdd => ?_,
        hst.touches⟩, hK, ⟨hl₀.data, R.env_refl _, hinv, henv⟩⟩) fun _ hr => .inl hr
      exact (hst.wp d hd hi hdd s.env he).2.2 (hfails _)
    | sql st k =>
      cases hs
      exact .of_same hrefl rfl (.inl ⟨_, hself, h.2.2 _ (.inr ⟨hfails _, rfl⟩)⟩)
        fun _ hr => .inl hr

/-- A stronger rely takes over: a verified thread whose history satisfies `H` is verified against
it. -/
theorem ThreadOk.upgrade {R' : Rely B} {V' : Spec B} {A' : Answer B α}
    {H : List (Event S ε) → Prop} {t : Thread B κ α} (u : Prog.Upgrade R R' V V' H)
    (hA : ∀ p ℓ r, H ℓ → A p ℓ r → A' p ℓ r)
    (hlater : ∀ p q ℓ r, R.Later p q → A' p ℓ r → A' q ℓ r) (hH : H t.log)
    (hinv : R'.inv now.data) (henv : R'.envInv now.env) (h : ThreadOk I R V A now t) :
    ThreadOk I R' V' A' now t := by
  have hrefl : R'.Later now now := ⟨R'.data_refl _, R'.env_refl _, hinv, henv⟩
  -- first forget what `A` says beyond `A'`, then move to now, then change the rely
  have hmove : ∀ {p : Prog S ε α} {m m' : Mode B}, p.Wp I R V (Ends A) m t.log →
      Prog.Mode.Later R m m' → Prog.DataOk R' m' → p.Wp I R' V' (Ends A') m' t.log := by
    intro p m m' hw hm hd
    refine Prog.Wp.upgrade u (H := H) (Q := Ends (fun p ℓ r => H ℓ → A' p ℓ r)) ?_
      (Prog.Wp.later ?_ (hw.mono ?_) hm) hd hH
    · rintro m ℓ r hℓ ⟨p, rfl, ha⟩
      exact ⟨p, rfl, ha hℓ⟩
    · rintro m m' ℓ r hl ⟨p, rfl, ha⟩
      cases hl with
      | outside hp => exact ⟨_, rfl, fun hℓ => hlater _ _ _ _ hp (ha hℓ)⟩
    · rintro m ℓ r ⟨p, rfl, ha⟩
      exact ⟨p, rfl, fun hℓ => hA _ _ _ hℓ ha⟩
  unfold ThreadOk at h ⊢
  split
  · next htx =>
    rw [htx] at h
    obtain ⟨p, hp, hw⟩ := h
    exact ⟨now, hrefl, hmove hw (.outside hp) trivial⟩
  · next tx htx =>
    rw [htx] at h
    rcases h with ⟨p, hp, hw⟩ | ⟨K, d₀, e, hs, hK, hl⟩
    · exact .inl ⟨now, hrefl, hmove hw (.doomed hp) trivial⟩
    · refine .inr ⟨K, now.data, now.env, ⟨hs.keep, fun d hd hi hdd => ?_, hs.touches⟩, hK, hrefl⟩
      exact hmove (hs.wp d hd (u.inv hi) (R.data_trans hl.data (u.data hdd)))
        (.inside (u.inv hi) ⟨hl.env, hl.envInv⟩) hi

/-! ## The system -/

/-- A system is verified: the calls meet their obligations from every state of the invariant, the
obligations are what the rely promises to everybody else, and the rely tolerates the surroundings
and every failure. Obligations and answers can depend on the thread and on its call. -/
structure Verified (I : Isolation B) (R : Rely B) (program : κ → Prog S ε α)
    (V : Nat → κ → Spec B) (A : Nat → κ → Answer B α) : Prop where
  guarantees : ∀ i c, Guarantees R (V i c)
  fails : ∀ a, R.fails a
  tick : ∀ χ e, R.envInv e → R.env e (B.tick χ e)
  crash : ∀ i c p ℓ, A i c p ℓ (.error B.broken)
  program : ∀ i c p, R.inv p.data → R.envInv p.env →
    (program c).Wp I R (V i c) (Ends (A i c)) (.outside p) []

/-- The invariants hold, every thread is verified, and no two threads hold the same lock. This is
the invariant of all runs, and what everything about the running system is derived from. -/
structure Isolated (I : Isolation B) (R : Rely B) (V : Nat → κ → Spec B)
    (A : Nat → κ → Answer B α) (s : State B κ α) : Prop where
  inv : R.inv s.data
  envInv : R.envInv s.env
  thread : ∀ i t, s.threads[i]? = some t → ThreadOk I R (V i t.call) (A i t.call) s.seen t
  exclusive : ∀ i j r, i ≠ j → r ∈ s.locks i → r ∉ s.locks j

/-- An entry of a list with one more element is an old one or the new one. -/
theorem getElem?_concat_some {τ : Type} {l : List τ} {a u : τ} {j : Nat}
    (h : (l ++ [a])[j]? = some u) : l[j]? = some u ∨ (j = l.length ∧ u = a) := by
  rw [List.getElem?_append] at h
  split at h
  · exact .inl h
  · next hlt =>
    obtain ⟨h0, rfl⟩ := List.getElem?_eq_some_iff.mp h
    simp only [List.length_singleton] at h0
    exact .inr ⟨by omega, by simp⟩

/-- The locks of one thread after thread `i` has moved. -/
theorem State.locks_set {d : B.Data} {e : B.Env} {ts : List (Thread B κ α)} {i j : Nat}
    {t t' : Thread B κ α} (hi : ts[i]? = some t) :
    (State.mk d e (ts.set i t')).locks j =
      if i = j then t'.locks else (State.mk d e ts).locks j := by
  have hlt : i < ts.length := (List.getElem?_eq_some_iff.mp hi).1
  unfold State.locks
  by_cases hij : i = j
  · subst hij; simp [List.getElem?_set_self hlt]
  · simp [hij]

variable {Vs : Nat → κ → Spec B} {As : Nat → κ → Answer B α} {program : κ → Prog S ε α}

/-- A state that keeps the invariants is later than itself. -/
theorem Isolated.refl {s : State B κ α} (h : Isolated I R Vs As s) : R.Later s.seen s.seen :=
  ⟨R.data_refl _, R.env_refl _, h.inv, h.envInv⟩

/-- One thread moves, all others stay. The others are still verified: the move has done what they
rely on, and has taken no lock of theirs. -/
theorem Isolated.move {s : State B κ α} {i : Nat} {t t' : Thread B κ α} {now' : Seen B}
    (h : Isolated I R Vs As s) (hi : s.threads[i]? = some t)
    (hm : Moved I R (Vs i t.call) (As i t.call) s.seen t (s.wants i) now' t')
    (hc : t'.call = t.call)
    (hfree : (∀ r ∈ t'.locks, r ∈ t.locks) ∧ now'.data = s.data ∨ ∀ j, ¬ s.WaitsFor i j) :
    Isolated I R Vs As ⟨now'.data, now'.env, s.threads.set i t'⟩ := by
  have hlocks : s.locks i = t.locks := by simp [State.locks, hi]
  have hlt : i < s.threads.length := (List.getElem?_eq_some_iff.mp hi).1
  -- whatever thread `i` holds afterwards, no other thread holds
  have hkeep : ∀ j, i ≠ j → ∀ r, (r ∈ t.locks ∨ r ∈ s.wants i) →
      (r ∈ s.wants i → ∀ j, ¬ s.WaitsFor i j) → r ∉ s.locks j := by
    rintro j hij r hr hfr hj
    rcases hr with hr | hr
    · exact h.exclusive i j r hij (hlocks ▸ hr) hj
    · exact hfr hr j ⟨hij, r, hr, hj⟩
  refine ⟨hm.later.inv, hm.later.envInv, fun j u hu => ?_, fun j k r hjk hj hk => ?_⟩
  · by_cases hij : i = j
    · subst hij
      rw [List.getElem?_set_self hlt] at hu
      cases hu
      exact hc ▸ hm.ok
    · rw [List.getElem?_set_ne hij] at hu
      have hmem : ∀ r, r ∈ u.locks → r ∈ s.locks j := by simp [State.locks, hu]
      obtain ⟨vs, hvs, htouch⟩ : ∃ vs, now'.data = B.applyAll vs s.data ∧
          ∀ v ∈ vs, ∀ r ∈ B.touches v, r ∉ u.locks := by
        rcases hfree with ⟨-, hd⟩ | hfree
        · exact ⟨[], hd, fun _ hv => absurd hv List.not_mem_nil⟩
        · obtain ⟨vs, hvs, htouch⟩ := hm.writes
          exact ⟨vs, hvs, fun v hv r hr hm' =>
            hkeep j hij r (htouch v hv r hr) (fun _ => hfree) (hmem r hm')⟩
      have hnow : (⟨B.applyAll vs s.data, now'.env⟩ : Seen B) = now' := by
        cases now'; cases hvs; rfl
      have := (h.thread j u hu).transfer vs now'.env
        (by rw [State.seen, hnow]; exact hm.later) htouch
      rw [State.seen, hnow] at this
      exact this
  · rw [State.locks_set hi] at hj hk
    have key : ∀ k, i ≠ k → r ∈ t'.locks → r ∉ s.locks k := by
      intro k hik hr
      rcases hfree with ⟨hsub, -⟩ | hfree
      · exact h.exclusive i k r hik (hlocks ▸ hsub r hr)
      · exact hkeep k hik r (hm.locks r hr) fun _ => hfree
    split at hj
    · next hij =>
      split at hk
      · next hik => exact hjk (hij.symm.trans hik)
      · next hik => exact key k hik hj hk
    · next hij =>
      split at hk
      · exact key j hij hk hj
      · exact h.exclusive j k r hjk hj hk

/-- **The step rule.** A verified system stays isolated, and every step moves the committed data
and the surroundings as the rely allows. -/
theorem Isolated.step {s s' : State B κ α} {l : Label B κ} (hv : Verified I R program Vs As)
    (h : Isolated I R Vs As s) (hs : s.step program l = some s') :
    Isolated I R Vs As s' ∧ R.Later s.seen s'.seen := by
  rcases State.step_cases hs with ⟨c, -, rfl⟩ | ⟨χ, -, rfl⟩ | ⟨i, t, hi, hmove⟩
  · refine ⟨⟨h.inv, h.envInv, fun j u hu => ?_, fun j k r hjk hj hk => ?_⟩, h.refl⟩
    · rcases getElem?_concat_some hu with hu | ⟨-, rfl⟩
      · exact h.thread j u hu
      · exact ⟨s.seen, h.refl, hv.program j c s.seen h.inv h.envInv⟩
    · -- the new thread holds nothing
      have hold : ∀ j, r ∈ (State.mk s.data s.env (s.threads ++ [.start program c])).locks j →
          r ∈ s.locks j := by
        intro j hj
        unfold State.locks at hj ⊢
        split at hj
        · cases hj
        · next u hu =>
          rcases getElem?_concat_some hu with hu | ⟨-, rfl⟩
          · simpa [hu] using hj
          · cases hj
      exact h.exclusive j k r hjk (hold j hj) (hold k hk)
  · have ht := hv.tick χ s.env h.envInv
    have hl : R.Later s.seen ⟨s.data, B.tick χ s.env⟩ :=
      ⟨R.data_refl _, ht, h.inv, R.env_inv ht h.envInv⟩
    refine ⟨⟨h.inv, hl.envInv, fun j u hu => ?_, h.exclusive⟩, hl⟩
    exact (h.thread j u hu).transfer [] _ hl fun _ hv => (List.not_mem_nil hv).elim
  · have hw : s.wants i = t.prog.wants (s.world t) := by simp [State.wants, hi]
    cases hmove with
    | @run χ out hfree hout =>
      obtain ⟨p, ev, w⟩ := out
      have hm := (h.thread i t hi).step (hv.guarantees i _) h.inv h.envInv hout
      rw [← hw] at hm
      exact ⟨h.move hi hm rfl (.inr hfree), hm.later⟩
    | @interrupt out hout =>
      obtain ⟨p, ev, w⟩ := out
      have hm := (h.thread i t hi).interrupt hv.fails h.inv h.envInv hout
      have hsame : w.data = s.data ∧ ∀ tx, w.tx = some tx → t.tx = some tx := by
        revert hout
        cases t.prog <;> intro hout <;> cases hout <;> simp [State.world]
      rw [← hw] at hm
      refine ⟨h.move hi hm rfl (.inl ⟨fun r hr => ?_, hsame.1⟩), hm.later⟩
      unfold Thread.locks at hr ⊢
      split at hr
      · cases hr
      · next tx htx => rw [hsame.2 tx htx]; exact hr
    | crash =>
      have hok : ThreadOk I R (Vs i t.call) (As i t.call) s.seen
          (⟨t.call, .done (.error B.broken), t.log, none⟩ : Thread B κ α) :=
        ⟨s.seen, h.refl, s.seen, rfl, hv.crash i _ _ _⟩
      have hm : Moved I R (Vs i t.call) (As i t.call) s.seen t (s.wants i) s.seen _ :=
        .of_same h.refl rfl hok (Thread.holds_nothing rfl)
      exact ⟨h.move hi hm rfl (.inl ⟨Thread.holds_nothing rfl, rfl⟩), h.refl⟩

/-- A system with no call in progress is isolated. -/
theorem Isolated.init {d : B.Data} {e : B.Env} (hd : R.inv d) (he : R.envInv e) :
    Isolated I R Vs As (State.init d e : State B κ α) :=
  ⟨hd, he, fun i t h => by simp [State.init] at h,
    fun i j r _ h => by simp [State.init, State.locks] at h⟩

/-- **The run rule.** Every state of a verified system is isolated, and follows the one before as
the rely allows. -/
theorem State.Reaches.isolated {s s' : State B κ α} (hv : Verified I R program Vs As)
    (h : State.Reaches program s s') (hs : Isolated I R Vs As s) :
    Isolated I R Vs As s' ∧ R.Later s.seen s'.seen := by
  refine h.invariant (I := fun s' => Isolated I R Vs As s' ∧ R.Later s.seen s'.seen)
    ⟨hs, hs.refl⟩ ?_
  rintro s₁ l s₂ ⟨hi, hr⟩ hst
  obtain ⟨hi', hl⟩ := hi.step hv hst
  exact ⟨hi', hr.trans hl⟩

/-- A finished thread has left its transaction and answered as it has to, for data and surroundings
that the current ones are later than. -/
theorem ThreadOk.answer {t : Thread B κ α} {r : Except ε α} (h : ThreadOk I R V A now t)
    (hr : t.result? = some r) :
      t.prog = .done r ∧ t.tx = none ∧ ∃ p, R.Later p now ∧ A p t.log r := by
  have hp : t.prog = .done r := by
    unfold Thread.result? at hr
    split at hr
    · next r' hp => cases hr; exact hp
    · cases hr
  cases htx : t.tx with
  | none =>
    obtain ⟨p, hp', hw⟩ := h.outside htx
    rw [hp, Prog.wp_done] at hw
    obtain ⟨q, hq, ha⟩ := hw
    cases hq
    exact ⟨hp, rfl, p, hp', ha⟩
  | some tx =>
    rcases h.inside htx with ⟨k, hk⟩ | ⟨e, -, hw⟩
    · rw [hp] at hk; cases hk
    · rw [hp, Prog.wp_done] at hw
      obtain ⟨q, hq, -⟩ := hw
      cases hq

/-- A finished thread has answered as it has to, judged by what it saw when it ended. -/
theorem Isolated.answer {s : State B κ α} (h : Isolated I R Vs As s) {i : Nat}
    {t : Thread B κ α} {r : Except ε α} (hi : s.threads[i]? = some t) (hr : t.result? = some r) :
    ∃ p, R.Later p s.seen ∧ As i t.call p t.log r :=
  ((h.thread i t hi).answer hr).2.2

/-- A thread about to run a statement meets its obligation there, inside a transaction or outside.
So obligations hold of every statement that any run comes to. -/
theorem Isolated.sql {s : State B κ α} (h : Isolated I R Vs As s) {i : Nat} {t : Thread B κ α}
    {st : S.Stmt} {k : Except ε (S.StmtRes st) → Prog S ε α} (hi : s.threads[i]? = some t)
    (hp : t.prog = .sql st k) :
    (∃ tx, t.tx = some tx ∧
      (Vs i t.call).inside s.data t.log tx.stamp tx.writes tx.locks st) ∨
    t.tx = none ∧ (Vs i t.call).outside s.seen t.log st := by
  have hok := h.thread i t hi
  cases htx : t.tx with
  | none =>
    obtain ⟨p, hl, hw⟩ := hok.outside htx
    rw [hp] at hw
    exact .inr ⟨rfl, (hw _ hl).1⟩
  | some tx =>
    rcases hok.inside htx with ⟨k', hk⟩ | ⟨e, -, hw⟩
    · rw [hp] at hk
      cases hk
    · rw [hp] at hw
      exact .inl ⟨tx, rfl, hw.1⟩

/-- A thread that waits and holds something is in the middle of a transaction, about to run a
statement. -/
theorem Isolated.waiting {s : State B κ α} (h : Isolated I R Vs As s) {i j : Nat}
    (hw : s.WaitsFor i j) (hheld : ∃ r, r ∈ s.locks i) :
    ∃ c ℓ stamp ws st, (Vs i c).inside s.data ℓ stamp ws (s.locks i) st ∧
      s.wants i = B.needs st (B.applyAll ws s.data) := by
  obtain ⟨-, r, hr, -⟩ := hw
  obtain ⟨r', hr'⟩ := hheld
  unfold State.wants at hr ⊢
  unfold State.locks Thread.locks at hr' ⊢
  cases hi : s.threads[i]? with
  | none => rw [hi] at hr; cases hr
  | some t =>
    simp only [hi] at hr hr' ⊢
    cases hp : t.prog with
    | sql st k =>
      obtain ⟨tx, htx, hV⟩ | ⟨htx, -⟩ := h.sql hi hp
      · simp only [htx]
        exact ⟨t.call, t.log, tx.stamp, tx.writes, st, hV, by
          simp [Prog.wants, State.world, World.view, htx]⟩
      · rw [htx] at hr'
        cases hr'
    | done | begin | commit | rollback | ext => rw [hp] at hr; cases hr

/-- A thread about to make a request meets its obligation there. -/
theorem Isolated.request {s : State B κ α} (h : Isolated I R Vs As s) {i : Nat} {t : Thread B κ α}
    {x : S.Ext} {k : Except ε (S.ExtRes x) → Prog S ε α} (hi : s.threads[i]? = some t)
    (hp : t.prog = .ext x k) : (Vs i t.call).request s.seen t.log x := by
  have hok := h.thread i t hi
  cases htx : t.tx with
  | none =>
    obtain ⟨p, hl, hw⟩ := hok.outside htx
    rw [hp] at hw
    exact (hw _ hl).1
  | some tx =>
    rcases hok.inside htx with ⟨k', hk⟩ | ⟨e, he, hw⟩
    · rw [hp] at hk
      cases hk
    · rw [hp] at hw
      exact (hw _ he).1

/-- One act of a thread, what it sees and the world it leaves: the act of its program, or its
failure. -/
inductive State.Acts (s : State B κ α) (t : Thread B κ α) (ev : Event S ε) (w : World B) :
    Prop where
  | run {χ p} (h : t.prog.step χ (s.world t) = some (p, ev, w))
  | interrupt {p} (h : t.prog.interrupt (s.world t) = some (p, ev, w))

/-- What a thread sees in one act: the act of its program, or its failure. The step that a state
takes is forgotten but for this. -/
inductive State.Sees (s : State B κ α) (t : Thread B κ α) (ev : Event S ε) : Prop where
  | run {χ p w} (h : t.prog.step χ (s.world t) = some (p, ev, w))
  | interrupt {p w} (h : t.prog.interrupt (s.world t) = some (p, ev, w))

/-- Only a request that is answered moves the surroundings. -/
theorem State.Acts.env {s : State B κ α} {t : Thread B κ α} {ev : Event S ε} {w : World B}
    (h : s.Acts t ev w) : w.env = s.env ∨ ∃ x k χ, t.prog = .ext x k ∧
      ev = .ext x (B.answer x χ s.env).1 ∧ w.data = s.data ∧ w.env = (B.answer x χ s.env).2 := by
  cases h with
  | @run χ p h =>
    generalize hp : t.prog = prog at h
    cases prog with
    | ext x k =>
      cases h
      exact .inr ⟨x, k, χ, rfl, rfl, rfl, rfl⟩
    | sql st k =>
      simp only [Prog.step, World.record] at h
      split at h
      · cases h
        split <;> exact .inl rfl
      · cases h
        exact .inl rfl
    | begin | commit | rollback =>
      cases h
      exact .inl rfl
    | done => cases h
  | @interrupt p h =>
    generalize t.prog = prog at h
    cases prog with
    | done => cases h
    | begin | commit | rollback | sql | ext =>
      cases h
      exact .inl rfl

/-- A statement that has returned something was the thread's next act, and was answered from the
data the thread sees. -/
theorem State.Acts.sql_ok {s : State B κ α} {t : Thread B κ α} {st : S.Stmt} {r : S.StmtRes st}
    {w : World B} (h : s.Acts t (.sql st (.ok r)) w) : ∃ k χ ws, t.prog = .sql st k ∧
      B.exec st χ (s.world t).stamp (s.world t).view = .ok (r, ws) ∧
      w = (s.world t).record (B.needs st (s.world t).view) ws := by
  cases h with
  | @run χ p h =>
    generalize hp : t.prog = prog at h
    cases prog with
    | sql st' k =>
      simp only [Prog.step] at h
      split at h
      · next a ws hx =>
        cases h
        exact ⟨k, χ, ws, rfl, hx, rfl⟩
      · cases h
    | done | begin | commit | rollback | ext => cases h
  | @interrupt p h =>
    generalize t.prog = prog at h
    cases prog <;> cases h

/-- What holds of the data and the surroundings together, and of every history given the data,
goes on to hold if every act of a verified system keeps it. -/
theorem State.Reaches.histories {G : Seen B → Prop} {P : κ → List (Event S ε) → B.Data → Prop}
    {s s' : State B κ α} (hv : Verified I R program Vs As) (h : State.Reaches program s s')
    (hs : Isolated I R Vs As s) (hG : G s.seen) (hlogs : ∀ t ∈ s.threads, P t.call t.log s.data)
    (hstart : ∀ c d, P c [] d) (hmono : ∀ c ℓ d d', R.data d d' → P c ℓ d → P c ℓ d')
    (htick : ∀ χ p, G p → G ⟨p.data, B.tick χ p.env⟩)
    (hact : ∀ (u : State B κ α) (i : Nat) t ev w, Isolated I R Vs As u → R.Later s.seen u.seen →
      u.threads[i]? = some t → G u.seen → P t.call t.log u.data → u.Acts t ev w →
      R.data u.data w.data → G w.seen ∧ P t.call (t.log ++ [ev]) w.data) :
    G s'.seen ∧ ∀ t ∈ s'.threads, P t.call t.log s'.data := by
  refine (h.invariant (I := fun u => (Isolated I R Vs As u ∧ R.Later s.seen u.seen) ∧
    G u.seen ∧ ∀ t ∈ u.threads, P t.call t.log u.data) ⟨⟨hs, hs.refl⟩, hG, hlogs⟩ ?_).2
  rintro u l u' ⟨⟨hu, hl⟩, hG, hP⟩ hst
  obtain ⟨hu', hl'⟩ := hu.step hv hst
  refine ⟨⟨hu', hl.trans hl'⟩, ?_⟩
  rcases State.step_cases hst with ⟨c, -, rfl⟩ | ⟨χ, -, rfl⟩ | ⟨i, t, hi, hmove⟩
  · refine ⟨hG, fun t' ht' => ?_⟩
    rcases List.mem_append.mp ht' with ht' | ht'
    · exact hP t' ht'
    · rw [List.mem_singleton.mp ht']
      exact hstart c _
  · exact ⟨htick χ u.seen hG, hP⟩
  · have hmem := List.mem_of_getElem? hi
    have hacts : ∀ p ev w, u.Acts t ev w → R.data u.data w.data → G w.seen ∧
        ∀ t' ∈ u.threads.set i ⟨t.call, p, t.log ++ [ev], w.tx⟩, P t'.call t'.log w.data := by
      intro p ev w hw hd
      obtain ⟨hG', hP'⟩ := hact u i t ev w hu hl hi hG (hP t hmem) hw hd
      refine ⟨hG', fun t' ht' => ?_⟩
      rcases List.mem_or_eq_of_mem_set ht' with ht' | rfl
      · exact hmono _ _ _ _ hd (hP t' ht')
      · exact hP'
    cases hmove with
    | @run χ out _ hout =>
      obtain ⟨p, ev, w⟩ := out
      exact hacts p ev w (.run hout) hl'.data
    | @interrupt out hout =>
      obtain ⟨p, ev, w⟩ := out
      exact hacts p ev w (.interrupt hout) hl'.data
    | crash =>
      refine ⟨hG, fun t' ht' => ?_⟩
      rcases List.mem_or_eq_of_mem_set ht' with ht' | rfl
      · exact hP t' ht'
      · exact hP t hmem

/-- What holds of every act a verified system comes to see, and goes on to hold as the data move,
holds of all histories. -/
theorem State.Reaches.events {P : κ → List (Event S ε) → B.Data → Prop} {s s' : State B κ α}
    (hv : Verified I R program Vs As) (h : State.Reaches program s s')
    (hs : Isolated I R Vs As s) (hlogs : ∀ t ∈ s.threads, P t.call t.log s.data)
    (hstart : ∀ c d, P c [] d) (hmono : ∀ c ℓ d d', R.data d d' → P c ℓ d → P c ℓ d')
    (hact : ∀ (u : State B κ α) (i : Nat) t ev, Isolated I R Vs As u → R.Later s.seen u.seen →
      u.threads[i]? = some t → P t.call t.log u.data → u.Sees t ev →
      P t.call (t.log ++ [ev]) u.data) :
    ∀ t ∈ s'.threads, P t.call t.log s'.data := by
  refine (h.histories (G := fun _ => True) hv hs trivial hlogs hstart hmono (fun _ _ h => h) ?_).2
  intro u i t ev w hu hl hi _ hP hw hd
  refine ⟨trivial, hmono _ _ _ _ hd (hact u i t ev hu hl hi hP ?_)⟩
  cases hw with
  | run h => exact .run h
  | interrupt h => exact .interrupt h

/-- A statement is seen by the thread that runs it: with what it answers on the data the thread
sees, or failing without effect. -/
theorem State.Sees.sql {s : State B κ α} {t : Thread B κ α} {st : S.Stmt}
    {r : Except ε (S.StmtRes st)} (h : s.Sees t (.sql st r)) : ∃ k, t.prog = .sql st k ∧
      (r = .error B.broken ∨
        ∃ χ, (B.exec st χ (s.world t).stamp (s.world t).view).map Prod.fst = r) := by
  cases h with
  | @run χ p w h =>
    generalize hp : t.prog = prog at h
    cases prog with
    | sql st' k =>
      simp only [Prog.step] at h
      split at h
      · next a ws hx =>
        cases h
        exact ⟨k, rfl, .inr ⟨χ, by rw [hx]; rfl⟩⟩
      · next e hx =>
        cases h
        exact ⟨k, rfl, .inr ⟨χ, by rw [hx]; rfl⟩⟩
    | done | begin | commit | rollback | ext => cases h
  | @interrupt p w h =>
    generalize hp : t.prog = prog at h
    cases prog with
    | sql st' k =>
      cases h
      exact ⟨k, rfl, .inl rfl⟩
    | done | begin | commit | rollback | ext => cases h

/-! ## A stronger rely takes over -/

section
variable {R' : Rely B} {Vs' : Nat → κ → Spec B} {As' : Nat → κ → Answer B α}
  {H : Nat → κ → List (Event S ε) → Prop}

/-- A verified system is verified against a stronger rely as well, given an upgrade for each call
and the guarantees that the stronger rely asks for. -/
theorem Verified.upgrade (hv : Verified I R program Vs As)
    (u : ∀ i c, Prog.Upgrade R R' (Vs i c) (Vs' i c) (H i c)) (hH : ∀ i c, H i c [])
    (hA : ∀ i c p ℓ r, H i c ℓ → As i c p ℓ r → As' i c p ℓ r)
    (guarantees : ∀ i c, Guarantees R' (Vs' i c)) (fails : ∀ a, R'.fails a)
    (tick : ∀ χ e, R'.envInv e → R'.env e (B.tick χ e))
    (crash : ∀ i c p ℓ, As' i c p ℓ (.error B.broken)) : Verified I R' program Vs' As' where
  guarantees := guarantees
  fails := fails
  tick := tick
  crash := crash
  program i c p hp he :=
    Prog.Wp.upgrade (u i c) (fun _ _ _ hℓ ⟨p, hm, ha⟩ => ⟨p, hm, hA i c p _ _ hℓ ha⟩)
      (hv.program i c p ((u i c).inv hp) ((u i c).envInv he)) trivial (hH i c)

/-- A stronger rely takes over in the middle of a run. The history of a finished thread does not
matter any more. -/
theorem Isolated.upgrade {s : State B κ α} (h : Isolated I R Vs As s)
    (u : ∀ i c, Prog.Upgrade R R' (Vs i c) (Vs' i c) (H i c))
    (hH : ∀ i t, s.threads[i]? = some t → H i t.call t.log ∨
      ∃ r, t.result? = some r ∧ ∀ p, As i t.call p t.log r → As' i t.call p t.log r)
    (hA : ∀ i t, s.threads[i]? = some t → ∀ p ℓ r, H i t.call ℓ → As i t.call p ℓ r →
      As' i t.call p ℓ r)
    (hlater : ∀ i c p q ℓ r, R.Later p q → As' i c p ℓ r → As' i c q ℓ r)
    (hinv : R'.inv s.data) (henv : R'.envInv s.env) : Isolated I R' Vs' As' s where
  inv := hinv
  envInv := henv
  thread i t hi := by
    rcases hH i t hi with hH | ⟨r, hr, hdone⟩
    · exact ThreadOk.upgrade (u i t.call) (hA i t hi) (hlater i t.call) hH hinv henv
        (h.thread i t hi)
    · obtain ⟨hp, htx, p, hl, ha⟩ := (h.thread i t hi).answer hr
      unfold ThreadOk
      rw [htx]
      refine ⟨s.seen, ⟨R'.data_refl _, R'.env_refl _, hinv, henv⟩, ?_⟩
      rw [hp]
      exact Prog.wp_done.mpr ⟨s.seen, rfl, hlater _ _ _ _ _ _ hl (hdone p ha)⟩
  exclusive := h.exclusive

end

end

end Transactional
