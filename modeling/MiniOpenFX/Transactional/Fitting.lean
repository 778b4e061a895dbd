import MiniOpenFX.Transactional.Machine

/-!
# Writes that fit

A statement checks what it writes against the data it sees: the committed data and the writes of
its own transaction. The write takes effect later, at the commit, and others commit in between.
`Fitting` is a check that no such commit can spoil: whatever fits goes on to fit while the data
grow. Then the writes of every open transaction fit the data committed now, one after the other,
and the committed data change by writes that fit (`State.Reaches.fitting`).
-/

namespace Transactional

variable {S : Sig} {ε : Type}

/-- When a write fits the data, and how data grow by writes that fit. Growth must not spoil what
fits, since transactions commit between a check and its write. -/
structure Fitting (B : Backend S ε) where
  Fits : B.Data → B.Write → Prop
  Grows : B.Data → B.Data → Prop
  grows_refl : ∀ d, Grows d d
  grows_trans : ∀ {d₁ d₂ d₃}, Grows d₁ d₂ → Grows d₂ d₃ → Grows d₁ d₃
  grows_apply : ∀ {d w}, Fits d w → Grows d (B.apply w d)
  fits_mono : ∀ {d d' w}, Grows d d' → Fits d w → Fits d' w
  apply_mono : ∀ {d d'} w, Grows d d' → Grows (B.apply w d) (B.apply w d')

variable {B : Backend S ε} {F : Fitting B}

namespace Fitting

/-- The writes fit the data, each after those before it. -/
def FitAll (F : Fitting B) : B.Data → List B.Write → Prop
  | _, [] => True
  | d, w :: ws => F.Fits d w ∧ F.FitAll (B.apply w d) ws

/-- What statements write fits the data they see. -/
def Checked (F : Fitting B) : Prop :=
  ∀ st χ stamp d r ws, B.exec st χ stamp d = .ok (r, ws) → F.FitAll d ws

variable {d d' : B.Data} {ws ws' : List B.Write}

/-- Writes that fit the data fit data that have grown, since a check only ever asks that something
be there. -/
theorem FitAll.mono (h : F.FitAll d ws) (hd : F.Grows d d') : F.FitAll d' ws := by
  induction ws generalizing d d' with
  | nil => trivial
  | cons w ws ih => exact ⟨F.fits_mono hd h.1, ih h.2 (F.apply_mono w hd)⟩

/-- Two groups of writes fit one after the other if the second fits what the first leaves. -/
theorem FitAll.append (h : F.FitAll d ws) (h' : F.FitAll (B.applyAll ws d) ws') :
    F.FitAll d (ws ++ ws') := by
  induction ws generalizing d with
  | nil => exact h'
  | cons w ws ih => exact ⟨h.1, ih h.2 h'⟩

/-- Writes that fit make the data grow. By induction on the writes. -/
theorem FitAll.grows (h : F.FitAll d ws) : F.Grows d (B.applyAll ws d) := by
  induction ws generalizing d with
  | nil => exact F.grows_refl d
  | cons w ws ih => exact F.grows_trans (F.grows_apply h.1) (ih h.2)

/-- What every write that fits keeps, all of them keep. -/
theorem FitAll.keeps {P : B.Data → Prop} (hP : ∀ d w, F.Fits d w → P d → P (B.apply w d))
    (h : F.FitAll d ws) (hd : P d) : P (B.applyAll ws d) := by
  induction ws generalizing d with
  | nil => exact hd
  | cons w ws ih => exact ih h.2 (hP d w h.1 hd)

end Fitting

namespace State

variable {κ α : Type} {program : κ → Prog S ε α} {s s' : State B κ α}

/-- The writes of the open transactions fit the committed data. Each was checked when it was made;
that it still fits when it commits is what has to be shown. -/
def Fit (F : Fitting B) (s : State B κ α) : Prop :=
  ∀ t ∈ s.threads, ∀ tx, t.tx = some tx → F.FitAll s.data tx.writes

/-- What a transaction sees is the committed data with writes that fit, so an invariant of fitting
writes holds of what it sees. -/
theorem Fit.view (h : s.Fit F) {t : Thread B κ α} (ht : t ∈ s.threads) :
    ∃ ws, F.FitAll s.data ws ∧ (s.world t).view = B.applyAll ws s.data := by
  cases htx : t.tx with
  | none => exact ⟨[], trivial, by simp only [World.view, State.world, htx, Backend.applyAll_nil]⟩
  | some tx => exact ⟨tx.writes, h t ht tx htx, by simp only [World.view, State.world, htx]⟩

/-- The thread moves on in a world that has grown by writes that fit. -/
theorem Fit.resume (h : s.Fit F) {i : Nat} {t : Thread B κ α}
    {out : Prog S ε α × Event S ε × World B}
    {ws : List B.Write} (hws : F.FitAll s.data ws) (hdata : out.2.2.data = B.applyAll ws s.data)
    (hown : ∀ tx, out.2.2.tx = some tx → F.FitAll out.2.2.data tx.writes) :
    (s.resume i t out).Fit F := by
  obtain ⟨p, ev, w⟩ := out
  intro u hu tx htx
  change F.FitAll w.data tx.writes
  rcases List.mem_or_eq_of_mem_set hu with hu | rfl
  · exact hdata ▸ (h u hu tx htx).mono hws.grows
  · exact hown tx htx

/-- A step changes the committed data by writes that fit, and keeps those of open transactions
fitting. -/
theorem Fit.step (hF : F.Checked) (h : s.Fit F) {l : Label B κ} (hst : s.step program l = some s') :
    s'.Fit F ∧ ∃ ws, F.FitAll s.data ws ∧ s'.data = B.applyAll ws s.data := by
  rcases step_cases hst with ⟨c, -, rfl⟩ | ⟨χ, -, rfl⟩ | ⟨i, t, hi, hmove⟩
  · refine ⟨fun t ht tx htx => ?_, [], trivial, rfl⟩
    rcases List.mem_append.mp ht with ht | ht
    · exact h t ht tx htx
    · rw [List.mem_singleton.mp ht] at htx
      cases htx
  · exact ⟨h, [], trivial, rfl⟩
  have ht := List.mem_of_getElem? hi
  have hnone : F.FitAll s.data [] := trivial
  -- a world that keeps the data and the transaction, or has none
  have hquiet : ∀ out : Prog S ε α × Event S ε × World B, out.2.2.data = s.data →
      (∀ tx, out.2.2.tx = some tx → t.tx = some tx) → (s.resume i t out).Fit F ∧
        ∃ ws, F.FitAll s.data ws ∧ (s.resume i t out).data = B.applyAll ws s.data :=
    fun out hdata htx => ⟨h.resume hnone hdata fun tx hw => hdata ▸ h t ht tx (htx tx hw),
      [], hnone, hdata⟩
  cases hmove with
  | crash =>
    refine ⟨fun u hu tx htx => ?_, [], trivial, rfl⟩
    rcases List.mem_or_eq_of_mem_set hu with hu | rfl
    · exact h u hu tx htx
    · cases htx
  | @interrupt out hout =>
    generalize t.prog = prog at hout
    cases prog with
    | done => cases hout
    | rollback k =>
      cases hout
      exact hquiet _ rfl fun tx htx => by cases htx
    | begin | commit | sql | ext =>
      cases hout
      exact hquiet _ rfl fun tx htx => htx
  | @run χ out _ hout =>
    generalize t.prog = prog at hout
    cases prog with
    | done => cases hout
    | rollback k =>
      cases hout
      exact hquiet _ rfl fun tx htx => by cases htx
    | ext x k =>
      cases hout
      exact hquiet _ rfl fun tx htx => htx
    | begin k =>
      cases hout
      refine ⟨h.resume hnone rfl fun tx htx => ?_, [], trivial, rfl⟩
      cases htx
      trivial
    | commit k =>
      cases hout
      obtain ⟨ws, hws, hview⟩ := h.view ht
      exact ⟨h.resume hws hview fun tx htx => (by cases htx), ws, hws, hview⟩
    | sql st k =>
      simp only [Prog.step] at hout
      split at hout
      swap
      · cases hout
        exact hquiet _ rfl fun tx htx => htx
      next r ws hx =>
      cases hout
      have hfit : F.FitAll (s.world t).view ws := hF _ _ _ _ _ _ hx
      obtain ⟨c, prog, ℓ, tx⟩ := t
      cases tx with
      | none => exact ⟨h.resume hfit rfl fun tx htx => (by cases htx), ws, hfit, rfl⟩
      | some tx =>
        refine ⟨h.resume hnone rfl fun tx' htx => ?_, [], trivial, rfl⟩
        cases htx
        exact (h _ ht tx rfl).append hfit

/-- **Writes go on to fit.** In every run the committed data change by writes that fit, and the
writes of the open transactions fit them. -/
theorem Reaches.fitting (hF : F.Checked) (h : Reaches program s s') (hs : s.Fit F) :
    s'.Fit F ∧ ∃ ws, F.FitAll s.data ws ∧ s'.data = B.applyAll ws s.data := by
  refine h.invariant (I := fun u => u.Fit F ∧ ∃ ws, F.FitAll s.data ws ∧
    u.data = B.applyAll ws s.data) ⟨hs, [], trivial, rfl⟩ ?_
  rintro u l u' ⟨hu, ws, hws, hdata⟩ hst
  obtain ⟨hu', ws', hws', hdata'⟩ := hu.step hF hst
  exact ⟨hu', ws ++ ws', hws.append (hdata ▸ hws'), by
    rw [hdata', hdata, Backend.applyAll_append]⟩

end State
end Transactional
