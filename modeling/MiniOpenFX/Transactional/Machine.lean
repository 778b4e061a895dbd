import MiniOpenFX.Transactional.Program
import Mathlib.Logic.Relation
import Mathlib.Data.List.Basic

/-!
# Interleaved execution with row locks

Any number of program instances (`Thread`) run against one store (`State`), one act at a time and
in any order. A thread inside a transaction sees the committed data with its own uncommitted
writes applied (`World.view`, the READ COMMITTED view at the moment the statement runs), keeps
its writes to itself until it commits, and holds every lock a statement took until it commits or
rolls back. A statement that needs a resource another thread holds cannot run: the thread waits
for that thread (`State.WaitsFor`).

`Backend` is what the store and its surroundings are: what a statement computes and writes, which
resources it needs, how a write changes the data, and how requests outside the store are
answered. An act can also fail without effect (`Label.interrupt`), and a program instance can
disappear, which rolls its transaction back (`Label.crash`).
-/

namespace Transactional

/-- A store and its surroundings: what statements and requests are answered with, what they write,
and which resources a statement locks. The machine below needs nothing else of them. -/
structure Backend (S : Sig) (ε : Type) where
  /-- committed data -/
  Data : Type
  /-- one change of the data -/
  Write : Type
  /-- what can be locked: rows and unique keys -/
  Resource : Type
  /-- everything outside the store: clock, cache -/
  Env : Type
  /-- what the surroundings choose when an act runs -/
  Choice : Type
  /-- what a transaction fixes when it starts -/
  Stamp : Type
  decResource : DecidableEq Resource
  apply : Write → Data → Data
  /-- the resources whose content the write changes -/
  touches : Write → List Resource
  /-- the resources a statement must hold, given the data it sees -/
  needs : S.Stmt → Data → List Resource
  exec : (s : S.Stmt) → Choice → Stamp → Data → Except ε (S.StmtRes s × List Write)
  stamp : Env → Stamp
  answer : (e : S.Ext) → Choice → Env → Except ε (S.ExtRes e) × Env
  tick : Choice → Env → Env
  /-- the error a program sees when an act fails without effect -/
  broken : ε

variable {S : Sig} {ε : Type}

/-- What a program has seen one act return. -/
inductive Event (S : Sig) (ε : Type) where
  | begin (r : Except ε Unit)
  | commit (r : Except ε Unit)
  | rollback (r : Except ε Unit)
  | sql (s : S.Stmt) (r : Except ε (S.StmtRes s))
  | ext (e : S.Ext) (r : Except ε (S.ExtRes e))

section
variable (B : Backend S ε)

/-- Writes applied in the order they were made. -/
def Backend.applyAll (ws : List B.Write) (d : B.Data) : B.Data :=
  ws.foldl (fun d w => B.apply w d) d

/-- An open transaction: its uncommitted writes, the locks it holds, and the stamp under which all
of its statements run. -/
structure Tx where
  writes : List B.Write
  locks : List B.Resource
  stamp : B.Stamp

/-- What one program instance works on: the committed data, the surroundings and its own open
transaction. -/
structure World where
  data : B.Data
  env : B.Env
  tx : Option (Tx B)

end

variable {B : Backend S ε}

@[simp] theorem Backend.applyAll_nil (d : B.Data) : B.applyAll [] d = d := rfl

@[simp] theorem Backend.applyAll_cons (w : B.Write) (ws : List B.Write) (d : B.Data) :
    B.applyAll (w :: ws) d = B.applyAll ws (B.apply w d) := rfl

/-- The writes of a transaction can be applied in two parts, one after the other: a statement works
on the data with the writes made before it. -/
@[simp] theorem Backend.applyAll_append (ws ws' : List B.Write) (d : B.Data) :
    B.applyAll (ws ++ ws') d = B.applyAll ws' (B.applyAll ws d) := by
  simp [Backend.applyAll]

namespace World

/-- The data a statement sees: committed data and the transaction's own writes. Writes of other
open transactions are not seen. -/
def view (w : World B) : B.Data :=
  match w.tx with
  | none => w.data
  | some tx => B.applyAll tx.writes w.data

/-- The stamp a statement runs under: the transaction's, or its own outside a transaction. -/
def stamp (w : World B) : B.Stamp :=
  match w.tx with
  | none => B.stamp w.env
  | some tx => tx.stamp

/-- Keep what a statement wrote: in the transaction with the locks it took, or at once when no
transaction is open. -/
def record (w : World B) (ls : List B.Resource) (ws : List B.Write) : World B :=
  match w.tx with
  | none => { w with data := B.applyAll ws w.data }
  | some tx => { w with tx := some { tx with writes := tx.writes ++ ws, locks := tx.locks ++ ls } }

/-- The committed data after the open transaction, if any, commits. -/
def committed (w : World B) : B.Data := w.view

end World

namespace Prog

variable {α : Type}

/-- One act of a program, with what it saw and the world it leaves. The program goes on with the
answer; a program that has ended has no step. -/
def step (χ : B.Choice) (w : World B) :
    Prog S ε α → Option (Prog S ε α × Event S ε × World B)
  | .done _ => none
  | .begin k => some (k (.ok ()), .begin (.ok ()),
      { w with tx := some { writes := [], locks := [], stamp := B.stamp w.env } })
  | .commit k => some (k (.ok ()), .commit (.ok ()), { w with data := w.committed, tx := none })
  | .rollback k => some (k (.ok ()), .rollback (.ok ()), { w with tx := none })
  | .sql s k =>
    match B.exec s χ w.stamp w.view with
    | .ok (r, ws) => some (k (.ok r), .sql s (.ok r), w.record (B.needs s w.view) ws)
    | .error e => some (k (.error e), .sql s (.error e), w)
  | .ext e k =>
    let (r, env) := B.answer e χ w.env
    some (k r, .ext e r, { w with env })

/-- A request that has been answered was the program's next act. -/
theorem step_ext {χ : B.Choice} {w w' : World B} {p p' : Prog S ε α} {x : S.Ext}
    {r : Except ε (S.ExtRes x)} (h : p.step χ w = some (p', .ext x r, w')) :
    (∃ k, p = .ext x k) ∧ w' = { w with env := (B.answer x χ w.env).2 } := by
  cases p with
  | ext y k =>
    cases h
    exact ⟨⟨k, rfl⟩, rfl⟩
  | sql s k =>
    simp only [step] at h
    split at h <;> cases h
  | done | begin | commit | rollback => cases h

/-- One act that fails without effect; a failed rollback still ends the transaction, as the store
does it for a client that is gone. -/
def interrupt (w : World B) : Prog S ε α → Option (Prog S ε α × Event S ε × World B)
  | .done _ => none
  | .begin k => some (k (.error B.broken), .begin (.error B.broken), w)
  | .commit k => some (k (.error B.broken), .commit (.error B.broken), w)
  | .rollback k => some (k (.error B.broken), .rollback (.error B.broken), { w with tx := none })
  | .sql s k => some (k (.error B.broken), .sql s (.error B.broken), w)
  | .ext e k => some (k (.error B.broken), .ext e (.error B.broken), w)

/-- The resources the next act needs. -/
def wants (w : World B) : Prog S ε α → List B.Resource
  | .sql s _ => B.needs s w.view
  | _ => []

end Prog

variable (B) in
/-- A program instance: the call it serves, the rest of its program, what it has seen so far and
its open transaction. -/
structure Thread (κ α : Type) where
  call : κ
  prog : Prog S ε α
  log : List (Event S ε)
  tx : Option (Tx B)

variable (B) in
/-- The state of the system: committed data, surroundings, and every instance started so far. A
thread that has ended stays in the list, so its number stays its own. -/
structure State (κ α : Type) where
  data : B.Data
  env : B.Env
  threads : List (Thread B κ α)

variable (B) in
/-- What can happen next: a call arrives, the surroundings move, thread `i` performs its next act,
the act fails, or the thread disappears. -/
inductive Label (κ : Type) where
  | spawn (c : κ)
  | tick (χ : B.Choice)
  | run (i : Nat) (χ : B.Choice)
  | interrupt (i : Nat)
  | crash (i : Nat)

namespace Thread

variable {κ α : Type}

/-- The locks a thread holds. -/
def locks (t : Thread B κ α) : List B.Resource :=
  match t.tx with
  | none => []
  | some tx => tx.locks

/-- The answer of a finished thread. -/
def result? (t : Thread B κ α) : Option (Except ε α) :=
  match t.prog with
  | .done r => some r
  | _ => none

/-- A freshly started thread. -/
def start (program : κ → Prog S ε α) (c : κ) : Thread B κ α := ⟨c, program c, [], none⟩

end Thread

namespace State

variable {κ α : Type}

/-- The system with no call in progress. -/
def init (d : B.Data) (e : B.Env) : State B κ α := ⟨d, e, []⟩

/-- What thread `t` works on. -/
def world (s : State B κ α) (t : Thread B κ α) : World B := ⟨s.data, s.env, t.tx⟩

/-- The resources thread `i` needs for its next act. -/
def wants (s : State B κ α) (i : Nat) : List B.Resource :=
  match s.threads[i]? with
  | none => []
  | some t => t.prog.wants (s.world t)

/-- The resources thread `i` holds. -/
def locks (s : State B κ α) (i : Nat) : List B.Resource :=
  match s.threads[i]? with
  | none => []
  | some t => t.locks

/-- Thread `i` cannot go on before thread `j` ends its transaction: its next act needs a resource
that `j` holds. -/
def WaitsFor (s : State B κ α) (i j : Nat) : Prop :=
  i ≠ j ∧ ∃ r, r ∈ s.wants i ∧ r ∈ s.locks j

/-- Some threads wait for each other in a circle: none of them can ever go on. -/
def Deadlocked (s : State B κ α) : Prop := ∃ i, Relation.TransGen s.WaitsFor i i

/-- Some other thread holds what thread `i` needs. -/
def blocked (s : State B κ α) (i : Nat) : Bool :=
  have := B.decResource
  (List.range s.threads.length).any fun j => i != j && (s.wants i).any fun r => r ∈ s.locks j

/-- Put back thread `i` after an act. -/
def resume (s : State B κ α) (i : Nat) (t : Thread B κ α) :
    Prog S ε α × Event S ε × World B → State B κ α
  | (p, ev, w) => ⟨w.data, w.env, s.threads.set i ⟨t.call, p, t.log ++ [ev], w.tx⟩⟩

/-- One step of the system, where the label allows it. -/
def step (program : κ → Prog S ε α) (s : State B κ α) : Label B κ → Option (State B κ α)
  | .spawn c => some { s with threads := s.threads ++ [.start program c] }
  | .tick χ => some { s with env := B.tick χ s.env }
  | .run i χ => do
    let t ← s.threads[i]?
    if s.blocked i then none else (t.prog.step χ (s.world t)).map (s.resume i t)
  | .interrupt i => do
    let t ← s.threads[i]?
    (t.prog.interrupt (s.world t)).map (s.resume i t)
  | .crash i => do
    let t ← s.threads[i]?
    some { s with threads := s.threads.set i ⟨t.call, .done (.error B.broken), t.log, none⟩ }

/-- The state after a list of steps. -/
def exec (program : κ → Prog S ε α) (s : State B κ α) : List (Label B κ) → Option (State B κ α)
  | [] => some s
  | l :: ls => (s.step program l).bind fun s' => s'.exec program ls

/-- `s'` can follow `s` in some interleaving, with any calls arriving, any acts failing and any
instances disappearing on the way. -/
def Reaches (program : κ → Prog S ε α) : State B κ α → State B κ α → Prop :=
  Relation.ReflTransGen fun s s' => ∃ l, s.step program l = some s'

variable {program : κ → Prog S ε α} {s s' : State B κ α}

/-- Every state reaches itself, by the run without steps. -/
theorem Reaches.refl (s : State B κ α) : Reaches program s s := Relation.ReflTransGen.refl

/-- A run from `s` to `s'` and one from there to `s''` are a run from `s` to `s''`. -/
theorem Reaches.trans {s'' : State B κ α} (h : Reaches program s s')
    (h' : Reaches program s' s'') : Reaches program s s'' :=
  Relation.ReflTransGen.trans h h'

theorem Reaches.tail {s'' : State B κ α} {l : Label B κ} (h : Reaches program s s')
    (h' : s'.step program l = some s'') : Reaches program s s'' :=
  Relation.ReflTransGen.tail h ⟨l, h'⟩

/-- What every step preserves holds in every later state. All inductions over runs go by this rule.
-/
theorem Reaches.invariant {I : State B κ α → Prop} (h : Reaches program s s') (hi : I s)
    (hstep : ∀ s l s', I s → s.step program l = some s' → I s') : I s' := by
  induction h with
  | refl => exact hi
  | tail _ hst ih => obtain ⟨l, hl⟩ := hst; exact hstep _ l _ ih hl

/-- A run given by its labels reaches its last state. Fixed runs are built so, and their states
computed. -/
theorem Reaches.of_exec {ls : List (Label B κ)} (h : s.exec program ls = some s') :
    Reaches program s s' := by
  induction ls generalizing s with
  | nil => cases h; exact .refl _
  | cons l ls ih =>
    obtain ⟨s₁, h₁, h₂⟩ := Option.bind_eq_some_iff.mp h
    exact Relation.ReflTransGen.head ⟨l, h₁⟩ (ih h₂)

/-- A run in two parts. -/
theorem exec_append (s : State B κ α) (ls ls' : List (Label B κ)) :
    s.exec program (ls ++ ls') = (s.exec program ls).bind fun s' => s'.exec program ls' := by
  induction ls generalizing s with
  | nil => rfl
  | cons l ls ih =>
    rw [List.cons_append, exec, exec]
    cases s.step program l with
    | none => rfl
    | some s' => exact ih s'

/-! ## Waiting -/

/-- The threads of a circle: from each of them, waiting for one another leads back to it. A proof
that there is no deadlock may so choose the thread it looks at. -/
theorem Deadlocked.circle (h : s.Deadlocked) : ∃ C : Nat → Prop, (∃ i, C i) ∧
    ∀ i, C i → Relation.TransGen (fun i j => C i ∧ C j ∧ s.WaitsFor i j) i i := by
  obtain ⟨i₀, h⟩ := h
  refine ⟨fun i => Relation.TransGen s.WaitsFor i₀ i ∧ Relation.TransGen s.WaitsFor i i₀,
    ⟨i₀, h, h⟩, ?_⟩
  suffices ∀ i j, Relation.TransGen s.WaitsFor i j → Relation.TransGen s.WaitsFor i₀ i →
      Relation.TransGen s.WaitsFor j i₀ → Relation.TransGen (fun i j =>
        (Relation.TransGen s.WaitsFor i₀ i ∧ Relation.TransGen s.WaitsFor i i₀) ∧
        (Relation.TransGen s.WaitsFor i₀ j ∧ Relation.TransGen s.WaitsFor j i₀) ∧
          s.WaitsFor i j) i j from
    fun i ⟨hi, hi'⟩ => this i i (hi'.trans hi) hi hi'
  intro i j hij hi hj
  induction hij using Relation.TransGen.head_induction_on with
  | single hij => exact .single ⟨⟨hi, .head hij hj⟩, ⟨.tail hi hij, hj⟩, hij⟩
  | head hik hkj ih =>
    exact .head ⟨⟨hi, .head hik (hkj.trans hj)⟩, ⟨.tail hi hik, hkj.trans hj⟩, hik⟩
      (ih (.tail hi hik))

/-! ## What one step does -/

/-- A blocked thread waits for some thread. -/
theorem blocked_eq_false {i : Nat} : s.blocked i = false ↔ ∀ j, ¬ s.WaitsFor i j := by
  have := B.decResource
  simp only [blocked, List.any_eq_false, List.mem_range, Bool.and_eq_true, bne_iff_ne, ne_eq,
    List.any_eq_true, decide_eq_true_eq, WaitsFor]
  refine ⟨fun h j => ?_, fun h j _ => h j⟩
  rintro ⟨hij, r, hr, hj⟩
  refine h j ?_ ⟨hij, r, hr, hj⟩
  by_contra hlt
  rw [locks, List.getElem?_eq_none (by omega)] at hj
  cases hj

/-- What a thread does in one step, whichever way the step goes: the act of its program, the act
failing, or the thread disappearing. -/
inductive Move (s : State B κ α) (i : Nat) (t : Thread B κ α) : State B κ α → Prop where
  | run {χ out} (hfree : ∀ j, ¬ s.WaitsFor i j) (h : t.prog.step χ (s.world t) = some out) :
      Move s i t (s.resume i t out)
  | interrupt {out} (h : t.prog.interrupt (s.world t) = some out) : Move s i t (s.resume i t out)
  | crash : Move s i t
      { s with threads := s.threads.set i ⟨t.call, .done (.error B.broken), t.log, none⟩ }

/-- Inversion of a step: a call arrives, the surroundings move, or one thread moves. Proofs about
all steps need these three cases only, as an act, a failure and a crash are all a `Move`. -/
theorem step_cases {l : Label B κ} (h : s.step program l = some s') :
    (∃ c, l = .spawn c ∧ s' = { s with threads := s.threads ++ [.start program c] }) ∨
    (∃ χ, l = .tick χ ∧ s' = { s with env := B.tick χ s.env }) ∨
    (∃ i t, s.threads[i]? = some t ∧ Move s i t s') := by
  cases l with
  | spawn c => exact .inl ⟨c, rfl, (Option.some.inj h).symm⟩
  | tick χ => exact .inr (.inl ⟨χ, rfl, (Option.some.inj h).symm⟩)
  | run i χ =>
    obtain ⟨t, ht, h⟩ := Option.bind_eq_some_iff.mp h
    cases hb : s.blocked i with
    | true => simp [hb] at h
    | false =>
      simp only [hb, Bool.false_eq_true, if_false, Option.map_eq_some_iff] at h
      obtain ⟨out, hout, rfl⟩ := h
      exact .inr (.inr ⟨i, t, ht, .run (blocked_eq_false.mp hb) hout⟩)
  | interrupt i =>
    obtain ⟨t, ht, h⟩ := Option.bind_eq_some_iff.mp h
    obtain ⟨out, hout, rfl⟩ := Option.map_eq_some_iff.mp h
    exact .inr (.inr ⟨i, t, ht, .interrupt hout⟩)
  | crash i =>
    obtain ⟨t, ht, h⟩ := Option.bind_eq_some_iff.mp h
    cases h
    exact .inr (.inr ⟨i, t, ht, .crash⟩)

/-- A thread's move is a step. -/
theorem Reaches.of_move {i : Nat} {t : Thread B κ α} (ht : s.threads[i]? = some t)
    (h : Move s i t s') : Reaches program s s' := by
  cases h with
  | @run χ out hfree h =>
    refine .tail (.refl s) (l := .run i χ) ?_
    simp [step, ht, blocked_eq_false.mpr hfree, h]
  | @interrupt out h => exact .tail (.refl s) (l := .interrupt i) (by simp [step, ht, h])
  | crash => exact .tail (.refl s) (l := .crash i) (by simp [step, ht])

/-- A thread stays: it serves the same call, and its log only grows. What its log has said it goes
on saying. -/
theorem step_thread {l : Label B κ} (h : s.step program l = some s') {i : Nat}
    {t : Thread B κ α} (hi : s.threads[i]? = some t) :
    ∃ t', s'.threads[i]? = some t' ∧ t'.call = t.call ∧ t.log <+: t'.log := by
  have hlt : i < s.threads.length := (List.getElem?_eq_some_iff.mp hi).1
  rcases step_cases h with ⟨c, -, rfl⟩ | ⟨χ, -, rfl⟩ | ⟨j, u, hj, hmove⟩
  · exact ⟨t, by rwa [List.getElem?_append_left hlt], rfl, List.prefix_refl _⟩
  · exact ⟨t, hi, rfl, List.prefix_refl _⟩
  · obtain ⟨u', hs', hcall, hlog⟩ : ∃ u', s'.threads = s.threads.set j u' ∧ u'.call = u.call ∧
        u.log <+: u'.log := by
      cases hmove with
      | run _ _ | interrupt _ => exact ⟨_, rfl, rfl, List.prefix_append _ _⟩
      | crash => exact ⟨_, rfl, rfl, List.prefix_refl _⟩
    rw [hs']
    by_cases hij : j = i
    · subst hij
      cases hj.symm.trans hi
      exact ⟨u', List.getElem?_set_self hlt, hcall, hlog⟩
    · exact ⟨t, by rwa [List.getElem?_set_ne hij], rfl, List.prefix_refl _⟩

/-- A thread was there before the step, or is the call that has just arrived. Indices of threads
are never used again. -/
theorem step_origin {l : Label B κ} (h : s.step program l = some s') {i : Nat}
    {t' : Thread B κ α} (hi : s'.threads[i]? = some t') :
    (∃ t, s.threads[i]? = some t ∧ t'.call = t.call) ∨
      ∃ c, l = .spawn c ∧ i = s.threads.length ∧ t' = .start program c := by
  by_cases hlt : i < s.threads.length
  · obtain ⟨t, ht, hcall, -⟩ := step_thread h (List.getElem?_eq_getElem hlt)
    cases hi.symm.trans ht
    exact .inl ⟨_, List.getElem?_eq_getElem hlt, hcall⟩
  have hlt' : i < s'.threads.length := (List.getElem?_eq_some_iff.mp hi).1
  rcases step_cases h with ⟨c, rfl, rfl⟩ | ⟨χ, -, rfl⟩ | ⟨j, u, hj, hmove⟩
  · have hlen : i < s.threads.length + 1 := by simpa using hlt'
    obtain rfl : i = s.threads.length := by omega
    have hi : (s.threads ++ [.start program c])[s.threads.length]? = some t' := hi
    rw [List.getElem?_concat_length] at hi
    exact .inr ⟨c, rfl, rfl, (Option.some.inj hi).symm⟩
  · exact absurd hlt' hlt
  · cases hmove with
    | run | interrupt | crash => exact absurd (List.length_set ▸ hlt') hlt

/-- Threads stay: a later state has each thread at its place, running the same call, and its
history begins with the history that the thread had before. -/
theorem Reaches.thread (h : Reaches program s s') {i : Nat} {t : Thread B κ α}
    (hi : s.threads[i]? = some t) :
    ∃ t', s'.threads[i]? = some t' ∧ t'.call = t.call ∧ t.log <+: t'.log := by
  refine h.invariant (I := fun s' => ∃ t', s'.threads[i]? = some t' ∧ t'.call = t.call ∧
    t.log <+: t'.log) ⟨t, hi, rfl, List.prefix_refl _⟩ ?_
  rintro s₁ l s₂ ⟨t₁, h₁, hcall, hlog⟩ hst
  obtain ⟨t₂, h₂, hcall', hlog'⟩ := step_thread hst h₁
  exact ⟨t₂, h₂, hcall'.trans hcall, hlog.trans hlog'⟩

/-- A finished thread does nothing any more; at most it disappears. -/
theorem step_finished {l : Label B κ} (h : s.step program l = some s') {i : Nat}
    {t : Thread B κ α} (hi : s.threads[i]? = some t) (hdone : ∃ r, t.prog = .done r) :
    ∃ t', s'.threads[i]? = some t' ∧ t'.log = t.log ∧ ∃ r, t'.prog = .done r := by
  have hlt : i < s.threads.length := (List.getElem?_eq_some_iff.mp hi).1
  rcases step_cases h with ⟨c, -, rfl⟩ | ⟨χ, -, rfl⟩ | ⟨j, u, hj, hmove⟩
  · exact ⟨t, by rwa [List.getElem?_append_left hlt], rfl, hdone⟩
  · exact ⟨t, hi, rfl, hdone⟩
  · by_cases hij : j = i
    · subst hij
      cases hj.symm.trans hi
      obtain ⟨r, hr⟩ := hdone
      cases hmove with
      | run _ hout | interrupt hout =>
        rw [hr] at hout
        cases hout
      | crash => exact ⟨_, List.getElem?_set_self hlt, rfl, _, rfl⟩
    · refine ⟨t, ?_, rfl, hdone⟩
      cases hmove with
      | run | interrupt | crash => exact (List.getElem?_set_ne hij).trans hi

/-- A thread that has ended stays as it is; nothing is added to its history any more. So an answer
that has been given is an answer for good. -/
theorem Reaches.finished (h : Reaches program s s') {i : Nat} {t : Thread B κ α}
    (hi : s.threads[i]? = some t) (hdone : ∃ r, t.prog = .done r) :
    ∃ t', s'.threads[i]? = some t' ∧ t'.log = t.log ∧ ∃ r, t'.prog = .done r := by
  refine h.invariant (I := fun s' => ∃ t', s'.threads[i]? = some t' ∧ t'.log = t.log ∧
    ∃ r, t'.prog = .done r) ⟨t, hi, rfl, hdone⟩ ?_
  rintro s₁ l s₂ ⟨t₁, h₁, hlog, hdone⟩ hst
  obtain ⟨t₂, h₂, hlog', hdone'⟩ := step_finished hst h₁ hdone
  exact ⟨t₂, h₂, hlog'.trans hlog, hdone'⟩

/-- Inversion of an act: the thread, what its program does next and what that leaves. A blocked
thread has none. -/
theorem step_run {i : Nat} {χ : B.Choice} (h : s.step program (.run i χ) = some s') :
    ∃ t p ev w, s.threads[i]? = some t ∧ t.prog.step χ (s.world t) = some (p, ev, w) ∧
      s' = s.resume i t (p, ev, w) := by
  obtain ⟨t, ht, h⟩ := Option.bind_eq_some_iff.mp h
  split at h
  · cases h
  · obtain ⟨⟨p, ev, w⟩, hout, rfl⟩ := Option.map_eq_some_iff.mp h
    exact ⟨t, p, ev, w, ht, hout, rfl⟩

/-- An act of one thread leaves the others as they are. -/
theorem step_run_of_ne {i j : Nat} {χ : B.Choice} (h : s.step program (.run j χ) = some s')
    (hij : i ≠ j) : s'.threads[i]? = s.threads[i]? := by
  obtain ⟨t, p, ev, w, -, -, rfl⟩ := step_run h
  exact List.getElem?_set_ne hij.symm

end State

end Transactional
