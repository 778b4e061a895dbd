import MiniOpenFX.Guarantees.Journal
import MiniOpenFX.Guarantees.Tenants

/-!
# Seeding once

Seed runs may overlap each other and everything else, fail and crash. The demo client is made at
most once, it is funded exactly when it is made, and one run at most is told that it has made it
(`seeded_once`).
-/

namespace MiniOpenFX

open Js Transactional

section
variable [DecimalJs]

/-! ## One seed run -/

/-- What the transaction of a seed run returns and writes: nothing where the client is there, and
otherwise the client, its balances and their entries. -/
inductive SeedRun (db : Database) : Option ClientRow → List Write → Prop where
  | found (h : (db.clientNamed? Seed.DEMO_CLIENT_NAME).isSome) : SeedRun db none []
  | made {client funds ws} (named : client.name = Seed.DEMO_CLIENT_NAME)
      (fresh : db.clientNamed? Seed.DEMO_CLIENT_NAME = none)
      (allowed : (Effect.seed client funds).Allowed db)
      (after : db.after ws = (Effect.seed client funds).apply db) : SeedRun db (some client) ws

/-- The seed run's transaction makes the client and its funds, or finds the client there and writes
nothing. -/
theorem seedBody_within {R : Rely backend} {p : Seen backend} {e : Surroundings} {st : Timestamp}
    {ℓ : History} (he : R.env p.env e) : seedBody.Wp isolation R obligations
      (Within R p st fun client ws _ => SeedRun p.data client ws)
        (.inside ⟨p.data, e⟩ st [] []) ℓ := by
  refine within_request (x := .genRandomUuid) (a := fun χ _ => χ.uuid) (fun _ => trivial)
    (fun _ _ => rfl) he fun χ e he => ?_
  refine within_query (.insertClient χ.uuid) he (fun inserted w hx _ => ?_)
    fun _ _ _ hr => (hr trivial).elim
  obtain ⟨hname, rfl, rfl⟩ | ⟨hname, hid, rfl, rfl⟩ := exec_insertClientIfAbsent.mp hx
  · exact within_pure he (.found hname)
  · have hneeds : needs (.insertClientIfAbsent χ.uuid Seed.DEMO_CLIENT_NAME) (p.data.after []) =
        [.clientName Seed.DEMO_CLIENT_NAME, .clientId χ.uuid] := by
      simp [needs, hname, hid]
    rw [hneeds]
    refine within_bind (funding_wp (show Seed.funding = [] ++ Seed.funding from rfl) .nil
      ⟨hid, by simp, by simp⟩ he rfl) ?_
    rintro - e ws L ℓ he ⟨funds, allowed, hws⟩
    exact within_pure he (.made rfl hname allowed hws)

/-- The history says which client a seed run has inserted, or that it was there. -/
def History.Inserted (ℓ : History) (client : Option ClientRow) : Prop :=
  ∃ id, Event.sql (S := sig) (.insertClientIfAbsent id Seed.DEMO_CLIENT_NAME) (.ok client) ∈ ℓ

/-- The history is that of a seed run that has just committed and answers with `client`. The commit
is its last event. -/
structure History.Seeds (ℓ : History) (client : Option ClientRow) : Prop where
  last : ∃ ℓ₀, ℓ = ℓ₀ ++ [.commit (.ok ())] ∧ .commit (.ok ()) ∉ ℓ₀
  inserted : ∀ other, ℓ.Inserted other ↔ other = client

/-- The acts of the funding. -/
def Funds : Act sig → Prop
  | .sql (.insertBalance ..) | .sql (.insertLedgerEntry _) => True
  | _ => False

/-- A seed run ends with its commit, and answers with what its insert returned: the script tells
what happened and not what it wanted. -/
theorem seed_main_yields : Seed.main.Yields (.free backend)
    (fun ℓ r => ∀ client, r = .ok client → History.Seeds ℓ client) [] := by
  rw [seed_main_eq]
  refine Prog.yields_transaction (fun _ _ h => by cases h) ?_
  unfold seedBody
  refine Prog.yields_request trivial (fun id _ => ?_) fun _ _ _ h => by cases h
  refine Prog.yields_query (fun inserted _ => ?_) fun _ _ _ h => by cases h
  cases inserted with
  | none =>
    rintro client ⟨⟩
    refine ⟨⟨_, rfl, by simp⟩, fun other => ?_⟩
    simp [History.Inserted]
  | some inserted =>
    -- the funding inserts no client and does not commit
    have hacts : Prog.Acts Funds
      (Seed.funding.forM fun f => Seed.fund inserted.id f.1 f.2 : App PUnit) :=
      forM_acts fun f => Prog.Acts.bind (show (App.ofExcept _).Acts Funds from trivial) fun n =>
        (Prog.acts_query trivial).bind fun _ => Prog.acts_query trivial
    refine Prog.yields_bind.mpr ((hacts.yields fun _ _ => trivial).mono ?_)
    rintro ℓ r ⟨ℓ₁, rfl, hℓ₁⟩
    cases r with
    | error x =>
      intro client h
      cases h
    | ok u =>
      rintro client ⟨⟩
      have hcommit : Event.commit (.ok ()) ∉ ℓ₁ := fun h => (hℓ₁ _ h).elim
      have hinsert : ∀ id other, Event.sql (S := sig)
          (.insertClientIfAbsent id Seed.DEMO_CLIENT_NAME) (.ok other) ∉ ℓ₁ :=
        fun _ _ h => (hℓ₁ _ h).elim
      refine ⟨⟨_, rfl, by simp [hcommit]⟩, fun other => ?_⟩
      simp [History.Inserted, hinsert]

/-- A seed run that says that it has made the client has inserted it, and one that says that it has
not has found it. -/
theorem seed_yields (c : Call) : (program c).Yields (.free backend) (fun ℓ r => c = .seed →
    ∀ client, r = .ok (.seeded client) → History.Seeds ℓ client) [] := by
  cases c with
  | seed =>
    refine Prog.yields_bind.mpr (seed_main_yields.mono fun ℓ r hr => ?_)
    cases r with
    | error e =>
      intro _ client h
      cases h
    | ok client =>
      rintro - _ ⟨⟩
      exact hr client rfl
  | getBalances | createDeposit | getPrice | createQuote | getQuoteById | executeTrade =>
    exact ((program_acts _).yields fun _ _ => trivial).mono fun _ _ _ h => by cases h

/-- What a seed run commits, and what its history says about it. Alone with the tables, the run
either finds the client or makes it. -/
theorem CommitsAlone.seedRun {ℓ : History} {db db' : Database} (h : CommitsAlone .seed ℓ db db') :
    ∃ client ws, ℓ.Seeds client ∧ db' = db.after ws ∧ SeedRun db client ws := by
  have heffect : ∀ db client ws, SeedRun db client ws →
      ∃ e : Effect, e.Allowed db ∧ db.after ws = e.apply db := by
    intro db client ws hrun
    cases hrun with
    | found => exact ⟨.nothing, trivial, rfl⟩
    | made _ _ allowed after => exact ⟨_, allowed, after⟩
  cases h with
  | seed alone =>
    obtain ⟨ws, rfl, hrun⟩ := solo_within (P := SeedRun)
      (fun q ℓ => seedBody_within (p := q) (Prog.relySolo.env_refl _)) heffect alone
    exact ⟨_, ws, seed_main_yields.solo alone _ rfl, rfl, hrun⟩

/-! ## All seed runs -/

/-- The funds of the demo client, in minor units. -/
def seedFunds : List (String × Int) := [("USDT", 1000000000000), ("BTC", 100000000)]

/-- What seed runs have done: `demo` is the demo client if it has been made. Its entries are the
only ones of the seed, and every answer fits. -/
structure Seeded (clients : List ClientRow) (s : Sys) (demo : Option ClientRow) : Prop where
  clients : s.data.clients = clients ++ demo.toList
  named : ∀ c ∈ demo, c.name = Seed.DEMO_CLIENT_NAME
  entries : s.data.ledgerEntries.filter (·.refType = "SEED") =
    demo.toList.flatMap fun c => seedFunds.map c.seedEntry
  told : ∀ t ∈ s.threads, t.call = .seed → ∀ client, t.result? = some (.ok (.seeded client)) →
    demo.isSome ∧ ∀ c ∈ client, demo = some c
  once : ∀ (i j : Nat) (t u : Thread backend Call Response) c d, s.threads[i]? = some t →
    s.threads[j]? = some u → t.call = .seed → u.call = .seed →
    t.result? = some (.ok (.seeded (some c))) → u.result? = some (.ok (.seeded (some d))) → i = j

section
variable {clients : List ClientRow} {e : Surroundings} {s s' : Sys} {l : Label backend Call}
  {demo : Option ClientRow}

/-- The amounts of the seed are those it means: the decimals read its two texts exactly. -/
theorem funds_eq [LawfulDecimalJs] {funds : List (String × Int)}
    (h : List.Forall₂ (fun f g =>
      f.1 = g.1 ∧ toMinorUnits (.text f.2) = .ok g.2) Seed.funding funds) :
    funds = seedFunds := by
  have amount : ∀ {text : String} {m n : Int}, decimalText? text = some (m / 10 ^ 8 : ℚ) →
      |m| < 10 ^ 20 → toMinorUnits (.text text) = .ok n → n = m := by
    intro text m n htext hm hn
    obtain ⟨d, hd, hvalue⟩ := LawfulDecimalJs.ofText htext
    have hnew : (DecimalValue.text text).new = .ok d := by rw [DecimalValue.new, hd]
    rw [(clamp_minor hm).1] at hvalue
    exact Except.ok.inj (hn.symm.trans (toMinorUnits_of_minor hm hnew hvalue))
  cases h with
  | cons husdt h =>
  cases h with
  | cons hbtc h =>
  cases h
  have husdt' := amount (m := 1000000000000) (by decide +kernel) (by norm_num) husdt.2
  have hbtc' := amount (m := 100000000) (by decide +kernel) (by norm_num) hbtc.2
  exact congrArg₂ (fun f g => [f, g]) (Prod.ext husdt.1.symm husdt') (Prod.ext hbtc.1.symm hbtc')

omit [DecimalJs] in
theorem Database.postEntries_clients (db : Database) (es : List LedgerEntryRow) :
    (db.postEntries es).clients = db.clients :=
  db.postEntries_keeps es (P := fun d => d.clients = db.clients) rfl
    fun d x _ h => (d.postEntry_clients x).trans h

omit [DecimalJs] in
/-- A step in which no seed run makes the client: what seed runs have done is as before, and a new
answer says that the client was there. -/
theorem Seeded.keep (h : Seeded clients s demo) (hclients : s'.data.clients = s.data.clients)
    (hentries : s'.data.ledgerEntries.filter (·.refType = "SEED") =
      s.data.ledgerEntries.filter (·.refType = "SEED"))
    (hthreads : ∀ (i : Nat) (t : Thread backend Call Response) client, s'.threads[i]? = some t →
      t.call = .seed →
      t.result? = some (.ok (.seeded client)) →
      s.threads[i]? = some t ∨ client = none ∧ demo.isSome) : Seeded clients s' demo where
  clients := hclients.trans h.clients
  named := h.named
  entries := hentries.trans h.entries
  told t ht hcall client hr := by
    obtain ⟨i, hi⟩ := List.getElem?_of_mem ht
    rcases hthreads i t client hi hcall hr with hi | ⟨rfl, hdemo⟩
    · exact h.told t (List.mem_of_getElem? hi) hcall client hr
    · exact ⟨hdemo, fun c hc => by cases hc⟩
  once i j t u c d hi hj ht hu hrt hru := by
    rcases hthreads i t _ hi ht hrt with hi | ⟨hc, -⟩
    · rcases hthreads j u _ hj hu hru with hj | ⟨hd, -⟩
      · exact h.once i j t u c d hi hj ht hu hrt hru
      · cases hd
    · cases hc

omit [DecimalJs] in
/-- The step in which the client is made. It can happen once, since the name is taken from then on.
-/
theorem Seeded.make (h : Seeded clients s none) {client : ClientRow}
    (named : client.name = Seed.DEMO_CLIENT_NAME)
    (hclients : s'.data.clients = s.data.clients ++ [client])
    (hledger : s'.data.ledgerEntries = s.data.ledgerEntries ++ seedFunds.map client.seedEntry)
    (hthreads : ∀ (i : Nat) (t : Thread backend Call Response) other, s'.threads[i]? = some t →
      t.call = .seed → t.result? = some (.ok (.seeded other)) →
      s.threads[i]? = some t ∨ (∃ χ, l = .run i χ) ∧ other = some client) :
    Seeded clients s' (some client) := by
  have hnew : ∀ (i : Nat) (t : Thread backend Call Response) other, s'.threads[i]? = some t →
      t.call = .seed → t.result? = some (.ok (.seeded other)) →
      (∃ χ, l = .run i χ) ∧ other = some client := by
    intro i t other hi hcall hr
    refine (hthreads i t other hi hcall hr).resolve_left fun hi => ?_
    cases (h.told t (List.mem_of_getElem? hi) hcall other hr).1
  refine ⟨?_, fun c hc => ?_, ?_, fun t ht hcall other hr => ?_,
    fun i j t u c d hi hj ht hu hrt hru => ?_⟩
  · simpa [h.clients] using hclients
  · cases hc
    exact named
  · rw [hledger, List.filter_append, h.entries]
    simp [seedFunds, ClientRow.seedEntry]
  · obtain ⟨i, hi⟩ := List.getElem?_of_mem ht
    obtain ⟨-, rfl⟩ := hnew i t other hi hcall hr
    exact ⟨rfl, fun c hc => hc⟩
  · obtain ⟨⟨χ, rfl⟩, -⟩ := hnew i t _ hi ht hrt
    obtain ⟨⟨χ', hl⟩, -⟩ := hnew j u _ hj hu hru
    cases hl
    rfl

/-- A seed call that has its answer had it before, or this step is its commit: the answer comes
with the commit. -/
theorem answered_seed (h : State.Reaches program (Sys.start clients e) s')
    (hst : s.step program l = some s') {i : Nat} {t : Thread backend Call Response}
    (hi : s'.threads[i]? = some t) (hcall : t.call = .seed) {client : Option ClientRow}
    (hr : t.result? = some (.ok (.seeded client))) : s.threads[i]? = some t ∨
      (∃ χ, l = .run i χ) ∧ s.committed l = [(.seed, t.log)] ∧ History.Seeds t.log client := by
  have hseeds := (h.yields seed_yields rfl trivial trivial (fun _ _ _ _ => trivial)
    (List.mem_of_getElem? hi) hr).resolve_left (by simp) hcall client rfl
  obtain ⟨ℓ₀, hℓ, hno⟩ := hseeds.last
  exact (State.answered_of_step hst hi hr hℓ hno).imp_right fun h =>
    ⟨h.1, hcall ▸ h.2, hseeds⟩

/-- Every step keeps the record of the seed runs: one that commits makes the client if nobody has
made it before. -/
theorem Seeded.step [LawfulDecimalJs] (fresh : ∀ c ∈ clients, c.name ≠ Seed.DEMO_CLIENT_NAME)
    (hs : State.Reaches program (Sys.start clients e) s) (hst : s.step program l = some s')
    (h : Seeded clients s demo) : ∃ demo, Seeded clients s' demo := by
  have hold : ∀ {i : Nat} {t : Thread backend Call Response} {client}, s'.threads[i]? = some t →
      t.call = .seed → t.result? = some (.ok (.seeded client)) → s.threads[i]? = some t ∨
        (∃ χ, l = .run i χ) ∧ s.committed l = [(.seed, t.log)] ∧ History.Seeds t.log client :=
    fun hi hcall hr => answered_seed (hs.tail hst) hst hi hcall hr
  have hquiet : s.committed l = [] → ∀ (i : Nat) (t : Thread backend Call Response) client,
      s'.threads[i]? = some t → t.call = .seed → t.result? = some (.ok (.seeded client)) →
      s.threads[i]? = some t ∨ client = none ∧ demo.isSome := by
    intro hnone i t client hi hcall hr
    rcases hold hi hcall hr with hi | ⟨-, hc, -⟩
    · exact .inl hi
    · cases hnone.symm.trans hc
  rcases tables_of_step (isolated_of_reaches hs) hst with
    ⟨hnone, hdata | ⟨t, -, row, dto, -, -, hdata⟩⟩ |
    ⟨c, ℓ, hc, alone⟩
  · exact ⟨demo, h.keep (by rw [hdata]) (by rw [hdata]) (hquiet hnone)⟩
  · exact ⟨demo, h.keep (by rw [hdata]; rfl) (by rw [hdata]; rfl) (hquiet hnone)⟩
  by_cases hseed : c = .seed
  swap
  · -- another call has committed
    have hthreads : ∀ (i : Nat) (t : Thread backend Call Response) client,
        s'.threads[i]? = some t → t.call = .seed → t.result? = some (.ok (.seeded client)) →
        s.threads[i]? = some t ∨ client = none ∧ demo.isSome := by
      intro i t client hi hcall hr
      rcases hold hi hcall hr with hi | ⟨-, hc', -⟩
      · exact .inl hi
      · cases hc.symm.trans hc'
        exact absurd rfl hseed
    obtain ⟨eff, -, hdata, hby⟩ := alone.effect
    cases eff with
    | nothing | seed => exact absurd hby hseed
    | quote row => cases hby
    | deposit clientId currency amountMinor depositId =>
      exact ⟨demo, h.keep (by simp [hdata, Effect.apply]) (by simp [hdata, Effect.apply]) hthreads⟩
    | trade q tradeId key createdAt =>
      refine ⟨demo, h.keep (by simp [hdata, Effect.apply, Write.apply]) ?_ hthreads⟩
      rw [hdata, ledgerEntries_trade]
      simp [QuoteRow.debitEntry, QuoteRow.creditEntry]
  subst hseed
  obtain ⟨client, ws, hseeds, hdata, hrun⟩ := alone.seedRun
  have hanswer : ∀ {t : Thread backend Call Response} {other}, s.committed l = [(.seed, t.log)] →
      History.Seeds t.log other → other = client := by
    intro t other hc' hother
    cases hc.symm.trans hc'
    exact (hseeds.inserted other).mp ((hother.inserted other).mpr rfl)
  cases hrun with
  | found hfound =>
    have hdemo : demo.isSome := by
      obtain ⟨x, hx⟩ := Option.isSome_iff_exists.mp hfound
      have hmem := List.mem_of_find?_eq_some hx
      have hname : x.name = Seed.DEMO_CLIENT_NAME := by simpa using List.find?_some hx
      rw [h.clients] at hmem
      rcases List.mem_append.mp hmem with hold | hnew
      · exact absurd hname (fresh x hold)
      · exact Option.isSome_iff_exists.mpr ⟨x, Option.mem_toList.mp hnew⟩
    refine ⟨demo, h.keep (by rw [hdata]; rfl) (by rw [hdata]; rfl) fun i t other hi hcall hr => ?_⟩
    rcases hold hi hcall hr with hi | ⟨-, hc', hother⟩
    · exact .inl hi
    · exact .inr ⟨hanswer hc' hother, hdemo⟩
  | @made client funds _ named hfresh allowed after =>
    obtain rfl : demo = none := by
      cases demo with
      | none => rfl
      | some c =>
        have hmem : c ∈ s.data.clients := by simp [h.clients]
        exact absurd (decide_eq_true (h.named c rfl)) (List.find?_eq_none.mp hfresh c hmem)
    have hdata : s'.data = (Effect.seed client funds).apply s.data := hdata.trans after
    refine ⟨some client, h.make named (l := l) ?_ ?_ fun i t other hi hcall hr => ?_⟩
    · rw [hdata, Effect.apply, Database.postEntries_clients]
      rfl
    · rw [hdata, ← funds_eq allowed.2]
      simp [Effect.apply, Write.apply]
    · exact (hold hi hcall hr).imp_right fun h => ⟨h.1, hanswer h.2.1 h.2.2⟩

/-- **Seeding happens once.** Whatever seed runs and other calls are in progress, and however their
acts interleave, fail and crash, in a database without a demo client: it is made at most once; its
funds are entered exactly once, if it is made; a seed run that ends well finds it or has made it;
and one run at most is told that it has made it. -/
theorem seeded_once [LawfulDecimalJs] (fresh : ∀ c ∈ clients, c.name ≠ Seed.DEMO_CLIENT_NAME)
    (h : State.Reaches program (Sys.start clients e) s) : ∃ demo, Seeded clients s demo := by
  refine (h.invariant (I := fun s => State.Reaches program (Sys.start clients e) s ∧
    ∃ demo, Seeded clients s demo) ⟨.refl _, none, ?_⟩ ?_).2
  · exact ⟨(List.append_nil clients).symm, fun c hc => (by cases hc), rfl,
      fun t ht => (by cases ht),
      fun i j t u c d hi => (by cases hi)⟩
  · rintro u l u' ⟨hu, demo, hdemo⟩ hst
    exact ⟨hu.tail hst, hdemo.step fresh hu hst⟩

end

end

section
open scoped Reference

/-- Alice's database, with one seed run that has ended. -/
theorem seeded_once_bob : ∃ demo,
    Seeded Sample.clients (Sample.after (Sample.deposits ++ Sample.seeds)) demo :=
  seeded_once (by decide) (Sample.reached (by decide +kernel))

end

end MiniOpenFX
