import Mathlib.Data.List.Sort
import Mathlib.Data.List.Basic

/-!
# Keyset pagination

Rows in strictly descending order of a key are handed out page by page. A page is the first `limit`
rows below a bound; where rows are left out, the bound of the next page is the `cut` of the page's
last row, which need not be its key: it may lie below (`cut a ≤ key a`), as when the key loses
digits on its way to the client and back.

A walk (`Walk`) takes each page from the rows there are then. However they change, what it returns
is strictly descending (`Walk.descending`), and a row that is there throughout is returned, skipped
by a cut or still to come (`Walk.covers`). On rows that stay the same it comes to an end
(`Walk.exists_finished`), and it returns every row exactly if at every page boundary the next row
lies below the cut (`Walk.complete_iff`).
-/

namespace Keyset

variable {α K : Type} [LinearOrder K]

/-- Each row lies above the next. -/
def Descending (key : α → K) (rows : List α) : Prop := rows.Pairwise fun a b => key b < key a

/-- The rows below a bound, if there is one. -/
def below (key : α → K) (bound : Option K) (rows : List α) : List α :=
  rows.filter fun a => ∀ k ∈ bound, key a < k

/-- What a page is taken from: the rows at that time, and how many it may have. The rows may be
others at the next page. -/
structure Source (α : Type) where
  rows : List α
  limit : Nat

/-- The page below a bound. -/
def Source.page (key : α → K) (bound : Option K) (s : Source α) : List α :=
  (below key bound s.rows).take s.limit

/-- The bound of the page after, if rows are left out. -/
def Source.next (key cut : α → K) (bound : Option K) (s : Source α) : Option K :=
  if s.limit < (below key bound s.rows).length then (s.page key bound).getLast?.map cut else none

/-- Pages taken one after the other from a first bound on, with the bound left over in the end.
Each page is taken from its own source. -/
inductive Walk (key cut : α → K) : Option K → List (Source α) → List (List α) → Option K →
    Prop where
  | last (b : Option K) (s : Source α) : Walk key cut b [s] [s.page key b] (s.next key cut b)
  | more {b : Option K} {s : Source α} {k : K} {ss : List (Source α)} {ps : List (List α)}
      {e : Option K} (hnext : s.next key cut b = some k) (rest : Walk key cut (some k) ss ps e) :
      Walk key cut b (s :: ss) (s.page key b :: ps) e

variable {key cut : α → K} {b : Option K} {s : Source α} {a : α}

/-! ## One page -/

/-- The rows below a bound are those with smaller keys; without a bound, all of them. -/
theorem mem_below {rows : List α} : a ∈ below key b rows ↔ a ∈ rows ∧ ∀ k ∈ b, key a < k := by
  simp [below]

/-- The rows below a bound are in descending order, as all rows are. -/
theorem Descending.below {rows : List α} (h : Descending key rows) (b : Option K) :
    Descending key (below key b rows) :=
  List.Pairwise.sublist List.filter_sublist h

/-- A page is in descending order, as all rows are. -/
theorem Descending.page (h : Descending key s.rows) (b : Option K) :
    Descending key (s.page key b) :=
  (h.below b).sublist (List.take_sublist _ _)

theorem lt_of_mem_page (h : a ∈ s.page key b) : ∀ k ∈ b, key a < k :=
  (mem_below.mp (List.mem_of_mem_take h)).2

theorem mem_rows_of_mem_page (h : a ∈ s.page key b) : a ∈ s.rows :=
  (mem_below.mp (List.mem_of_mem_take h)).1

/-- A page has no more rows than the limit. -/
theorem length_page (s : Source α) (b : Option K) : (s.page key b).length ≤ s.limit :=
  List.length_take_le _ _

/-- The last row of a page with a next one. -/
theorem next_eq_some {k : K} (h : s.next key cut b = some k) :
    s.limit < (below key b s.rows).length ∧
      ∃ l, (below key b s.rows)[s.limit - 1]? = some l ∧ 1 ≤ s.limit ∧ k = cut l := by
  unfold Source.next at h
  split at h
  · next hlt =>
    obtain ⟨l, hl, rfl⟩ := Option.map_eq_some_iff.mp h
    have hpos : 1 ≤ s.limit := by
      rcases Nat.eq_zero_or_pos s.limit with h0 | h0
      · rw [Source.page, h0, List.take_zero] at hl
        cases hl
      · exact h0
    refine ⟨hlt, l, ?_, hpos, rfl⟩
    rw [Source.page, List.getLast?_eq_getElem?, List.length_take,
      Nat.min_eq_left (Nat.le_of_lt hlt), List.getElem?_take_of_lt (by omega)] at hl
    exact hl
  · cases h

/-- Every row of a page lies at or above the next bound: the bound is the cut of the last row, and
cuts only go down. -/
theorem le_of_mem_page (hd : Descending key s.rows) (hcut : ∀ a, cut a ≤ key a) {k : K}
    (hk : s.next key cut b = some k) (h : a ∈ s.page key b) : k ≤ key a := by
  obtain ⟨hlt, l, hl, hpos, rfl⟩ := next_eq_some hk
  obtain ⟨i, hi, hia⟩ := List.getElem?_of_mem h |>.elim fun i hi =>
    (⟨i, (List.getElem?_eq_some_iff.mp hi).1, hi⟩ : ∃ i, ∃ _ : i < _, (s.page key b)[i]? = some a)
  have hi' : i < s.limit := Nat.lt_of_lt_of_le hi (length_page s b)
  rw [Source.page, List.getElem?_take_of_lt hi'] at hia
  refine (hcut l).trans ?_
  rcases Nat.lt_or_ge i (s.limit - 1) with hlt' | hge
  · obtain ⟨h₁, rfl⟩ := List.getElem?_eq_some_iff.mp hia
    obtain ⟨h₂, rfl⟩ := List.getElem?_eq_some_iff.mp hl
    exact (List.pairwise_iff_getElem.mp (hd.below b) i _ h₁ h₂ hlt').le
  · rw [show s.limit - 1 = i by omega] at hl
    cases hia.symm.trans hl
    exact le_rfl

/-- No next page exactly when nothing below the bound is left out. A reader who stops there has
seen the rest. -/
theorem next_eq_none_iff (hd : Descending key s.rows) (hlimit : 1 ≤ s.limit) :
    s.next key cut b = none ↔ ∀ a ∈ below key b s.rows, a ∈ s.page key b := by
  have hdb := hd.below b
  constructor
  · intro h a ha
    have hle : (below key b s.rows).length ≤ s.limit := by
      by_contra hlt
      rw [Source.next, if_pos (by omega), Option.map_eq_none_iff, List.getLast?_eq_none_iff,
        Source.page, List.take_eq_nil_iff] at h
      rcases h with h | h
      · omega
      · rw [h] at ha
        cases ha
    rwa [Source.page, List.take_of_length_le hle]
  · intro h
    refine if_neg fun hlt => ?_
    have hmem := h _ (List.getElem_mem hlt)
    obtain ⟨i, hi, heq⟩ := List.mem_iff_getElem.mp hmem
    have hi' : i < s.limit := Nat.lt_of_lt_of_le hi (length_page s b)
    have := List.pairwise_iff_getElem.mp hdb i s.limit (Nat.lt_trans hi' hlt) hlt hi'
    simp only [Source.page, List.getElem_take] at heq
    rw [heq] at this
    exact lt_irrefl _ this

/-! ## Walks -/

variable {ss : List (Source α)} {ps : List (List α)} {e : Option K}

/-- A walk stays below its bound. -/
theorem Walk.lt (h : Walk key cut b ss ps e) (hd : ∀ s ∈ ss, Descending key s.rows)
    (hcut : ∀ a, cut a ≤ key a) : ∀ a ∈ ps.flatten, ∀ k ∈ b, key a < k := by
  induction h with
  | last b s =>
    intro a ha
    rw [List.flatten_cons, List.flatten_nil, List.append_nil] at ha
    exact lt_of_mem_page ha
  | @more b s k ss ps e hnext rest ih =>
    intro a ha k' hk'
    rw [List.flatten_cons, List.mem_append] at ha
    rcases ha with ha | ha
    · exact lt_of_mem_page ha k' hk'
    · have hlt : key a < k := ih (fun s hs => hd s (.tail _ hs)) a ha k rfl
      obtain ⟨-, l, hl, hpos, rfl⟩ := next_eq_some hnext
      have hl' := (mem_below.mp (List.mem_of_getElem? hl)).2 k' hk'
      exact hlt.trans ((hcut l).trans_lt hl')

/-- Whatever the rows are at each page, what a walk returns is strictly descending: the pages lie
below one another. -/
theorem Walk.descending (h : Walk key cut b ss ps e) (hd : ∀ s ∈ ss, Descending key s.rows)
    (hcut : ∀ a, cut a ≤ key a) : Descending key ps.flatten := by
  induction h with
  | last b s =>
    rw [List.flatten_cons, List.flatten_nil, List.append_nil]
    exact (hd s (.head _)).page b
  | @more b s k ss ps e hnext rest ih =>
    have hd' : ∀ s ∈ ss, Descending key s.rows := fun s hs => hd s (.tail _ hs)
    rw [List.flatten_cons]
    refine List.pairwise_append.mpr ⟨(hd s (.head _)).page b, ih hd', fun a ha a' ha' => ?_⟩
    exact (rest.lt hd' hcut a' ha' k rfl).trans_le (le_of_mem_page (hd s (.head _)) hcut hnext ha)

/-- What a page leaves out above the next bound lies between the cut of its last row and that row's
key. -/
theorem skipped_of_next (hd : Descending key s.rows) {k : K} (hk : s.next key cut b = some k)
    (ha : a ∈ below key b s.rows) (hmem : a ∉ s.page key b) (hka : k ≤ key a) :
    ∃ l ∈ s.page key b, cut l ≤ key a ∧ key a < key l := by
  obtain ⟨hlt, l, hl, hpos, rfl⟩ := next_eq_some hk
  obtain ⟨i, hi, rfl⟩ := List.mem_iff_getElem.mp ha
  obtain ⟨hj, rfl⟩ := List.getElem?_eq_some_iff.mp hl
  have htake : ∀ j (h : j < (below key b s.rows).length), j < s.limit →
      (below key b s.rows)[j] ∈ s.page key b := fun j h hjl =>
    List.mem_take_iff_getElem.mpr ⟨j, by omega, rfl⟩
  have hge : s.limit ≤ i := by
    by_contra hlt'
    exact hmem (htake i hi (by omega))
  exact ⟨_, htake _ hj (by omega), hka,
    List.pairwise_iff_getElem.mp (hd.below b) _ _ hj hi (by omega)⟩

/-- A row that is there at every page is returned, lies in a gap between the cut and the key of one
that is, or lies below the bound that is left over. -/
theorem Walk.covers (h : Walk key cut b ss ps e) (hd : ∀ s ∈ ss, Descending key s.rows)
    (hlimit : ∀ s ∈ ss, 1 ≤ s.limit) (ha : ∀ s ∈ ss, a ∈ s.rows) (hb : ∀ k ∈ b, key a < k) :
    a ∈ ps.flatten ∨ (∃ l ∈ ps.flatten, cut l ≤ key a ∧ key a < key l) ∨ ∃ k ∈ e, key a < k := by
  induction h with
  | last b s =>
    have hbelow : a ∈ Keyset.below key b s.rows := mem_below.mpr ⟨ha s (.head _), hb⟩
    rw [List.flatten_cons, List.flatten_nil, List.append_nil]
    by_cases hmem : a ∈ s.page key b
    · exact .inl hmem
    · cases hnext : s.next key cut b with
      | none =>
        exact absurd ((next_eq_none_iff (hd s (.head _))
          (hlimit s (.head _))).mp hnext a hbelow) hmem
      | some k =>
        rcases lt_or_ge (key a) k with hlt | hge
        · exact .inr (.inr ⟨k, rfl, hlt⟩)
        · exact .inr (.inl (skipped_of_next (hd s (.head _)) hnext hbelow hmem hge))
  | @more b s k ss ps e hnext rest ih =>
    have hbelow : a ∈ Keyset.below key b s.rows := mem_below.mpr ⟨ha s (.head _), hb⟩
    simp only [List.flatten_cons, List.mem_append]
    by_cases hmem : a ∈ s.page key b
    · exact .inl (.inl hmem)
    · rcases lt_or_ge (key a) k with hlt | hge
      · rcases ih (fun s hs => hd s (.tail _ hs)) (fun s hs => hlimit s (.tail _ hs))
          (fun s hs => ha s (.tail _ hs)) (fun k' hk' => Option.some.inj hk' ▸ hlt) with
            h | ⟨l, hl, hgap⟩ | h
        · exact .inl (.inr h)
        · exact .inr (.inl ⟨l, .inr hl, hgap⟩)
        · exact .inr (.inr h)
      · obtain ⟨l, hl, hgap⟩ := skipped_of_next (hd s (.head _)) hnext hbelow hmem hge
        exact .inr (.inl ⟨l, .inl hl, hgap⟩)

/-- The bound that is left over is the cut of the last row returned. -/
theorem Walk.last_row {k : K} (h : Walk key cut b ss ps e) (he : e = some k) :
    ∃ l, ps.flatten.getLast? = some l ∧ k = cut l := by
  induction h with
  | last b s =>
    rw [List.flatten_cons, List.flatten_nil, List.append_nil]
    unfold Source.next at he
    split at he
    · obtain ⟨l, hl, rfl⟩ := Option.map_eq_some_iff.mp he
      exact ⟨l, hl, rfl⟩
    · cases he
  | more hnext rest ih =>
    obtain ⟨l, hl, rfl⟩ := ih he
    refine ⟨l, ?_, rfl⟩
    rw [List.flatten_cons, List.getLast?_append, hl]
    rfl

/-- What lies below the next bound lay below the bound. -/
theorem below_next (hcut : ∀ a, cut a ≤ key a) {k : K} (hk : s.next key cut b = some k) :
    below key (some k) s.rows = (below key b s.rows).filter fun a => key a < k := by
  obtain ⟨-, l, hl, -, rfl⟩ := next_eq_some hk
  have hl' := (mem_below.mp (List.mem_of_getElem? hl)).2
  rw [below, below, List.filter_filter]
  refine List.filter_congr fun a _ => ?_
  have himp : key a < cut l → ∀ k ∈ b, key a < k := fun h k hk =>
    h.trans ((hcut l).trans_lt (hl' k hk))
  simpa using himp

/-- The rows below the next bound are fewer: the last row of the page, at least, is not among them.
It is why walks end. -/
theorem length_below_next (hcut : ∀ a, cut a ≤ key a) {k : K} (hk : s.next key cut b = some k) :
    (below key (some k) s.rows).length < (below key b s.rows).length := by
  rw [below_next hcut hk]
  obtain ⟨-, l, hl, -, rfl⟩ := next_eq_some hk
  refine List.length_filter_lt_length_iff_exists.mpr ⟨l, List.mem_of_getElem? hl, ?_⟩
  simpa using hcut l

/-- On rows that stay the same a walk ends, whatever the limits are. By induction on the number of
rows below the bound. -/
theorem exists_finished (hcut : ∀ a, cut a ≤ key a) (rows : List α) (limit : Nat → Nat)
    (b : Option K) :
    ∃ n ps, Walk key cut b ((List.range (n + 1)).map fun i => ⟨rows, limit i⟩) ps none := by
  induction hn : (below key b rows).length using Nat.strongRecOn generalizing b limit with
  | _ n ih =>
    cases hnext : Source.next key cut b ⟨rows, limit 0⟩ with
    | none =>
      have hw : Walk key cut b [⟨rows, limit 0⟩] [Source.page key b ⟨rows, limit 0⟩]
          (Source.next key cut b ⟨rows, limit 0⟩) := .last b _
      rw [hnext] at hw
      exact ⟨0, _, hw⟩
    | some k =>
      have hlt := length_below_next hcut hnext
      obtain ⟨m, ps, hw⟩ := ih _ (hn ▸ hlt) (fun i => limit (i + 1)) (some k) rfl
      refine ⟨m + 1, Source.page key b ⟨rows, limit 0⟩ :: ps, ?_⟩
      rw [List.range_succ_eq_map, List.map_cons, List.map_map]
      exact .more hnext hw

/-- At every boundary between pages of `limit` rows the next row lies below the cut. Where it does
not, the next page begins after it. -/
def Spaced (key cut : α → K) (limit : Nat) (rows : List α) : Prop :=
  ∀ n, 1 ≤ n → ∀ l r, rows[n * limit - 1]? = some l → rows[n * limit]? = some r → key r < cut l

/-- Spaced after the first page, and at its end: the recursion that follows the pages of a walk. -/
theorem spaced_iff {rows : List α} {limit : Nat} (hlimit : 1 ≤ limit) :
    Spaced key cut limit rows ↔
      (∀ l r, rows[limit - 1]? = some l → rows[limit]? = some r → key r < cut l) ∧
        Spaced key cut limit (rows.drop limit) := by
  have hshift : ∀ n, 1 ≤ n → limit + (n * limit - 1) = (n + 1) * limit - 1 := by
    intro n hn
    have : limit ≤ n * limit := Nat.le_mul_of_pos_left _ hn
    rw [Nat.succ_mul]
    omega
  constructor
  · intro h
    refine ⟨fun l r hl hr => h 1 (Nat.le_refl 1) l r (by rwa [Nat.one_mul]) (by rwa [Nat.one_mul]),
      fun n hn l r hl hr => ?_⟩
    rw [List.getElem?_drop] at hl hr
    refine h (n + 1) (Nat.le_add_left _ _) l r (by rwa [← hshift n hn]) ?_
    rwa [Nat.succ_mul, Nat.add_comm]
  · rintro ⟨h₁, h₂⟩ n hn l r hl hr
    obtain ⟨m, rfl⟩ : ∃ m, n = m + 1 := ⟨n - 1, by omega⟩
    cases m with
    | zero => exact h₁ l r (by simpa using hl) (by simpa using hr)
    | succ m =>
      refine h₂ (m + 1) (Nat.le_add_left _ _) l r ?_ ?_
      · rwa [List.getElem?_drop, hshift _ (Nat.le_add_left _ _)]
      · rwa [List.getElem?_drop, Nat.add_comm, ← Nat.succ_mul]

/-- A finished walk over rows that stay the same returns all rows below its bound exactly if they
are spaced. -/
theorem Walk.complete_iff {rows : List α} {limit : Nat} (h : Walk key cut b ss ps e)
    (he : e = none) (hss : ∀ s ∈ ss, s = ⟨rows, limit⟩) (hd : Descending key rows)
    (hlimit : 1 ≤ limit) (hcut : ∀ a, cut a ≤ key a) :
    (∀ a ∈ Keyset.below key b rows, a ∈ ps.flatten) ↔
      Spaced key cut limit (Keyset.below key b rows) := by
  induction h with
  | last b s =>
    cases hss s (.head _)
    have hall := (next_eq_none_iff hd hlimit).mp he
    rw [List.flatten_cons, List.flatten_nil, List.append_nil]
    refine iff_of_true hall fun n hn l r _ hr => ?_
    -- a row after the first `limit` would have been left out
    have hlt := (List.getElem?_eq_some_iff.mp hr).1
    have hle : limit ≤ n * limit := Nat.le_mul_of_pos_left _ hn
    rw [Source.next] at he
    split at he
    · next hlt' =>
      rw [Option.map_eq_none_iff, List.getLast?_eq_none_iff, Source.page,
        List.take_eq_nil_iff] at he
      rcases he with he | he
      · exact absurd he (Nat.ne_of_gt hlimit)
      · rw [he] at hlt
        cases hlt
    · next hge => exact absurd (Nat.lt_of_le_of_lt hle hlt) hge
  | @more b s k ss ps e hnext rest ih =>
    cases hss s (.head _)
    have hss' : ∀ s ∈ ss, s = ⟨rows, limit⟩ := fun s hs => hss s (.tail _ hs)
    have hrest := rest.lt (fun s hs => by rw [hss' s hs]; exact hd) hcut
    have hpage : ∀ a ∈ (Keyset.below key b rows).take limit, k ≤ key a := fun a ha =>
      le_of_mem_page (s := ⟨rows, limit⟩) hd hcut hnext ha
    have hbelow : Keyset.below key (some k) rows =
        (Keyset.below key b rows).filter fun a => key a < k := below_next hcut hnext
    obtain ⟨hlt, l, hl, -, rfl⟩ := next_eq_some hnext
    have hdb := hd.below b
    have ih := ih he hss'
    simp only [Source.page] at hlt hl ⊢
    generalize Keyset.below key b rows = S at *
    have hget : S[limit]? = some S[limit] := List.getElem?_eq_getElem hlt
    rw [spaced_iff hlimit, List.flatten_cons]
    by_cases hr : key S[limit] < cut l
    · have hdrop : Keyset.below key (some (cut l)) rows = S.drop limit := by
        have h₁ : (S.take limit).filter (fun a => key a < cut l) = [] := by
          refine List.filter_eq_nil_iff.mpr fun a ha => ?_
          simpa using hpage a ha
        have h₂ : (S.drop limit).filter (fun a => key a < cut l) = S.drop limit := by
          refine List.filter_eq_self.mpr fun a ha => ?_
          rw [List.drop_eq_getElem_cons hlt] at ha
          rcases List.mem_cons.mp ha with rfl | ha
          · simpa using hr
          · have := List.pairwise_cons.mp
              ((List.drop_eq_getElem_cons hlt) ▸ hdb.sublist (List.drop_sublist limit S))
            simpa using (this.1 a ha).trans hr
        rw [hbelow, ← List.take_append_drop limit S, List.filter_append, h₁, List.nil_append,
          List.take_append_drop, h₂]
      rw [hdrop] at ih
      rw [← ih]
      constructor
      · refine fun hall => ⟨fun l' r' hl' hr' => ?_, fun a ha => ?_⟩
        · cases hl.symm.trans hl'
          cases hget.symm.trans hr'
          exact hr
        · rcases List.mem_append.mp (hall a (List.mem_of_mem_drop ha)) with h | h
          · have := (mem_below.mp (hdrop ▸ ha)).2 _ rfl
            exact absurd (hpage a h) (not_le.mpr this)
          · exact h
      · rintro ⟨-, hall⟩ a ha
        rw [← List.take_append_drop limit S] at ha
        rcases List.mem_append.mp ha with h | h
        · exact List.mem_append_left _ h
        · exact List.mem_append_right _ (hall a h)
    · -- the first row after the page is skipped, and nothing later returns it
      refine iff_of_false (fun hall => ?_) fun h => hr (h.1 _ _ hl hget)
      rcases List.mem_append.mp (hall _ (List.getElem_mem hlt)) with h | h
      · obtain ⟨i, hi, heq⟩ := List.mem_iff_getElem.mp h
        have hi' : i < limit := Nat.lt_of_lt_of_le hi (List.length_take_le _ _)
        have := List.pairwise_iff_getElem.mp hdb i limit (Nat.lt_trans hi' hlt) hlt hi'
        rw [List.getElem_take] at heq
        rw [heq] at this
        exact lt_irrefl _ this
      · exact hr (hrest _ h _ rfl)

end Keyset
