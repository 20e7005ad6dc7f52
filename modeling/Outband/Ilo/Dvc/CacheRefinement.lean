import Mathlib.Data.Set.Function
import Mathlib.Data.Fintype.EquivFin
import Outband.Foundation.MoveToFront
import Outband.Ilo.Dvc.Cache

/-!
# The colour cache is a move-to-front list

`Represents c r` connects the four arrays with a recency list of at most 17
colours: slot `i` holds the entry at position `ccUsage i`. No slot order is
kept, so `cachePrune` may move slots around; it leaves the ranks alone, which is
sound because the marked entries hold the lowest ranks.
-/

namespace Outband.Ilo.Dvc.ColorCache

open Foundation

variable {c c' : ColorCache} {l : List (Nat × Bool)}

/-- Slot `i` holds the entry of `l` at its usage rank, and distinct slots hold
distinct ranks. -/
structure Represents (c : ColorCache) (l : List (Nat × Bool)) : Prop where
  length_eq : l.length = c.ccActive
  active_le : c.ccActive ≤ 17
  rank : ∀ i : Fin 17, i.val < c.ccActive →
    l[c.ccUsage i]? = some (c.ccColor i, decide (c.ccBlock i = 1))
  mark_le : ∀ i : Fin 17, i.val < c.ccActive → c.ccBlock i ≤ 1
  inj : ∀ i j : Fin 17, i.val < c.ccActive → j.val < c.ccActive →
    c.ccUsage i = c.ccUsage j → i = j

theorem represents_of_empty (h : c.ccActive = 0) : Represents c [] := by
  constructor <;> simp [h]

namespace Represents

theorem usage_lt (h : Represents c l) {i : Fin 17} (hi : i.val < c.ccActive) :
    c.ccUsage i < c.ccActive := by
  rw [← h.length_eq]
  exact (List.getElem?_eq_some_iff.mp (h.rank i hi)).1

/-- The ranks of the active slots are a permutation of `0, …, ccActive - 1`. -/
theorem bijOn (h : Represents c l) :
    Set.BijOn c.ccUsage {i | i.val < c.ccActive} (Set.Iio c.ccActive) := by
  have hle := h.active_le
  let f : Fin c.ccActive → Fin c.ccActive := fun i =>
    ⟨c.ccUsage ⟨i, by omega⟩, h.usage_lt i.isLt⟩
  have hf : Function.Injective f := by
    intro i j hij
    have hij : c.ccUsage ⟨i, by omega⟩ = c.ccUsage ⟨j, by omega⟩ := congrArg Fin.val hij
    have := h.inj _ _ i.isLt j.isLt hij
    exact Fin.ext (Fin.mk.inj this)
  refine ⟨fun i hi => h.usage_lt hi, fun i hi j hj => h.inj i j hi hj, ?_⟩
  intro k hk
  obtain ⟨i, hi⟩ := Finite.injective_iff_surjective.mp hf ⟨k, hk⟩
  exact ⟨⟨i, by omega⟩, i.isLt, congrArg Fin.val hi⟩

theorem exists_slot (h : Represents c l) {k : Nat} (hk : k < c.ccActive) :
    ∃ i : Fin 17, i.val < c.ccActive ∧ c.ccUsage i = k := by
  obtain ⟨i, hi, hik⟩ := h.bijOn.surjOn hk
  exact ⟨i, hi, hik⟩

end Represents

/-! ### Promotion -/

theorem bumpBelow_ok (t : Nat) (i : Fin 17) (u : Fin 17 → Nat) :
    bumpBelow t i u = .ok (Function.update u i (if u i < t then u i + 1 else u i)) := by
  rw [bumpBelow, rd_ok i.isLt]
  change (if u i < t then wr Site.ccUsage u i (u i + 1) else pure u) = _
  split
  · rw [wr_ok i.isLt]
  · rw [Function.update_eq_self]
    rfl

/-- All ranks below the threshold move up by one, and slot `k` gets rank 0. -/
theorem promote_ok (hle : c.ccActive ≤ 17) (k : Fin 17) (t : Nat) :
    promote c k t = .ok { c with
      ccBlock := Function.update c.ccBlock k 1
      ccUsage := Function.update
        (fun i => if i.val < c.ccActive then
          (if c.ccUsage i < t then c.ccUsage i + 1 else c.ccUsage i) else c.ccUsage i) k 0 } := by
  have hloop := forUp_cells (ε := Site) (g := fun u => if u < t then u + 1 else u) hle
    (bumpBelow_ok t) c.ccUsage
  rw [promote, wr_ok k.isLt, hloop]
  change (wr Site.ccUsage _ k 0 >>= _) = _
  rw [wr_ok k.isLt]
  rfl

/-- What promotion of slot `k` with threshold `t` needs: every other active slot
holds an entry of `l` whose rank is not `t`. -/
structure Ready (c : ColorCache) (l : List (Nat × Bool)) (k : Fin 17) (t : Nat) : Prop where
  active_le : c.ccActive ≤ 17
  slot_lt : k.val < c.ccActive
  length_eq : (l.eraseIdx t).length + 1 = c.ccActive
  rank : ∀ i : Fin 17, i.val < c.ccActive → i ≠ k →
    l[c.ccUsage i]? = some (c.ccColor i, decide (c.ccBlock i = 1))
  rank_ne : ∀ i : Fin 17, i.val < c.ccActive → i ≠ k → c.ccUsage i ≠ t
  mark_le : ∀ i : Fin 17, i.val < c.ccActive → i ≠ k → c.ccBlock i ≤ 1
  inj : ∀ i j : Fin 17, i.val < c.ccActive → j.val < c.ccActive → i ≠ k → j ≠ k →
    c.ccUsage i = c.ccUsage j → i = j

/-- Promotion moves the entry of slot `k` to the front of the list. -/
theorem Ready.promote {k : Fin 17} {t : Nat} (h : Ready c l k t) :
    ∃ c', promote c k t = .ok c' ∧ c'.ccActive = c.ccActive ∧ c'.pixcode = c.pixcode ∧
      c'.next1 = c.next1 ∧ c'.ccColor = c.ccColor ∧
      Represents c' ((c.ccColor k, true) :: l.eraseIdx t) := by
  refine ⟨_, promote_ok h.active_le k t, rfl, rfl, rfl, rfl, ?_⟩
  constructor
  · exact h.length_eq
  · exact h.active_le
  · intro i hi
    by_cases hik : i = k
    · subst hik
      simp
    · have hrank := h.rank i hi hik
      have hne := h.rank_ne i hi hik
      have hi : i.val < c.ccActive := hi
      simp only [Function.update_of_ne hik, if_pos hi]
      split
      case isTrue hlt =>
        rw [List.getElem?_cons_succ, List.getElem?_eraseIdx_of_lt hlt]
        exact hrank
      case isFalse hge =>
        obtain ⟨u, hu⟩ : ∃ u, c.ccUsage i = u + 1 := ⟨c.ccUsage i - 1, by omega⟩
        rw [hu, List.getElem?_cons_succ, List.getElem?_eraseIdx_of_ge (by omega), ← hu]
        exact hrank
  · intro i hi
    by_cases hik : i = k
    · subst hik
      simp
    · simpa [Function.update_of_ne hik] using h.mark_le i hi hik
  · intro i j hi hj hij
    have hi : i.val < c.ccActive := hi
    have hj : j.val < c.ccActive := hj
    by_cases hik : i = k <;> by_cases hjk : j = k
    · rw [hik, hjk]
    · subst hik
      have hne := h.rank_ne j hj hjk
      simp only [Function.update_self, Function.update_of_ne hjk, if_pos hj] at hij
      split at hij <;> omega
    · subst hjk
      have hne := h.rank_ne i hi hik
      simp only [Function.update_self, Function.update_of_ne hik, if_pos hi] at hij
      split at hij <;> omega
    · have hni := h.rank_ne i hi hik
      have hnj := h.rank_ne j hj hjk
      simp only [Function.update_of_ne hik, Function.update_of_ne hjk, if_pos hi, if_pos hj] at hij
      apply h.inj i j hi hj hik hjk
      split at hij <;> split at hij <;> omega

/-- An active slot is ready for promotion at its own rank. -/
theorem Represents.ready (h : Represents c l) {k : Fin 17} (hk : k.val < c.ccActive) :
    Ready c l k (c.ccUsage k) where
  active_le := h.active_le
  slot_lt := hk
  length_eq := by
    have hlt : c.ccUsage k < l.length := by
      rw [h.length_eq]
      exact h.usage_lt hk
    rw [List.length_eraseIdx_of_lt hlt, ← h.length_eq]
    omega
  rank i hi _ := h.rank i hi
  rank_ne i hi hik heq := hik (h.inj i k hi hk heq)
  mark_le i hi _ := h.mark_le i hi
  inj i j hi hj _ _ := h.inj i j hi hj

/-! ### `cacheLRU` -/

/-- The outcome of the search from slot `i` on: the slot of the colour, or no
such slot and, if one has the last rank, a slot with it. -/
theorem lruSearch_spec (hle : c.ccActive ≤ 17) (color : Nat) {n i : Nat} (idx : Nat)
    (hn : i + n = c.ccActive) :
    (∃ k : Fin 17, lruSearch c color n i idx = .ok (k.val, 1) ∧ k.val < c.ccActive ∧
      c.ccColor k = color) ∨
    (∃ j, lruSearch c color n i idx = .ok (j, 0) ∧
      (∀ k : Fin 17, i ≤ k.val → k.val < c.ccActive → c.ccColor k ≠ color) ∧
      ((j = idx ∧ ∀ k : Fin 17, i ≤ k.val → k.val < c.ccActive → c.ccUsage k ≠ c.ccActive - 1) ∨
        ∃ k : Fin 17, k.val = j ∧ k.val < c.ccActive ∧ c.ccUsage k = c.ccActive - 1)) := by
  induction n generalizing i idx with
  | zero =>
      refine .inr ⟨idx, rfl, ?_, .inl ⟨rfl, ?_⟩⟩
      · intro k hk hka
        omega
      · intro k hk hka
        omega
  | succ n ih =>
      have hi : i < 17 := by omega
      by_cases hcol : color = c.ccColor ⟨i, hi⟩
      · refine .inl ⟨⟨i, hi⟩, ?_, by simp; omega, hcol.symm⟩
        simp [lruSearch, rd_ok hi, hcol, bind, Except.bind, pure, Except.pure]
      · have hround : lruSearch c color (n + 1) i idx =
            lruSearch c color n (i + 1)
              (if c.ccUsage ⟨i, hi⟩ = c.ccActive - 1 then i else idx) := by
          simp [lruSearch, rd_ok hi, hcol, bind, Except.bind]
        rw [hround]
        rcases ih (i := i + 1) (if c.ccUsage ⟨i, hi⟩ = c.ccActive - 1 then i else idx)
          (by omega) with
          hfound | ⟨j, hj, hnone, hlast⟩
        · exact .inl hfound
        · refine .inr ⟨j, hj, ?_, ?_⟩
          · intro k hk hka heq
            by_cases hki : k.val = i
            · have : k = ⟨i, hi⟩ := Fin.ext hki
              exact hcol (by rw [← this, heq])
            · exact hnone k (by omega) hka heq
          · rcases hlast with ⟨hji, hno⟩ | hslot
            · by_cases hu : c.ccUsage ⟨i, hi⟩ = c.ccActive - 1
              · rw [if_pos hu] at hji
                exact .inr ⟨⟨i, hi⟩, hji.symm, by simp; omega, hu⟩
              · rw [if_neg hu] at hji
                refine .inl ⟨hji, ?_⟩
                intro k hk hka heq
                by_cases hki : k.val = i
                · have : k = ⟨i, hi⟩ := Fin.ext hki
                  exact hu (by rw [← this, heq])
                · exact hno k (by omega) hka heq
            · exact .inr hslot

/-- Both places that hold the index width agree with the number of entries. -/
def PixcodeSet (c : ColorCache) : Prop :=
  c.pixcode = pixcodeFor c.ccActive ∧ c.next1 .pixfan = pixcodeFor c.ccActive

/-- The index width is left alone or set, in both places, for some number of entries. -/
def PixcodeStep (c c' : ColorCache) : Prop :=
  (c'.pixcode = c.pixcode ∧ c'.next1 = c.next1) ∨
    ∃ n, c'.pixcode = pixcodeFor n ∧ c'.next1 = Function.update c.next1 .pixfan (pixcodeFor n)

theorem pixcodeSet_setPixcode (c : ColorCache) (n : Nat) :
    PixcodeSet ({ c with ccActive := n }.setPixcode n) := by
  simp [PixcodeSet, setPixcode]

/-- A new slot at the end, holding the colour and no rank of the list. -/
theorem Represents.ready_insert (h : Represents c l) (hlt : c.ccActive < 17) (color : Nat) :
    Ready { c with
      ccActive := c.ccActive + 1
      ccColor := Function.update c.ccColor ⟨c.ccActive, hlt⟩ color
      pixcode := pixcodeFor (c.ccActive + 1)
      next1 := Function.update c.next1 .pixfan (pixcodeFor (c.ccActive + 1)) }
      l ⟨c.ccActive, hlt⟩ c.ccActive := by
  have hactive {i : Fin 17} (hi : i.val < c.ccActive + 1) (hne : i ≠ ⟨c.ccActive, hlt⟩) :
      i.val < c.ccActive := by
    have : i.val ≠ c.ccActive := fun h => hne (Fin.ext h)
    omega
  constructor
  · exact hlt
  · exact Nat.lt_succ_self _
  · rw [List.eraseIdx_of_length_le (Nat.le_of_eq h.length_eq), h.length_eq]
  · intro i hi hne
    simpa [Function.update_of_ne hne] using h.rank i (hactive hi hne)
  · intro i hi hne
    exact Nat.ne_of_lt (h.usage_lt (hactive hi hne))
  · intro i hi hne
    exact h.mark_le i (hactive hi hne)
  · intro i j hi hj hni hnj
    exact h.inj i j (hactive hi hni) (hactive hj hnj)

/-- Overwriting the colour of a slot does not disturb the others. -/
theorem Ready.recolor {k : Fin 17} {t : Nat} (h : Ready c l k t) (color : Nat) :
    Ready { c with ccColor := Function.update c.ccColor k color } l k t where
  active_le := h.active_le
  slot_lt := h.slot_lt
  length_eq := h.length_eq
  rank i hi hne := by simpa [Function.update_of_ne hne] using h.rank i hi hne
  rank_ne := h.rank_ne
  mark_le := h.mark_le
  inj := h.inj

variable {r : Recency 17 Nat}

theorem Represents.mem_iff (h : Represents c l) (color : Nat) :
    (∃ e ∈ l, e.1 = color) ↔ ∃ k : Fin 17, k.val < c.ccActive ∧ c.ccColor k = color := by
  constructor
  · rintro ⟨e, he, hcol⟩
    obtain ⟨p, hp⟩ := List.mem_iff_getElem?.mp he
    have hlt : p < c.ccActive := by
      rw [← h.length_eq]
      exact (List.getElem?_eq_some_iff.mp hp).1
    obtain ⟨k, hk, hkp⟩ := h.exists_slot hlt
    have hrank := h.rank k hk
    rw [hkp, hp] at hrank
    have he := Option.some.inj hrank
    exact ⟨k, hk, by rw [← hcol, he]⟩
  · rintro ⟨k, hk, hcol⟩
    exact ⟨_, List.mem_of_getElem? (h.rank k hk), hcol⟩

/-- The colour is cached in slot `k`: the slot moves to the front. -/
theorem cacheLRU_cached (h : Represents c r.entries) {color : Nat} {k : Fin 17}
    (hsearch : lruSearch c color c.ccActive 0 0 = .ok (k.val, 1)) (hka : k.val < c.ccActive)
    (hcol : c.ccColor k = color) (hwidth : 0 < c.ccActive → PixcodeSet c) :
    ∃ c', cacheLRU c color = .ok (c', 1) ∧ Represents c' (r.use color).entries ∧
      PixcodeSet c' ∧ PixcodeStep c c' := by
  obtain ⟨c', hc', hactive, hpix, hnext, -, hrep⟩ := (h.ready hka).promote
  have hpixset := hwidth (by omega)
  refine ⟨c', ?_, ?_, ?_, .inl ⟨hpix, hnext⟩⟩
  · rw [cacheLRU, hsearch]
    change (rd Site.ccUsage c.ccUsage k >>= _) = _
    rw [rd_ok k.isLt]
    change (promote c k (c.ccUsage k) >>= _) = _
    rw [hc']
    rfl
  · have hrank := h.rank k hka
    rw [hcol] at hrank hrep
    rwa [Recency.use_entries, r.useList_of_mem hrank]
  · rw [PixcodeSet, hpix, hnext, hactive]
    exact hpixset

/-- The colour is not cached and a free slot is left. -/
theorem cacheLRU_insert (h : Represents c r.entries) {color j : Nat} (hlt : c.ccActive < 17)
    (hsearch : lruSearch c color c.ccActive 0 0 = .ok (j, 0)) (hj : j < 17) :
    ∃ c', cacheLRU c color = .ok (c', 0) ∧ Represents c' ((color, true) :: r.entries.take 16) ∧
      PixcodeSet c' ∧ PixcodeStep c c' := by
  obtain ⟨c', hc', hactive, hpix, hnext, -, hrep⟩ := (h.ready_insert hlt color).promote
  refine ⟨c', ?_, ?_, ?_, .inr ⟨_, hpix, hnext⟩⟩
  · rw [cacheLRU, hsearch]
    change (rd Site.ccUsage c.ccUsage j >>= _) = _
    rw [rd_ok hj]
    change (lruInsert c color j _ >>= _) = _
    rw [lruInsert]
    simp only [if_pos hlt, setPixcode]
    rw [wr_ok hlt]
    change (promote _ c.ccActive c.ccActive >>= _) = _
    rw [show promote _ c.ccActive c.ccActive = _ from hc']
    rfl
  · have hlen : r.entries.length ≤ 16 := by
      rw [h.length_eq]
      omega
    rw [List.take_of_length_le hlen]
    rw [List.eraseIdx_of_length_le (Nat.le_of_eq h.length_eq)] at hrep
    simpa using hrep
  · rw [PixcodeSet, hpix, hnext, hactive]
    simp

/-- The colour is not cached and the slot with the last rank is overwritten. -/
theorem cacheLRU_evict (h : Represents c r.entries) {color : Nat} {k : Fin 17}
    (hfull : c.ccActive = 17) (hku : c.ccUsage k = c.ccActive - 1)
    (hsearch : lruSearch c color c.ccActive 0 0 = .ok (k.val, 0)) (hwidth : PixcodeSet c) :
    ∃ c', cacheLRU c color = .ok (c', 0) ∧ Represents c' ((color, true) :: r.entries.take 16) ∧
      PixcodeSet c' ∧ PixcodeStep c c' := by
  have hka : k.val < c.ccActive := by omega
  have hnot : ¬ c.ccActive < 17 := by omega
  obtain ⟨c', hc', hactive, hpix, hnext, -, hrep⟩ := ((h.ready hka).recolor color).promote
  refine ⟨c', ?_, ?_, ?_, .inl ⟨hpix, hnext⟩⟩
  · rw [cacheLRU, hsearch]
    change (rd Site.ccUsage c.ccUsage k >>= _) = _
    rw [rd_ok k.isLt]
    change (lruInsert c color k _ >>= _) = _
    rw [lruInsert]
    simp only [if_neg hnot]
    rw [wr_ok k.isLt]
    change (promote _ k _ >>= _) = _
    rw [show promote _ k.val _ = _ from hc']
    rfl
  · have hlen : r.entries.length = 16 + 1 := by rw [h.length_eq, hfull]
    have hlastRank : c.ccUsage k = 16 := by rw [hku, hfull]
    have htake : r.entries.eraseIdx 16 = r.entries.take 16 := by
      rw [List.eraseIdx_eq_take_drop_succ, List.drop_of_length_le (by omega), List.append_nil]
    rw [← htake]
    rw [hlastRank] at hrep
    simpa using hrep
  · rw [PixcodeSet, hpix, hnext, hactive]
    exact hwidth

/-- A colour that the search does not find is inserted, over the last one when all
slots are taken. -/
theorem cacheLRU_missing (h : Represents c r.entries) {color j : Nat}
    (hsearch : lruSearch c color c.ccActive 0 0 = .ok (j, 0))
    (hlast : (j = 0 ∧ ∀ k : Fin 17, 0 ≤ k.val → k.val < c.ccActive →
        c.ccUsage k ≠ c.ccActive - 1) ∨
      ∃ k : Fin 17, k.val = j ∧ k.val < c.ccActive ∧ c.ccUsage k = c.ccActive - 1)
    (hwidth : 0 < c.ccActive → PixcodeSet c) :
    ∃ c', cacheLRU c color = .ok (c', 0) ∧ Represents c' ((color, true) :: r.entries.take 16) ∧
      PixcodeSet c' ∧ PixcodeStep c c' := by
  by_cases hlt : c.ccActive < 17
  · have hj : j < 17 := by
      rcases hlast with ⟨rfl, -⟩ | ⟨k, rfl, -⟩
      · decide
      · exact k.isLt
    exact cacheLRU_insert h hlt hsearch hj
  · have hfull : c.ccActive = 17 := by
      have := h.active_le
      omega
    rcases hlast with ⟨-, hno⟩ | ⟨k, rfl, -, hku⟩
    · obtain ⟨k, hka, hku⟩ := h.exists_slot (k := c.ccActive - 1) (by omega)
      exact absurd hku (hno k (Nat.zero_le _) hka)
    · exact cacheLRU_evict h hfull hku hsearch (hwidth (by omega))

/-- `cacheLRU` is the use of a key; it returns 1 exactly for a cached colour, and
leaves the index width set after every insertion. -/
theorem cacheLRU_spec (h : Represents c r.entries) (color : Nat)
    (hwidth : 0 < c.ccActive → PixcodeSet c) :
    ∃ c' f, cacheLRU c color = .ok (c', f) ∧ Represents c' (r.use color).entries ∧
      (f = 0 ∨ f = 1) ∧ (f = 1 ↔ ∃ e ∈ r.entries, e.1 = color) ∧ PixcodeSet c' ∧
      PixcodeStep c c' := by
  have hsearch := lruSearch_spec h.active_le color (n := c.ccActive) (i := 0) 0 (by omega)
  rcases hsearch with ⟨k, hk, hka, hcol⟩ | ⟨j, hj, hnone, hlast⟩
  · obtain ⟨c', hc', hrep, hset, hstep⟩ := cacheLRU_cached h hk hka hcol hwidth
    refine ⟨c', 1, hc', hrep, .inr rfl, ?_, hset, hstep⟩
    simp only [true_iff]
    exact (h.mem_iff color).mpr ⟨k, hka, hcol⟩
  · have hnotMem : ∀ e ∈ r.entries, e.1 ≠ color := by
      intro e he heq
      obtain ⟨k, hka, hcol⟩ := (h.mem_iff color).mp ⟨e, he, heq⟩
      exact hnone k (Nat.zero_le _) hka hcol
    have huse : (r.use color).entries = (color, true) :: r.entries.take 16 :=
      Recency.useList_of_notMem hnotMem (by decide)
    obtain ⟨c', hc', hrep, hset, hstep⟩ := cacheLRU_missing h hj hlast hwidth
    refine ⟨c', 0, hc', huse ▸ hrep, .inl rfl, ?_, hset, hstep⟩
    constructor
    · intro h01
      cases h01
    · rintro ⟨e, he, heq⟩
      exact absurd heq (hnotMem e he)

/-! ### `cacheFind` -/

/-- The loop finds the one slot that holds the rank asked for. -/
theorem findFrom_found (h : Represents c l) {k : Fin 17} (hk : k.val < c.ccActive) {n i : Nat}
    (hn : i + n = c.ccActive) (hik : i ≤ k.val) :
    findFrom c (c.ccUsage k) n i =
      promote c k (c.ccUsage k) >>= fun c' => pure (c', (c.ccColor k : Int)) := by
  induction n generalizing i with
  | zero => omega
  | succ n ih =>
      have hle := h.active_le
      have hi : i < 17 := by omega
      rw [findFrom, rd_ok hi]
      by_cases hu : c.ccUsage k = c.ccUsage ⟨i, hi⟩
      · have hki : k = ⟨i, hi⟩ := h.inj k _ hk (by simp; omega) hu
        subst hki
        simp [rd_ok hi, bind, Except.bind]
      · have hne : i ≠ k.val := by
          rintro rfl
          exact hu rfl
        simpa [hu, bind, Except.bind] using ih (i := i + 1) (by omega) (by omega)

theorem findFrom_missing (hle : c.ccActive ≤ 17) {index n i : Nat} (hn : i + n = c.ccActive)
    (hno : ∀ k : Fin 17, k.val < c.ccActive → c.ccUsage k ≠ index) :
    findFrom c index n i = .ok (c, -1) := by
  induction n generalizing i with
  | zero => rfl
  | succ n ih =>
      have hi : i < 17 := by omega
      have hu : index ≠ c.ccUsage ⟨i, hi⟩ := fun heq => hno ⟨i, hi⟩ (by simp; omega) heq.symm
      rw [findFrom, rd_ok hi]
      simpa [hu, bind, Except.bind] using ih (i := i + 1) (by omega)

/-- `cacheFind` returns the colour at a position of the list and moves it to the
front; past the end it returns -1 and changes nothing. -/
theorem cacheFind_spec (h : Represents c r.entries) (index : Nat) :
    ∃ c' v, cacheFind c index = .ok (c', v) ∧ Represents c' (r.front index).entries ∧
      v = (match r.entries[index]? with
        | some e => (e.1 : Int)
        | none => -1) ∧
      c'.ccActive = c.ccActive ∧ c'.pixcode = c.pixcode ∧ c'.next1 = c.next1 := by
  by_cases hlt : index < c.ccActive
  · obtain ⟨k, hka, rfl⟩ := h.exists_slot hlt
    obtain ⟨c', hc', hactive, hpix, hnext, -, hrep⟩ := (h.ready hka).promote
    have hrank := h.rank k hka
    refine ⟨c', c.ccColor k, ?_, ?_, by simp [hrank], hactive, hpix, hnext⟩
    · rw [cacheFind, findFrom_found h hka (by omega) (Nat.zero_le _), hc']
      rfl
    · rwa [r.front_entries hrank]
  · have hlen : r.entries.length ≤ index := by
      rw [h.length_eq]
      omega
    have hno (k : Fin 17) (hk : k.val < c.ccActive) : c.ccUsage k ≠ index := by
      have := h.usage_lt hk
      omega
    refine ⟨c, -1, findFrom_missing h.active_le (by omega) hno, ?_, ?_, rfl, rfl, rfl⟩
    · rwa [r.front_of_length_le hlen]
    · rw [List.getElem?_eq_none hlen]

/-! ### `cachePrune` -/

/-- The prune loop at slot `i` of the `n` slots left: the slots below `i` keep
marked entries and have lost their marks, the others are as they were, and no
marked entry has been dropped. -/
structure Pruning (l : List (Nat × Bool)) (c : ColorCache) (i n : Nat) : Prop where
  le : i ≤ n
  le_cap : n ≤ 17
  kept : ∀ j : Fin 17, j.val < i → l[c.ccUsage j]? = some (c.ccColor j, true)
  cleared : ∀ j : Fin 17, j.val < i → c.ccBlock j = 0
  rest : ∀ j : Fin 17, i ≤ j.val → j.val < n →
    l[c.ccUsage j]? = some (c.ccColor j, decide (c.ccBlock j = 1))
  mark_le : ∀ j : Fin 17, i ≤ j.val → j.val < n → c.ccBlock j ≤ 1
  inj : ∀ j k : Fin 17, j.val < n → k.val < n → c.ccUsage j = c.ccUsage k → j = k
  cover : ∀ p a, l[p]? = some (a, true) → ∃ j : Fin 17, j.val < n ∧ c.ccUsage j = p

/-- A marked slot is kept: its mark is cleared and the loop moves on. -/
theorem Pruning.keep {i n : Nat} (h : Pruning l c i n) (hi : i < n) (hi17 : i < 17)
    (hmark : c.ccBlock ⟨i, hi17⟩ = 1) :
    Pruning l { c with ccBlock := Function.update c.ccBlock ⟨i, hi17⟩ 0 } (i + 1) n where
  le := hi
  le_cap := h.le_cap
  kept j hj := by
    by_cases hji : j = ⟨i, hi17⟩
    · subst hji
      simpa [hmark] using h.rest ⟨i, hi17⟩ (Nat.le_refl _) hi
    · have : j.val ≠ i := fun heq => hji (Fin.ext heq)
      exact h.kept j (by omega)
  cleared j hj := by
    by_cases hji : j = ⟨i, hi17⟩
    · subst hji
      simp
    · have : j.val ≠ i := fun heq => hji (Fin.ext heq)
      simpa [Function.update_of_ne hji] using h.cleared j (by omega)
  rest j hj hjn := by
    have hji : j ≠ ⟨i, hi17⟩ := by
      rintro rfl
      exact Nat.not_succ_le_self i hj
    simpa [Function.update_of_ne hji] using h.rest j (by omega) hjn
  mark_le j hj hjn := by
    have hji : j ≠ ⟨i, hi17⟩ := by
      rintro rfl
      exact Nat.not_succ_le_self i hj
    simpa [Function.update_of_ne hji] using h.mark_le j (by omega) hjn
  inj := h.inj
  cover := h.cover

/-- An unmarked slot is dropped: the last slot takes its place. -/
theorem Pruning.drop {i n : Nat} (h : Pruning l c i n) (hi : i < n) (hi17 : i < 17)
    (hn17 : n - 1 < 17) (hmark : c.ccBlock ⟨i, hi17⟩ = 0) :
    Pruning l { c with
      ccBlock := Function.update c.ccBlock ⟨i, hi17⟩ (c.ccBlock ⟨n - 1, hn17⟩)
      ccColor := Function.update c.ccColor ⟨i, hi17⟩ (c.ccColor ⟨n - 1, hn17⟩)
      ccUsage := Function.update c.ccUsage ⟨i, hi17⟩ (c.ccUsage ⟨n - 1, hn17⟩) } i (n - 1) := by
  have hlast : (⟨n - 1, hn17⟩ : Fin 17).val < n := by simp; omega
  have hlow {j : Fin 17} (hj : j.val < i) : j ≠ ⟨i, hi17⟩ := by
    rintro rfl
    simp at hj
  constructor
  · omega
  · have := h.le_cap
    omega
  · intro j hj
    simpa [Function.update_of_ne (hlow hj)] using h.kept j hj
  · intro j hj
    simpa [Function.update_of_ne (hlow hj)] using h.cleared j hj
  · intro j hj hjn
    by_cases hji : j = ⟨i, hi17⟩
    · subst hji
      simpa using h.rest ⟨n - 1, hn17⟩ (by simp; omega) hlast
    · simpa [Function.update_of_ne hji] using h.rest j hj (by omega)
  · intro j hj hjn
    by_cases hji : j = ⟨i, hi17⟩
    · subst hji
      simpa using h.mark_le ⟨n - 1, hn17⟩ (by simp; omega) hlast
    · simpa [Function.update_of_ne hji] using h.mark_le j hj (by omega)
  · intro j k hj hk hjk
    by_cases hji : j = ⟨i, hi17⟩ <;> by_cases hki : k = ⟨i, hi17⟩
    · rw [hji, hki]
    · rw [hji] at hjk
      simp only [Function.update_self, Function.update_of_ne hki] at hjk
      have := congrArg Fin.val (h.inj _ _ hlast (by omega) hjk)
      simp at this
      omega
    · rw [hki] at hjk
      simp only [Function.update_self, Function.update_of_ne hji] at hjk
      have := congrArg Fin.val (h.inj _ _ (by omega) hlast hjk)
      simp at this
      omega
    · simp only [Function.update_of_ne hji, Function.update_of_ne hki] at hjk
      exact h.inj j k (by omega) (by omega) hjk
  · intro p a hp
    obtain ⟨j, hj, hjp⟩ := h.cover p a hp
    have hji : j ≠ ⟨i, hi17⟩ := by
      rintro rfl
      have := h.rest ⟨i, hi17⟩ (Nat.le_refl _) hi
      rw [hjp, hp] at this
      simp [hmark] at this
    by_cases hjl : j.val = n - 1
    · refine ⟨⟨i, hi17⟩, ?_, ?_⟩
      · have : j.val ≠ i := fun heq => hji (Fin.ext heq)
        simp
        omega
      · have : j = ⟨n - 1, hn17⟩ := Fin.ext hjl
        simp [← this, hjp]
    · exact ⟨j, by omega, by simp [Function.update_of_ne hji, hjp]⟩

theorem pruneLoop_spec {rounds i n : Nat} (h : Pruning l c i n) (hr : n - i ≤ rounds) :
    ∃ c' m, pruneLoop rounds i n c = .ok (c', m) ∧ Pruning l c' m m ∧
      c'.pixcode = c.pixcode ∧ c'.next1 = c.next1 := by
  induction rounds generalizing i n c with
  | zero =>
      have hin : i = n := by
        have := h.le
        omega
      subst hin
      exact ⟨c, i, rfl, h, rfl, rfl⟩
  | succ rounds ih =>
      by_cases hi : i < n
      · have hcap := h.le_cap
        have hi17 : i < 17 := by omega
        have hn17 : n - 1 < 17 := by omega
        rw [pruneLoop, if_pos hi, rd_ok hi17]
        have hle := h.mark_le ⟨i, hi17⟩ (Nat.le_refl _) hi
        by_cases hmark : c.ccBlock ⟨i, hi17⟩ = 0
        · have hnext := ih (h.drop hi hi17 hn17 hmark) (by omega)
          simpa [hmark, rd_ok hn17, wr_ok hi17, bind, Except.bind] using hnext
        · have hone : c.ccBlock ⟨i, hi17⟩ = 1 := by omega
          have hnext := ih (h.keep hi hi17 hone) (by omega)
          simpa [hone, wr_ok hi17, bind, Except.bind] using hnext
      · have hin : i = n := by
          have := h.le
          omega
        subst hin
        exact ⟨c, i, by simp [pruneLoop], h, rfl, rfl⟩

theorem Represents.pruning (h : Represents c l) : Pruning l c 0 c.ccActive where
  le := Nat.zero_le _
  le_cap := h.active_le
  kept j hj := absurd hj (Nat.not_lt_zero _)
  cleared j hj := absurd hj (Nat.not_lt_zero _)
  rest j _ hj := h.rank j hj
  mark_le j _ hj := h.mark_le j hj
  inj := h.inj
  cover p a hp := by
    apply h.exists_slot
    rw [← h.length_eq]
    exact (List.getElem?_eq_some_iff.mp hp).1

/-- When every slot left is kept, there are as many as marked entries. -/
theorem Pruning.length_eq {m : Nat} (h : Pruning l c m m)
    (hl : l.Pairwise fun a b => b.2 = true → a.2 = true) : (Recency.pruneList l).length = m := by
  have hcap := h.le_cap
  have hrank (j : Fin m) : c.ccUsage ⟨j, by omega⟩ < (Recency.pruneList l).length :=
    (Recency.lt_length_pruneList_iff hl _).mpr ⟨_, h.kept ⟨j, by omega⟩ j.isLt⟩
  let f : Fin m → Fin (Recency.pruneList l).length := fun j => ⟨_, hrank j⟩
  have hinj : Function.Injective f := by
    intro j k hjk
    have := h.inj _ _ j.isLt k.isLt (congrArg Fin.val hjk)
    exact Fin.ext (Fin.mk.inj this)
  have hsurj : Function.Surjective f := by
    intro p
    obtain ⟨a, ha⟩ := (Recency.lt_length_pruneList_iff hl p).mp p.isLt
    obtain ⟨j, hj, hjp⟩ := h.cover p a ha
    exact ⟨⟨j, hj⟩, Fin.ext hjp⟩
  have := Fintype.card_of_bijective ⟨hinj, hsurj⟩
  simpa using this.symm

/-- `cachePrune` keeps exactly the marked entries, in order, and clears their
marks; the index width is set to the new number of entries. -/
theorem cachePrune_spec (h : Represents c r.entries) :
    ∃ c', cachePrune c = .ok c' ∧ Represents c' r.prune.entries ∧ PixcodeSet c' ∧
      PixcodeStep c c' := by
  obtain ⟨c', m, hloop, hm, -, hnext⟩ :=
    pruneLoop_spec (n := c.ccActive) h.pruning (Nat.le_of_eq (Nat.sub_zero _))
  refine ⟨{ c' with ccActive := m }.setPixcode m, ?_, ?_, pixcodeSet_setPixcode c' m,
    .inr ⟨m, rfl, by rw [← hnext]; rfl⟩⟩
  · rw [cachePrune, hloop]
    rfl
  · constructor
    · exact hm.length_eq r.marked_first
    · exact hm.le_cap
    · intro j hj
      have hkept := Recency.getElem?_pruneList r.marked_first (hm.kept j hj)
      have hclear := hm.cleared j hj
      simpa [setPixcode, Recency.prune, hclear] using hkept
    · intro j hj
      have hclear : c'.ccBlock j = 0 := hm.cleared j hj
      simp [setPixcode, hclear]
    · exact hm.inj

/-! ### Sequences of operations -/

/-- The calls a decoder makes on its cache. -/
inductive Op
  | cacheLRU (color : Nat)
  | cacheFind (index : Nat)
  | cachePrune
  | cacheReset
  deriving DecidableEq, Repr

/-- One call on the arrays, with the value it returns (0 when it returns none). -/
def Op.apply (c : ColorCache) : Op → Except Site (ColorCache × Int)
  | .cacheLRU color => do
      let (c, found) ← c.cacheLRU color
      pure (c, (found : Int))
  | .cacheFind index => c.cacheFind index
  | .cachePrune => do
      let c ← c.cachePrune
      pure (c, 0)
  | .cacheReset => pure (c.cacheReset, 0)

/-- The same call on the recency list. -/
def Op.spec (r : Recency 17 Nat) : Op → Recency 17 Nat × Int
  | .cacheLRU color => (r.use color, if ∃ e ∈ r.entries, e.1 = color then 1 else 0)
  | .cacheFind index =>
      (r.front index, match r.entries[index]? with
        | some e => (e.1 : Int)
        | none => -1)
  | .cachePrune => (r.prune, 0)
  | .cacheReset => (.empty, 0)

/-- The calls that set the index width: an insertion and a prune. -/
def Op.SetsPixcode (r : Recency 17 Nat) : Op → Prop
  | .cacheLRU color => ∀ e ∈ r.entries, e.1 ≠ color
  | .cacheFind _ => False
  | .cachePrune => True
  | .cacheReset => False

/-- A list of calls on the arrays, with all values returned. -/
def applyAll : List Op → ColorCache → Except Site (ColorCache × List Int)
  | [], c => .ok (c, [])
  | op :: rest, c => do
      let (c, v) ← op.apply c
      let (c, vs) ← applyAll rest c
      pure (c, v :: vs)

/-- A list of calls on the recency list, with all values returned. -/
def specAll : List Op → Recency 17 Nat → Recency 17 Nat × List Int
  | [], r => (r, [])
  | op :: rest, r =>
      let (r, v) := op.spec r
      let (r, vs) := specAll rest r
      (r, v :: vs)

/-- The relation every call keeps: the arrays represent the list, and with any
entry at all the index width is right. -/
structure Refines (c : ColorCache) (r : Recency 17 Nat) : Prop where
  represents : Represents c r.entries
  pixcode : 0 < c.ccActive → PixcodeSet c

theorem Op.apply_spec (op : Op) (h : Refines c r) :
    ∃ c', op.apply c = .ok (c', (op.spec r).2) ∧ Refines c' (op.spec r).1 ∧
      (op.SetsPixcode r → PixcodeSet c') := by
  cases op with
  | cacheLRU color =>
      obtain ⟨c', f, hf, hrep, h01, hiff, hpix, -⟩ := cacheLRU_spec h.represents color h.pixcode
      refine ⟨c', ?_, ⟨hrep, fun _ => hpix⟩, fun _ => hpix⟩
      have hvalue : (f : Int) = if ∃ e ∈ r.entries, e.1 = color then 1 else 0 := by
        by_cases hmem : ∃ e ∈ r.entries, e.1 = color
        · rw [if_pos hmem, hiff.mpr hmem]
          rfl
        · have hf1 : f ≠ 1 := fun hf1 => hmem (hiff.mp hf1)
          rw [if_neg hmem]
          omega
      simp only [Op.apply, Op.spec, hf, ← hvalue]
      rfl
  | cacheFind index =>
      obtain ⟨c', v, hf, hrep, hv, hactive, hpix, hnext⟩ := cacheFind_spec h.represents index
      refine ⟨c', ?_, ⟨hrep, ?_⟩, fun h => h.elim⟩
      · simp only [Op.apply, Op.spec, hf, hv]
      · intro hpos
        rw [PixcodeSet, hactive, hpix, hnext]
        exact h.pixcode (hactive ▸ hpos)
  | cachePrune =>
      obtain ⟨c', hf, hrep, hpix, -⟩ := cachePrune_spec h.represents
      refine ⟨c', ?_, ⟨hrep, fun _ => hpix⟩, fun _ => hpix⟩
      simp only [Op.apply, Op.spec, hf]
      rfl
  | cacheReset =>
      refine ⟨c.cacheReset, rfl, ⟨represents_of_empty rfl, ?_⟩, fun h => h.elim⟩
      intro hpos
      exact absurd hpos (Nat.lt_irrefl 0)

theorem applyAll_spec (ops : List Op) (h : Refines c r) :
    ∃ c', applyAll ops c = .ok (c', (specAll ops r).2) ∧ Refines c' (specAll ops r).1 := by
  induction ops generalizing c r with
  | nil => exact ⟨c, rfl, h⟩
  | cons op rest ih =>
      obtain ⟨c₁, hop, hrefines, -⟩ := op.apply_spec h
      obtain ⟨c₂, hrest, hfinal⟩ := ih hrefines
      refine ⟨c₂, ?_, hfinal⟩
      rw [applyAll, hop]
      change (applyAll rest c₁ >>= _) = _
      rw [hrest]
      rfl

/-- From an empty cache every sequence of calls runs without a fault and
returns what the move-to-front list returns. The arrays represent that list:
the ranks of the active slots are a permutation, the colours are distinct and
marked entries come first. The last call leaves the index width right when it
inserts or prunes. -/
theorem cache_refines_recency (ops : List Op) (op : Op) (hempty : c.ccActive = 0) :
    ∃ c₁ c₂, applyAll ops c = .ok (c₁, (specAll ops .empty).2) ∧
      op.apply c₁ = .ok (c₂, (op.spec (specAll ops .empty).1).2) ∧
      Represents c₁ (specAll ops .empty).1.entries ∧
      Represents c₂ (op.spec (specAll ops .empty).1).1.entries ∧
      Set.BijOn c₂.ccUsage {i | i.val < c₂.ccActive} (Set.Iio c₂.ccActive) ∧
      (∀ i j : Fin 17, i.val < c₂.ccActive → j.val < c₂.ccActive →
        c₂.ccBlock i = 1 → c₂.ccBlock j = 0 → c₂.ccUsage i < c₂.ccUsage j) ∧
      (op.SetsPixcode (specAll ops .empty).1 →
        c₂.pixcode = pixcodeFor c₂.ccActive ∧ c₂.next1 .pixfan = c₂.pixcode) := by
  have hstart : Refines c .empty := by
    refine ⟨represents_of_empty hempty, ?_⟩
    intro hpos
    omega
  obtain ⟨c₁, hops, hmid⟩ := applyAll_spec ops hstart
  obtain ⟨c₂, hop, hend, hset⟩ := op.apply_spec hmid
  refine ⟨c₁, c₂, hops, hop, hmid.represents, hend.represents, hend.represents.bijOn, ?_, ?_⟩
  · intro i j hi hj hmi hmj
    have hri := hend.represents.rank i hi
    have hrj := hend.represents.rank j hj
    by_contra hnot
    have hne : c₂.ccUsage j ≠ c₂.ccUsage i := by
      intro heq
      have := hend.represents.inj j i hj hi heq
      rw [this, hmi] at hmj
      cases hmj
    obtain ⟨hli, hgi⟩ := List.getElem?_eq_some_iff.mp hri
    obtain ⟨hlj, hgj⟩ := List.getElem?_eq_some_iff.mp hrj
    have hsorted := List.pairwise_iff_getElem.mp (op.spec (specAll ops .empty).1).1.marked_first
      _ _ hlj hli (by omega)
    rw [hgi, hgj] at hsorted
    simp [hmi, hmj] at hsorted
  · intro hsets
    obtain ⟨hpix, hnext⟩ := hset hsets
    exact ⟨hpix, by rw [hnext, hpix]⟩

/-- Two colours, the first used again, and a prune: a fresh cache plays them as the list does. -/
theorem cache_refines_recency_three :
    ∃ c₁ c₂ : ColorCache,
      applyAll [.cacheLRU 7, .cacheLRU 9, .cacheFind 1] {} = .ok (c₁, [0, 0, 7]) ∧
      Op.apply c₁ .cachePrune = .ok (c₂, 0) ∧
      Represents c₂ [(7, false), (9, false)] := by
  obtain ⟨c₁, c₂, h₁, h₂, -, hrep, -⟩ :=
    cache_refines_recency (c := {}) [.cacheLRU 7, .cacheLRU 9, .cacheFind 1] .cachePrune rfl
  exact ⟨c₁, c₂, h₁, h₂, hrep⟩

end Outband.Ilo.Dvc.ColorCache
