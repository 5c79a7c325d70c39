import TradingEngine.Router.Ledger

/-!
# The resting table keeps its accounts

The per-slot counter and dollars of the resting table, and the mark that bounds its scans, against the rows
themselves.
-/

namespace TradingEngine.Router

open Base CoreTypes Finset Function RestingRow

variable {r : RestingRow} {i clientOid : Nat}

namespace RestingRow

def worksFor (r : RestingRow) (s : Nat) : Bool := r.live && r.slot = s

def termOf (s : Nat) (r : RestingRow) : Int := if r.worksFor s then r.term else 0

def countOf (s : Nat) (r : RestingRow) : Int := if r.worksFor s then 1 else 0

theorem termOf_nonneg (s : Nat) (r : RestingRow) : 0 ≤ r.termOf s := by
  unfold termOf
  split
  · exact r.term_nonneg
  · exact Int.le_refl 0

theorem termOf_le (s : Nat) (r : RestingRow) : r.termOf s ≤ instExposureMax := by
  unfold termOf
  split
  · exact r.term_le
  · decide

theorem termOf_dead (dead : r.live = false) (s : Nat) : r.termOf s = 0 := by
  simp [termOf, worksFor, dead]

theorem countOf_dead (dead : r.live = false) (s : Nat) : r.countOf s = 0 := by
  simp [countOf, worksFor, dead]

theorem termOf_self (live : r.live = true) : r.termOf r.slot = r.term := by
  simp [termOf, worksFor, live]

theorem countOf_self (live : r.live = true) : r.countOf r.slot = 1 := by
  simp [countOf, worksFor, live]

theorem termOf_other {s : Nat} (other : r.slot ≠ s) : r.termOf s = 0 := by
  simp [termOf, worksFor, other]

theorem countOf_other {s : Nat} (other : r.slot ≠ s) : r.countOf s = 0 := by
  simp [countOf, worksFor, other]

theorem countOf_congr {r' : RestingRow} (live : r'.live = r.live) (slot : r'.slot = r.slot) (s : Nat) :
    r'.countOf s = r.countOf s := by
  rw [countOf, countOf, worksFor, worksFor, live, slot]

end RestingRow

namespace Resting

def slotCount (t : Resting) (s : Nat) : Nat := #{i ∈ range ledgerResting | (t.rows i).worksFor s}

def slotTerms (t : Resting) (s : Nat) : Int := ∑ i ∈ range ledgerResting, (t.rows i).termOf s

def liveEnd (t : Resting) : Nat := ({i ∈ range ledgerResting | (t.rows i).live}).sup (· + 1)

theorem slotCount_cast (t : Resting) (s : Nat) :
    (t.slotCount s : Int) = ∑ i ∈ range ledgerResting, (t.rows i).countOf s := by
  rw [slotCount, card_filter, Nat.cast_sum]
  refine sum_congr rfl fun i _ => ?_
  unfold countOf
  split <;> rfl

theorem slotCount_le (t : Resting) (s : Nat) : t.slotCount s ≤ ledgerResting := (card_filter_le _ _).trans (card_range _).le

theorem slotTerms_le (t : Resting) (s : Nat) : t.slotTerms s ≤ i64Max := by
  have bound : t.slotTerms s ≤ ledgerResting * instExposureMax := sum_le_mul fun i => (t.rows i).termOf_le s
  refine bound.trans (by decide)

theorem slotTerms_nonneg (t : Resting) (s : Nat) : 0 ≤ t.slotTerms s := sum_nonneg fun i _ => (t.rows i).termOf_nonneg s

theorem termOf_le_slotTerms (t : Resting) (lt : i < ledgerResting) (s : Nat) : (t.rows i).termOf s ≤ t.slotTerms s :=
  term_le_sum lt fun j => (t.rows j).termOf_nonneg s

theorem slotCount_setRow (t : Resting) (lt : i < ledgerResting) (r : RestingRow) (s : Nat) :
    ((t.setRow i r).slotCount s : Int) = t.slotCount s - (t.rows i).countOf s + r.countOf s := by
  rw [slotCount_cast, slotCount_cast]
  exact sum_range_update lt t.rows r (countOf s)

theorem slotTerms_setRow (t : Resting) (lt : i < ledgerResting) (r : RestingRow) (s : Nat) :
    (t.setRow i r).slotTerms s = t.slotTerms s - (t.rows i).termOf s + r.termOf s := sum_range_update lt t.rows r (termOf s)

/-- The table agrees with its counters, but for the submits it missed. The counter is a 32-bit
word, so the count is only claimed while the missed submits leave room for a full table. -/
structure Accounted (t : Resting) (missed : Nat → Nat) : Prop where
  bound : t.hi ≤ ledgerResting
  above : ∀ i, t.hi ≤ i → (t.rows i).live = false
  top : t.hi = 0 ∨ (t.rows (t.hi - 1)).live = true
  slots : ∀ i, (t.rows i).live = true → (t.rows i).slot < execSlots
  word : ∀ s, t.bySlot s ≤ u32Max
  count : ∀ s < execSlots, missed s + ledgerResting ≤ u32Max → t.bySlot s = t.slotCount s + missed s
  covered : ∀ s < execSlots, t.slotTerms s ≤ t.usd1e6 s ∧ t.usd1e6 s ≤ i64Max
  exact : ∀ s < execSlots, missed s = 0 → t.usd1e6 s = t.slotTerms s

variable {t : Resting} {missed : Nat → Nat}

theorem Accounted.live_lt (h : Accounted t missed) (live : (t.rows i).live = true) : i < t.hi := by
  by_contra ge
  have dead := h.above i (by omega)
  simp [live] at dead

theorem Accounted.live_bound (h : Accounted t missed) (live : (t.rows i).live = true) :
    i < ledgerResting := Nat.lt_of_lt_of_le (h.live_lt live) h.bound

theorem new_accounted : Accounted new fun _ => 0 := by
  have dead : ∀ i, (new.rows i).live = false := fun _ => rfl
  have count : ∀ s, new.slotCount s = 0 := by
    intro s
    rw [slotCount, card_eq_zero, filter_eq_empty_iff]
    intro i _
    simp [worksFor, dead]
  have terms : ∀ s, new.slotTerms s = 0 := fun s => sum_eq_zero fun i _ => termOf_dead (dead i) s
  refine ⟨Nat.zero_le _, fun i _ => rfl, .inl rfl, fun i live => ?_, fun s => Nat.zero_le _,
    fun s _ _ => ?_, fun s _ => ?_, fun s _ _ => ?_⟩
  · exact absurd live (by rw [dead i]; decide)
  · rw [count s]
    rfl
  · rw [terms s]
    exact ⟨Int.le_refl 0, show (0 : Int) ≤ i64Max by decide⟩
  · rw [terms s]
    rfl

theorem release_rows (t : Resting) (i : Nat) : (t.release i).rows = update t.rows i .free := by
  unfold release setRow
  by_cases known : (t.rows i).slot < execSlots <;> by_cases top : i + 1 = t.hi <;> simp [known, top]

theorem release_hi (t : Resting) (i : Nat) :
    (t.release i).hi = if i + 1 = t.hi then trim (fun j => (update t.rows i .free j).live) i else t.hi := by
  unfold release setRow
  by_cases known : (t.rows i).slot < execSlots <;> by_cases top : i + 1 = t.hi <;> simp [known, top]

theorem release_bySlot (known : (t.rows i).slot < execSlots) :
    (t.release i).bySlot = update t.bySlot (t.rows i).slot (t.bySlot (t.rows i).slot - 1) := by
  unfold release setRow
  by_cases top : i + 1 = t.hi <;> simp [known, top]

theorem release_usd (known : (t.rows i).slot < execSlots) :
    (t.release i).usd1e6 = update t.usd1e6 (t.rows i).slot (satSub (t.usd1e6 (t.rows i).slot) (t.rows i).term) := by
  unfold release setRow
  by_cases top : i + 1 = t.hi <;> simp [known, top]

theorem release_live {j : Nat} : ((t.release i).rows j).live = true ↔ j ≠ i ∧ (t.rows j).live = true := by
  rw [release_rows]
  by_cases same : j = i
  · subst same
    simp [free]
  · simp [same]

theorem slotCount_release (lt : i < ledgerResting) (s : Nat) :
    ((t.release i).slotCount s : Int) = t.slotCount s - (t.rows i).countOf s := by
  have := t.slotCount_setRow lt .free s
  rw [countOf_dead (r := .free) rfl, add_zero] at this
  rw [← this, slotCount_cast, slotCount_cast, release_rows, setRow]

theorem slotTerms_release (lt : i < ledgerResting) (s : Nat) :
    (t.release i).slotTerms s = t.slotTerms s - (t.rows i).termOf s := by
  have := t.slotTerms_setRow lt .free s
  rw [termOf_dead (r := .free) rfl, add_zero] at this
  rw [← this, slotTerms, slotTerms, release_rows, setRow]

theorem Accounted.word_update (h : Accounted t missed) {n : Nat} (fits : n ≤ u32Max) (slot s : Nat) :
    update t.bySlot slot n s ≤ u32Max :=
  (forall_update_iff t.bySlot fun _ n => n ≤ u32Max).mpr ⟨fits, fun s _ => h.word s⟩ s

theorem release_accounted (h : Accounted t missed) (live : (t.rows i).live = true) :
    Accounted (t.release i) missed := by
  have known := h.slots i live
  have lt := h.live_bound live
  have below := h.live_lt live
  have hi_le : (t.release i).hi ≤ t.hi := by
    rw [release_hi]
    split
    · exact (trim_le _ _).trans (by omega)
    · exact Nat.le_refl _
  have usd : ∀ s < execSlots, ((t.release i).slotTerms s ≤ (t.release i).usd1e6 s ∧ (t.release i).usd1e6 s ≤ i64Max) ∧
      (missed s = 0 → (t.release i).usd1e6 s = (t.release i).slotTerms s) := by
    intro s known'
    have before := h.covered s known'
    have exact := h.exact s known'
    have least := t.termOf_le_slotTerms lt s
    rw [slotTerms_release lt, release_usd known]
    by_cases own : s = (t.rows i).slot
    · subst own
      rw [termOf_self live] at *
      obtain ⟨covers, top, same⟩ := satSub_covers before.1 before.2 (t.rows i).term_nonneg least
      rw [update_self]
      exact ⟨⟨covers, top⟩, fun none => same (exact none)⟩
    · rw [termOf_other (Ne.symm own), update_of_ne own, sub_zero]
      exact ⟨before, exact⟩
  refine ⟨hi_le.trans h.bound, fun j ge => ?_, ?_, fun j alive => ?_, fun s => ?_, fun s known' room => ?_,
    fun s known' => (usd s known').1, fun s known' => (usd s known').2⟩
  · by_contra alive
    rw [Bool.not_eq_false, release_live] at alive
    have := h.live_lt alive.2
    rw [release_hi] at ge
    split at ge
    · rename_i highest
      have dead := trim_above ge (by omega)
      rw [update_of_ne alive.1] at dead
      simp [alive.2] at dead
    · omega
  · rw [release_hi]
    split
    · rw [release_rows]
      exact trim_top
    · rename_i lower
      refine h.top.imp_right fun topLive => release_live.mpr ⟨by omega, topLive⟩
  · have other := release_live.mp alive
    rw [release_rows, update_of_ne other.1]
    exact h.slots j other.2
  · rw [release_bySlot known]
    exact h.word_update ((Nat.sub_le _ _).trans (h.word _)) _ s
  · have before := h.count s known' room
    have after := slotCount_release (t := t) lt s
    rw [release_bySlot known]
    by_cases own : s = (t.rows i).slot
    · subst own
      rw [countOf_self live] at after
      rw [update_self]
      omega
    · rw [countOf_other (Ne.symm own)] at after
      rw [update_of_ne own]
      omega

theorem rewrite_usd (known : r.slot < execSlots) :
    (t.rewrite i r).usd1e6 = update t.usd1e6 r.slot (satAdd (satSub (t.usd1e6 r.slot) (t.rows i).term) r.term) := by
  simp [rewrite, reterm, setRow, Nat.mod_eq_of_lt known]

theorem replaced_usd (h : Accounted t missed) (lt : i < ledgerResting)
    (live : r.live = true) {old : Int} (before : (t.rows i).termOf r.slot = old)
    (others : ∀ s, s ≠ r.slot → (t.rows i).termOf s = 0) (s : Nat) (known : s < execSlots) :
    let u := update t.usd1e6 r.slot (satAdd (satSub (t.usd1e6 r.slot) old) r.term) s
    (t.setRow i r).slotTerms s ≤ u ∧ u ≤ i64Max ∧ (missed s = 0 → u = (t.setRow i r).slotTerms s) := by
  have covered := h.covered s known
  have exact := h.exact s known
  have least := t.termOf_le_slotTerms lt s
  have nonneg := (t.rows i).termOf_nonneg s
  have fits := (t.setRow i r).slotTerms_le s
  rw [slotTerms_setRow t lt] at *
  by_cases own : s = r.slot
  · subst own
    rw [before, termOf_self live] at *
    obtain ⟨covers, top, same⟩ := satSub_covers covered.1 covered.2 nonneg least
    obtain ⟨covers', top', same'⟩ := satAdd_covers covers (by omega) r.term_nonneg fits
    simp only [update_self]
    exact ⟨covers', top', fun none => same' (same (exact none))⟩
  · rw [others s own, termOf_other (Ne.symm own), sub_zero, add_zero] at *
    simp only [update_of_ne own]
    exact ⟨covered.1, covered.2, exact⟩

theorem rewrite_accounted (h : Accounted t missed)
    (live : (t.rows i).live = true) (live' : r.live = true) (slot : r.slot = (t.rows i).slot) :
    Accounted (t.rewrite i r) missed := by
  have lt := h.live_bound live
  have known : r.slot < execSlots := slot ▸ h.slots i live
  have rows : (t.rewrite i r).rows = update t.rows i r := rfl
  have alive : ∀ j, ((t.rewrite i r).rows j).live = (t.rows j).live := by
    intro j
    rw [rows, update_apply]
    split
    · subst j; rw [live, live']
    · rfl
  have usd := replaced_usd h lt live' (slot ▸ termOf_self live)
    fun s other => termOf_other (slot ▸ Ne.symm other)
  refine ⟨h.bound, fun j ge => (alive j).trans (h.above j ge), ?_, fun j alive' => ?_, h.word,
    fun s known' room => ?_, fun s known' => ?_, fun s known' none => ?_⟩
  · exact h.top.imp_right fun top => (alive _).trans top
  · rw [alive] at alive'
    rw [rows, update_apply]
    split
    · exact known
    · exact h.slots j alive'
  · have after := t.slotCount_setRow lt r s
    rw [countOf_congr (live'.trans live.symm) slot] at after
    have before := h.count s known' room
    change t.bySlot s = (t.setRow i r).slotCount s + missed s
    omega
  · rw [rewrite_usd known]
    exact ⟨(usd s known').1, (usd s known').2.1⟩
  · rw [rewrite_usd known]
    exact (usd s known').2.2 none

theorem slotCount_lt_of_dead (lt : i < ledgerResting) (dead : (t.rows i).live = false) (s : Nat) :
    t.slotCount s < ledgerResting := by
  have sub : {i ∈ range ledgerResting | (t.rows i).worksFor s} ⊂ range ledgerResting := by
    refine (filter_ssubset).mpr ⟨i, mem_range.mpr lt, ?_⟩
    simp [worksFor, dead]
  exact (card_lt_card sub).trans_eq (card_range _)

section

variable (h : Accounted t missed)

include h

theorem submit_free_accounted (lt : i < ledgerResting)
    (dead : (t.rows i).live = false) (live : r.live = true) (known : r.slot < execSlots) :
    Accounted
      { (t.occupy i r).reterm i 0 with
        bySlot := update t.bySlot r.slot (bump u32Max (t.bySlot r.slot)) } missed := by
  have usd := replaced_usd h lt live (termOf_dead dead _) fun s _ => termOf_dead dead s
  have updated : ((t.occupy i r).reterm i 0).usd1e6 =
      update t.usd1e6 r.slot (satAdd (satSub (t.usd1e6 r.slot) 0) r.term) := by
    simp [reterm, occupy, setRow, Nat.mod_eq_of_lt known]
  have below := h.bound
  refine ⟨Nat.max_le.mpr ⟨below, lt⟩, fun j ge => ?_, .inr ?_, fun j alive => ?_, h.word_update (bump_le (h.word _)) _,
    fun s known' room => ?_, fun s known' => ?_, fun s known' none => ?_⟩
  · have ge : max t.hi (i + 1) ≤ j := ge
    change (update t.rows i r j).live = false
    rw [update_of_ne (by omega)]
    exact h.above j (by omega)
  · change (update t.rows i r (max t.hi (i + 1) - 1)).live = true
    rcases Nat.lt_or_ge t.hi (i + 1) with new | old
    · rw [show max t.hi (i + 1) - 1 = i by omega, update_self, live]
    have top := h.top.resolve_left (by omega)
    have other : t.hi - 1 ≠ i := by
      intro same
      simp [same, dead] at top
    rw [show max t.hi (i + 1) - 1 = t.hi - 1 by omega, update_of_ne other, top]
  · change (update t.rows i r j).slot < execSlots
    change (update t.rows i r j).live = true at alive
    rw [update_apply] at alive ⊢
    split at alive
    · rwa [if_pos ‹_›]
    · rw [if_neg ‹_›]
      exact h.slots j alive
  · have before := h.count s known' room
    have after := t.slotCount_setRow lt r s
    have space := t.slotCount_lt_of_dead lt dead s
    change update t.bySlot r.slot (bump u32Max (t.bySlot r.slot)) s = (t.setRow i r).slotCount s + missed s
    rw [countOf_dead dead] at after
    by_cases own : s = r.slot
    · subst own
      rw [countOf_self live] at after
      rw [update_self, bump_of_lt (by omega)]
      omega
    · rw [countOf_other (Ne.symm own)] at after
      rw [update_of_ne own]
      omega
  · change (t.setRow i r).slotTerms s ≤ ((t.occupy i r).reterm i 0).usd1e6 s ∧ _ ≤ _
    rw [updated]
    exact ⟨(usd s known').1, (usd s known').2.1⟩
  · change ((t.occupy i r).reterm i 0).usd1e6 s = (t.setRow i r).slotTerms s
    rw [updated]
    exact (usd s known').2.2 none

theorem submit_full_accounted (slot n : Nat) {worth : Int} (nonneg : 0 ≤ worth) :
    Accounted
      { t with
        full := n
        bySlot := update t.bySlot slot (bump u32Max (t.bySlot slot))
        usd1e6 := update t.usd1e6 slot (satAdd (t.usd1e6 slot) worth) }
      (update missed slot (missed slot + 1)) := by
  refine ⟨h.bound, h.above, h.top, h.slots, h.word_update (bump_le (h.word _)) _, fun s known room => ?_,
    fun s known => ?_, fun s known none => ?_⟩
  · change update t.bySlot slot (bump u32Max (t.bySlot slot)) s = t.slotCount s + _
    by_cases own : s = slot
    · subst own
      rw [update_self] at room ⊢
      rw [update_self]
      have before := h.count s known (by omega)
      have := t.slotCount_le s
      rw [bump_of_lt (by omega)]
      omega
    · rw [update_of_ne own] at room ⊢
      rw [update_of_ne own]
      exact h.count s known room
  · have before := h.covered s known
    have := t.slotTerms_nonneg s
    change t.slotTerms s ≤ update t.usd1e6 slot (satAdd (t.usd1e6 slot) worth) s ∧ _ ≤ _
    by_cases own : s = slot
    · subst own
      simp only [update_self]
      exact ⟨before.1.trans (le_satAdd before.2 nonneg), (satAdd_inI64 _ _).2⟩
    · simp only [update_of_ne own]
      exact before
  · by_cases own : s = slot
    · subst own
      rw [update_self] at none
      omega
    · rw [update_of_ne own] at none
      change update t.usd1e6 slot (satAdd (t.usd1e6 slot) worth) s = t.slotTerms s
      rw [update_of_ne own]
      exact h.exact s known none

theorem drop_accounted (yes no : SymbolId) : Accounted (t.dropRestingOn yes no) missed := by
  refine loop_invariant (P := fun _ t => Accounted t missed) h fun i t _ h => ?_
  unfold dropRow
  split
  · exact h
  · rename_i hit
    simp only [not_or, Bool.not_eq_false] at hit
    exact release_accounted h hit.1

theorem clear_loop (slot : Nat) :
    let t' := loop (clearRow slot) t.hi t
    Accounted t' missed ∧ ∀ i, (t'.rows i).worksFor slot = false := by
  have inv := loop_invariant (f := clearRow slot) (n := t.hi) (s := t)
    (P := fun n t' => Accounted t' missed ∧ t'.hi ≤ t.hi ∧ ∀ i < n, (t'.rows i).worksFor slot = false)
    ⟨h, Nat.le_refl _, nofun⟩ fun n t' lt ⟨h', le, clear⟩ => ?_
  · obtain ⟨h', le, clear⟩ := inv
    refine ⟨h', fun i => ?_⟩
    rcases Nat.lt_or_ge i t.hi with lt | ge
    · exact clear i lt
    · simp [worksFor, h'.above i (le.trans ge)]
  · unfold clearRow
    split
    · rename_i hit
      refine ⟨release_accounted h' hit.1, ?_, fun i lt => ?_⟩
      · rw [release_hi]
        split
        · exact (trim_le _ _).trans (by omega)
        · exact le
      · rw [release_rows, update_apply]
        split
        · simp [worksFor, free]
        · exact clear i (by omega)
    · rename_i miss
      refine ⟨h', le, fun i lt => ?_⟩
      rcases Nat.lt_succ_iff_lt_or_eq.mp lt with lt | rfl
      · exact clear i lt
      · simpa [worksFor] using miss

theorem clear_accounted (slot : Nat) : Accounted (t.clearRestingSlot slot) (update missed slot 0) := by
  unfold clearRestingSlot
  split
  · rename_i unknown
    have other : ∀ s < execSlots, s ≠ slot := fun s known => by omega
    refine ⟨h.bound, h.above, h.top, h.slots, h.word, fun s known room => ?_, h.covered, fun s known none => ?_⟩
    · rw [update_of_ne (other s known)] at room ⊢
      exact h.count s known room
    · rw [update_of_ne (other s known)] at none
      exact h.exact s known none
  · obtain ⟨h', clear⟩ := clear_loop h slot
    generalize loop (clearRow slot) t.hi t = t' at h' clear ⊢
    have count : t'.slotCount slot = 0 := by
      rw [slotCount, card_eq_zero, filter_eq_empty_iff]
      intro i _
      simp [clear i]
    have terms : t'.slotTerms slot = 0 := sum_eq_zero fun i _ => by simp [termOf, clear i]
    refine ⟨h'.bound, h'.above, h'.top, h'.slots, h'.word_update (Nat.zero_le _) _, fun s known room => ?_,
      fun s known => ?_, fun s known none => ?_⟩
    · change update t'.bySlot slot 0 s = t'.slotCount s + _
      by_cases own : s = slot
      · subst own
        rw [update_self, update_self, count]
      · rw [update_of_ne own] at room ⊢
        rw [update_of_ne own]
        exact h'.count s known room
    · change t'.slotTerms s ≤ update t'.usd1e6 slot 0 s ∧ _ ≤ _
      by_cases own : s = slot
      · subst own
        rw [terms]
        simp only [update_self]
        decide
      · simp only [update_of_ne own]
        exact h'.covered s known
    · change update t'.usd1e6 slot 0 s = t'.slotTerms s
      by_cases own : s = slot
      · subst own
        rw [terms, update_self]
      · rw [update_of_ne own] at none ⊢
        exact h'.exact s known none

end

def Names (t : Resting) (clientOid slot i : Nat) : Prop :=
  (t.rows i).live = true ∧ (t.rows i).clientOid = clientOid ∧ (t.rows i).slot = slot

def Scanned (t : Resting) (clientOid slot n : Nat) (acc : Nat × Nat) : Prop :=
  (acc = (0, ledgerResting) ∧ ∀ j < n, ¬ t.Names clientOid slot j) ∨
  (acc.1 = 1 ∧ acc.2 < n ∧ t.Names clientOid slot acc.2 ∧ ∀ j < n, t.Names clientOid slot j → j = acc.2) ∨
  acc.1 > 1

theorem locateRow_scanned {slot n : Nat} {acc : Nat × Nat} (seen : t.Scanned clientOid slot n acc) :
    t.Scanned clientOid slot (n + 1) (t.locateRow clientOid slot n acc) := by
  by_cases hit : t.Names clientOid slot n
  · have row : t.locateRow clientOid slot n acc = (acc.1 + 1, if acc.2 = ledgerResting then n else acc.2) := if_pos hit
    rw [row]
    rcases seen with ⟨rfl, clear⟩ | ⟨one, _⟩ | many
    · refine .inr (.inl ⟨rfl, by simp, by simpa using hit, fun j lt named => ?_⟩)
      rcases Nat.lt_succ_iff_lt_or_eq.mp lt with below | rfl
      · exact absurd named (clear j below)
      · simp
    · exact .inr (.inr (by simp [one]))
    · exact .inr (.inr (Nat.lt_succ_of_lt many))
  · have row : t.locateRow clientOid slot n acc = acc := if_neg hit
    have skip : ∀ j < n + 1, t.Names clientOid slot j → j < n := by
      intro j lt named
      rcases Nat.lt_succ_iff_lt_or_eq.mp lt with below | rfl
      · exact below
      · exact absurd named hit
    rw [row]
    rcases seen with ⟨same, clear⟩ | ⟨one, lt, named, only⟩ | many
    · exact .inl ⟨same, fun j lt named => clear j (skip j lt named) named⟩
    · exact .inr (.inl ⟨one, by omega, named, fun j lt named => only j (skip j lt named) named⟩)
    · exact .inr (.inr many)

theorem locateBelow_one {bound slot : Nat} (found : t.locateBelow bound clientOid slot = .one i) :
    slot < execSlots ∧ i < bound ∧ t.Names clientOid slot i ∧ ∀ j < bound, t.Names clientOid slot j → j = i := by
  unfold locateBelow at found
  split at found
  · simp at found
  rename_i known
  have seen : t.Scanned clientOid slot bound (loop (t.locateRow clientOid slot) bound (0, ledgerResting)) :=
    loop_invariant (.inl ⟨rfl, nofun⟩)
      fun n acc _ seen => locateRow_scanned seen
  generalize loop (t.locateRow clientOid slot) bound (0, ledgerResting) = acc at seen found
  rcases seen with ⟨rfl, _⟩ | ⟨one, lt, named, only⟩ | many
  · simp at found
  · simp only [one] at found
    cases found
    exact ⟨by omega, lt, named, only⟩
  · simp [many] at found

theorem locate_one {slot : Nat} (found : t.locate clientOid slot = .one i) :
    t.Names clientOid slot i := (locateBelow_one found).2.2.1

theorem find_one {slot : Nat} (found : t.locate clientOid slot = .one i) : t.find clientOid slot = (t, .one i) := by
  simp [find, found]

theorem find_none {slot : Nat} (found : t.locate clientOid slot = .none) : t.find clientOid slot = (t, .none) := by
  simp [find, found]

theorem find_many {slot : Nat} (found : t.locate clientOid slot = .many) :
    t.find clientOid slot = ({ t with ambiguous := bump u64Max t.ambiguous }, .many) := by
  simp [find, found]

end Resting

end TradingEngine.Router
