import TradingEngine.Base.Ring

/-!
# The single-producer single-consumer ring

The loads and stores of the two shared indices and the copy into a slot are the atomic steps; what a handle does
between them is private to it.
-/

namespace TradingEngine.Spsc

open Base List

def word : Nat := 2 ^ 64

def wrappingAdd (a b : Nat) : Nat := (a + b) % word

def wrappingSub (a b : Nat) : Nat := (a + (word - b)) % word

/-- Where the producer stands in `try_push_ref`. -/
inductive Push (α : Type) where
  | idle
  | loading (src : α)
  | copying (src : α)
  | storing (src : α)

/-- Where the consumer stands: in `try_pop_ref`, or holding a guard. -/
inductive Pop where
  | idle
  | loading
  | lent
  deriving DecidableEq

structure State (α : Type) where
  head : Nat
  tail : Nat
  /-- `none` is a slot that was never written. -/
  slots : Nat → Option α
  prodHead : Nat
  tailCache : Nat
  push : Push α
  consTail : Nat
  headCache : Nat
  pop : Pop
  accepted : List α
  obtained : List (Option α)

def init {α : Type} : State α := ⟨0, 0, fun _ => none, 0, 0, .idle, 0, 0, .idle, [], []⟩

/-- The steps of both sides. A `forget` is a guard that is leaked, not dropped. -/
inductive Act (α : Type) where
  | tryPush (src : α)
  | loadTail
  | copy
  | storeHead
  | tryPop
  | loadHead
  | drop
  | forget

variable {α : Type}

def slot (k pos : Nat) : Nat := pos &&& (2 ^ k - 1)

/-- What the guard's `deref` reads. -/
def State.borrowed (k : Nat) (s : State α) : Option α := s.slots (slot k s.consTail)

/-- One step; one that its side is not about to take does nothing. -/
def step (k : Nat) (s : State α) : Act α → State α
  | .tryPush src =>
    match s.push with
    | .idle => { s with push := if wrappingSub s.prodHead s.tailCache ≥ 2 ^ k then .loading src else .copying src }
    | _ => s
  | .loadTail =>
    match s.push with
    | .loading src =>
      if wrappingSub s.prodHead s.tail ≥ 2 ^ k then { s with push := .idle }
      else { s with tailCache := s.tail, push := .copying src }
    | _ => s
  | .copy =>
    match s.push with
    | .copying src => { s with slots := Function.update s.slots (slot k s.prodHead) (some src), push := .storing src }
    | _ => s
  | .storeHead =>
    match s.push with
    | .storing src =>
      let next := wrappingAdd s.prodHead 1
      { s with prodHead := next, head := next, push := .idle, accepted := s.accepted ++ [src] }
    | _ => s
  | .tryPop =>
    match s.pop with
    | .idle => { s with pop := if s.consTail = s.headCache then .loading else .lent }
    | _ => s
  | .loadHead =>
    match s.pop with
    | .loading => if s.head = s.consTail then { s with pop := .idle } else { s with headCache := s.head, pop := .lent }
    | _ => s
  | .drop =>
    match s.pop with
    | .lent =>
      let next := wrappingAdd s.consTail 1
      { s with consTail := next, tail := next, pop := .idle, obtained := s.obtained ++ [s.borrowed k] }
    | _ => s
  | .forget =>
    match s.pop with
    | .lent => { s with pop := .idle }
    | _ => s

theorem wrappingSub_mod {a b : Nat} (le : b ≤ a) (near : a < b + word) : wrappingSub (a % word) (b % word) = a - b := by
  unfold wrappingSub word at *
  omega

theorem wrappingAdd_mod (a : Nat) : wrappingAdd (a % word) 1 = (a + 1) % word := by
  unfold wrappingAdd word
  omega

theorem mod_word_inj {a b : Nat} (le : b ≤ a) (near : a < b + word) (same : a % word = b % word) : a = b := by
  unfold word at *
  omega

variable {k : Nat}

theorem slot_mod (small : k < 64) (n : Nat) : slot k (n % word) = n % 2 ^ k := by
  rw [slot, Nat.and_two_pow_sub_one_eq_mod, word]
  exact Nat.mod_mod_of_dvd n (Nat.pow_dvd_pow 2 small.le)

theorem capacity_lt (small : k < 64) : 2 ^ k < word := Nat.pow_lt_pow_right (by decide) small

theorem slot_apart {i j : Nat} (lt : i < j) (near : j < i + 2 ^ k) : i % 2 ^ k ≠ j % 2 ^ k := by
  have apart : (i + 0) % 2 ^ k ≠ (i + (j - i)) % 2 ^ k := RingBuffer.offset_ne (by omega) (by omega)
  rwa [Nat.add_zero, Nat.add_sub_cancel' lt.le] at apart

/-- `released` and `published` are the counters that the two caches were loaded from. -/
structure Valid (k : Nat) (s : State α) (released published : Nat) : Prop where
  head : s.head = s.accepted.length % word
  tail : s.tail = s.obtained.length % word
  prodHead : s.prodHead = s.accepted.length % word
  consTail : s.consTail = s.obtained.length % word
  tailCache : s.tailCache = released % word
  headCache : s.headCache = published % word
  lags : released ≤ s.obtained.length
  room : s.accepted.length ≤ released + 2 ^ k
  taken : s.obtained.length ≤ published
  leads : published ≤ s.accepted.length
  held : ∀ i, s.obtained.length ≤ i → i < s.accepted.length → s.slots (i % 2 ^ k) = s.accepted[i]?
  past : s.obtained = (s.accepted.take s.obtained.length).map some
  copying : ∀ src, s.push = .copying src → s.accepted.length < released + 2 ^ k
  storing : ∀ src, s.push = .storing src →
    s.accepted.length < released + 2 ^ k ∧ s.slots (s.accepted.length % 2 ^ k) = some src
  lent : s.pop = .lent → s.obtained.length < published

namespace Valid

variable {s : State α} {released published : Nat}

theorem start : Valid k (init (α := α)) 0 0 := by
  constructor <;> simp [init, word]

section

variable (small : k < 64)

include small

section

variable (v : Valid k s released published)

include v

theorem near : s.accepted.length < released + word := v.room.trans_lt (Nat.add_lt_add_left (capacity_lt small) released)

theorem seen_full : wrappingSub s.prodHead s.tailCache = s.accepted.length - released := by
  have near := v.near small
  rw [v.prodHead, v.tailCache]
  have behind := v.lags.trans (v.taken.trans v.leads)
  exact wrappingSub_mod behind (by omega)

theorem loaded_full : wrappingSub s.prodHead s.tail = s.accepted.length - s.obtained.length := by
  have near := v.near small
  have lags := v.lags
  rw [v.prodHead, v.tail]
  exact wrappingSub_mod (v.taken.trans v.leads) (by omega)

theorem seen_elements : wrappingSub s.headCache s.consTail = published - s.obtained.length := by
  have near := v.near small
  have lags := v.lags
  have leads := v.leads
  rw [v.headCache, v.consTail]
  exact wrappingSub_mod v.taken (by omega)

theorem head_empty (same : s.head = s.consTail) : s.accepted.length = s.obtained.length := by
  have near := v.near small
  have lags := v.lags
  rw [v.head, v.consTail] at same
  exact mod_word_inj (v.taken.trans v.leads) (by omega) same

theorem borrowed (lent : s.pop = .lent) : s.borrowed k = s.accepted[s.obtained.length]? := by
  rw [State.borrowed, v.consTail, slot_mod small]
  exact v.held _ le_rfl ((v.lent lent).trans_le v.leads)

theorem obtained_next (lent : s.pop = .lent) :
    s.obtained ++ [s.borrowed k] = (s.accepted.take (s.obtained.length + 1)).map some := by
  have there : s.obtained.length < s.accepted.length := (v.lent lent).trans_le v.leads
  rw [v.borrowed small lent, take_add_one, map_append, ← v.past, getElem?_eq_getElem there]
  rfl

theorem copy_apart {src : α} (copying : s.push = .copying src)
    {i : Nat} (unreleased : s.obtained.length ≤ i) (there : i < s.accepted.length) :
    i % 2 ^ k ≠ slot k s.prodHead := by
  rw [v.prodHead, slot_mod small]
  exact slot_apart there (by have := v.copying src copying; have := v.lags; omega)

end

end

end Valid

variable {s : State α} {released published : Nat}

theorem Valid.produce (small : k < 64) (v : Valid k s released published) (a : Act α)
    (producer : a = .loadTail ∨ a = .copy ∨ a = .storeHead ∨ ∃ src, a = .tryPush src) :
    ∃ released, Valid k (step k s a) released published := by
  rcases producer with rfl | rfl | rfl | ⟨src, rfl⟩
  · rw [step]
    split
    · rename_i src loading
      split
      · exact ⟨released, { v with copying := nofun, storing := nofun }⟩
      rename_i less
      rw [v.loaded_full small] at less
      have inside : s.accepted.length < s.obtained.length + 2 ^ k := by omega
      exact ⟨s.obtained.length, { v with
          tailCache := v.tail
          lags := le_rfl
          room := inside.le
          copying := fun _ _ => inside
          storing := nofun }⟩
    · exact ⟨released, v⟩
  · rw [step]
    split
    · rename_i src copying
      have inside := v.copying src copying
      refine ⟨released, { v with held := ?_, copying := nofun, storing := ?_ }⟩
      · intro i unreleased there
        exact (Function.update_of_ne (v.copy_apart small copying unreleased there) _ _).trans (v.held i unreleased there)
      rintro _ ⟨rfl⟩
      refine ⟨inside, ?_⟩
      dsimp only
      rw [v.prodHead, slot_mod small, Function.update_self]
    · exact ⟨released, v⟩
  · rw [step]
    split
    · rename_i src storing
      obtain ⟨inside, written⟩ := v.storing src storing
      have next : wrappingAdd s.prodHead 1 = (s.accepted.length + 1) % word := by rw [v.prodHead, wrappingAdd_mod]
      have length : (s.accepted ++ [src]).length = s.accepted.length + 1 := by simp
      have grown := v.taken.trans v.leads
      refine ⟨released, { v with
          head := by dsimp only; rw [length, next]
          prodHead := by dsimp only; rw [length, next]
          room := by dsimp only; omega
          leads := by dsimp only; have := v.leads; omega
          held := ?_
          past := ?_
          copying := nofun
          storing := nofun }⟩
      · intro i unreleased there
        dsimp only at unreleased there ⊢
        rcases Nat.lt_or_ge i s.accepted.length with before | new
        · rw [getElem?_append_left before]
          exact v.held i unreleased before
        · obtain rfl : i = s.accepted.length := by omega
          rw [written, getElem?_concat_length]
      · dsimp only
        rw [take_append_of_le_length grown]
        exact v.past
    · exact ⟨released, v⟩
  · rw [step]
    split
    · refine ⟨released, { v with copying := ?_, storing := ?_ }⟩
      · intro _ copying
        dsimp only at copying
        split at copying
        · cases copying
        rename_i less
        rw [v.seen_full small] at less
        have := v.lags.trans (v.taken.trans v.leads)
        dsimp only
        omega
      · intro _ storing
        dsimp only at storing
        split at storing <;> cases storing
    · exact ⟨released, v⟩

theorem Valid.consume (small : k < 64) (v : Valid k s released published) (a : Act α)
    (consumer : a = .tryPop ∨ a = .loadHead ∨ a = .drop ∨ a = .forget) :
    ∃ published, Valid k (step k s a) released published := by
  rcases consumer with rfl | rfl | rfl | rfl
  · rw [step]
    split
    · refine ⟨published, { v with lent := ?_ }⟩
      intro lent
      dsimp only at lent
      split at lent
      · cases lent
      · rename_i differ
        refine lt_of_le_of_ne v.taken fun same => differ ?_
        rw [v.consTail, v.headCache, same]
    · exact ⟨published, v⟩
  · rw [step]
    split
    · split
      · exact ⟨published, { v with lent := nofun }⟩
      rename_i differ
      refine ⟨s.accepted.length, { v with
          headCache := v.head
          taken := v.taken.trans v.leads
          leads := le_rfl
          lent := fun _ => lt_of_le_of_ne (v.taken.trans v.leads) fun same => differ ?_ }⟩
      rw [v.head, v.consTail, same]
    · exact ⟨published, v⟩
  · rw [step]
    split
    · rename_i lent
      have next : wrappingAdd s.consTail 1 = (s.obtained.length + 1) % word := by rw [v.consTail, wrappingAdd_mod]
      have length : (s.obtained ++ [s.borrowed k]).length = s.obtained.length + 1 := by simp
      have there := v.lent lent
      refine ⟨published, { v with
          tail := by dsimp only; rw [length, next]
          consTail := by dsimp only; rw [length, next]
          lags := by dsimp only; have := v.lags; omega
          taken := by dsimp only; omega
          held := fun i unreleased there => v.held i (by dsimp only at unreleased; omega) there
          past := by dsimp only; rw [length, v.obtained_next small lent]
          lent := nofun }⟩
    · exact ⟨published, v⟩
  · rw [step]
    split
    · exact ⟨published, { v with lent := nofun }⟩
    · exact ⟨published, v⟩

theorem Valid.step (small : k < 64) (v : Valid k s released published) (a : Act α) :
    ∃ released published, Valid k (Spsc.step k s a) released published := by
  cases a with
  | tryPush src =>
    obtain ⟨released, next⟩ := v.produce small (.tryPush src) (by simp)
    exact ⟨released, published, next⟩
  | loadTail =>
    obtain ⟨released, next⟩ := v.produce small .loadTail (by simp)
    exact ⟨released, published, next⟩
  | copy =>
    obtain ⟨released, next⟩ := v.produce small .copy (by simp)
    exact ⟨released, published, next⟩
  | storeHead =>
    obtain ⟨released, next⟩ := v.produce small .storeHead (by simp)
    exact ⟨released, published, next⟩
  | tryPop => exact ⟨released, v.consume small .tryPop (by simp)⟩
  | loadHead => exact ⟨released, v.consume small .loadHead (by simp)⟩
  | drop => exact ⟨released, v.consume small .drop (by simp)⟩
  | forget => exact ⟨released, v.consume small .forget (by simp)⟩

theorem run_valid (small : k < 64) (acts : List (Act α)) :
    ∃ released published, Valid k (run (step k) init acts) released published := by
  refine run_invariant (P := fun s => ∃ released published, Valid k s released published) ⟨0, 0, .start⟩ ?_ acts
  rintro s a ⟨released, published, v⟩
  exact v.step small a

/-- After any interleaving of the two sides: the consumer has obtained the first accepted elements in their order,
a guard reads the next one, and an empty answer comes only when none is left; a copy never goes to a lent slot; a
push is refused only while `2 ^ k` elements are unreleased; and neither cache shows more than there is. -/
theorem ring_delivers_in_order (k : Nat) (small : k < 64) (acts : List (Act α)) :
    let s := run (step k) init acts
    s.obtained = (s.accepted.take s.obtained.length).map some ∧ s.obtained.length ≤ s.accepted.length ∧
    (s.pop = .lent → ∃ a, s.borrowed k = some a ∧ s.accepted[s.obtained.length]? = some a) ∧
    (s.pop = .loading → (step k s .loadHead).pop = .idle → s.obtained = s.accepted.map some) ∧
    (∀ src, s.push = .copying src → s.pop = .lent → slot k s.prodHead ≠ slot k s.consTail) ∧
    (∀ src, s.push = .loading src → (step k s .loadTail).push = .idle →
      s.accepted.length = s.obtained.length + 2 ^ k) ∧
    s.accepted.length - s.obtained.length ≤ wrappingSub s.prodHead s.tailCache ∧
    wrappingSub s.prodHead s.tailCache ≤ 2 ^ k ∧
    wrappingSub s.headCache s.consTail ≤ s.accepted.length - s.obtained.length := by
  intro s
  obtain ⟨released, published, v⟩ := run_valid small acts
  change Valid k s released published at v
  refine ⟨v.past, v.taken.trans v.leads, ?_, ?_, ?_, ?_, ?_, ?_, ?_⟩
  · intro lent
    have there : s.obtained.length < s.accepted.length := (v.lent lent).trans_le v.leads
    exact ⟨_, (v.borrowed small lent).trans (getElem?_eq_getElem there), getElem?_eq_getElem there⟩
  · intro loading empty
    rw [step, loading] at empty
    dsimp only at empty
    split at empty
    · rename_i same
      have past := v.past
      rwa [← v.head_empty small same, take_length] at past
    · cases empty
  · intro src copying lent
    have apart := v.copy_apart small copying le_rfl ((v.lent lent).trans_le v.leads)
    rw [v.consTail, slot_mod small]
    exact apart.symm
  · intro src loading refused
    rw [step, loading] at refused
    dsimp only at refused
    split at refused
    · rename_i full
      rw [v.loaded_full small] at full
      have positive := Nat.two_pow_pos k
      have room := v.room
      have lags := v.lags
      omega
    · cases refused
  · rw [v.seen_full small]
    exact Nat.sub_le_sub_left v.lags _
  · rw [v.seen_full small]
    exact Nat.sub_le_iff_le_add'.mpr v.room
  · rw [v.seen_elements small]
    exact Nat.sub_le_sub_right v.leads _

theorem ring_of_two_delivers :
    let s := run (step 1) init [.tryPush 7, .copy, .storeHead, .tryPop, .loadHead, .drop]
    s.obtained = [some 7] ∧ s.obtained = (s.accepted.take s.obtained.length).map some :=
  ⟨rfl, (ring_delivers_in_order 1 (by decide) _).1⟩

end TradingEngine.Spsc
