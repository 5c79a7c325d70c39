import TradingEngine.Base.Encoding
import TradingEngine.Pine.Program

/-!
# The canonical bytes of a program

Every field in the order of its declaration, integers little-endian, a list behind its length.
-/

namespace TradingEngine.Pine

open Base List

def Dialect.code : Dialect → UInt8
  | v5 => 5
  | v6 => 6

def Ty.code : Ty → UInt8
  | void => 0
  | int => 1
  | float => 2
  | bool => 3
  | color => 4
  | string => 5
  | array => 6
  | map => 7
  | matrix => 8
  | udt => 9
  | enum => 10
  | plot => 11
  | hline => 12

def Lane.code : Lane → UInt8
  | f64 => 0
  | i64 => 1

def ExecMode.code : ExecMode → UInt8
  | barClose => 0
  | realtime => 1

def ScriptKind.code : ScriptKind → UInt8
  | strategy => 0
  | indicator => 1
  | library => 2

def QtyType.code : QtyType → UInt8
  | fixedContracts => 0
  | percentOfEquity => 1
  | cash => 2

def CommissionType.code : CommissionType → UInt8
  | percent => 0
  | cashPerContract => 1
  | cashPerOrder => 2

def AllowEntry.code : AllowEntry → UInt8
  | all => 0
  | long => 1
  | short => 2

def InputKind.code : InputKind → UInt8
  | int => 0
  | float => 1
  | bool => 2
  | string => 3
  | color => 4
  | source => 5
  | timeframe => 6
  | session => 7
  | symbol => 8
  | price => 9
  | time => 10
  | textArea => 11
  | enum => 12

def StateKind.code : StateKind → UInt8
  | builtin => 0
  | collection => 1
  | object => 2

def PlotKind.code : PlotKind → UInt8
  | plot => 0
  | hline => 1
  | fill => 2
  | bgColor => 3
  | barColor => 4
  | shape => 5
  | char => 6
  | arrow => 7
  | candle => 8
  | ohlcBar => 9
  | subOut => 10

namespace Canon

def span (s : Span) : List UInt8 := writeU16 s.file ++ writeU16 s.pad ++ writeU32 s.lo ++ writeU32 s.hi

def insn (i : Insn) : List UInt8 :=
  writeU8 i.op ++ writeU8 i.flags ++ writeU16 i.dst ++ writeU16 i.a ++ writeU16 i.b

def ring (r : RingDesc) : List UInt8 :=
  writeU16 r.slot ++ writeU8 r.lane.code ++ writeU8 r.flags ++ writeU32 r.off ++ writeU32 r.mask ++ writeU32 r.cellsOff

def state (s : StateDesc) : List UInt8 :=
  writeU16 s.site ++ writeU8 s.kind.code ++ writeU8 s.flags ++ writeU32 s.off ++ writeU32 s.bytes

def layout (l : FrameLayout) : List UInt8 :=
  [l.totalBytes, l.f64Off, l.f64Len, l.f64VaripFrom, l.i64Off, l.i64Len, l.i64VaripFrom, l.validOff, l.validWords,
    l.ringsOff, l.ringsBytes].flatMap writeU32 ++
  writeList ring l.rings ++
  [l.statesOff, l.statesBytes, l.poolOff, l.poolBytes].flatMap writeU32 ++
  writeList state l.states ++
  [l.strPersistOff, l.strPersistBytes, l.strCellBytes, l.strPersistVaripOff, l.strScratchOff, l.strScratchBytes,
    l.plotsOff, l.nPlots, l.intentsOff, l.intentCap, l.dirtyOff, l.dirtyWords, l.jrnlOff,
    l.jrnlBytes].flatMap writeU32

def chart (c : ChartInfo) : List UInt8 :=
  writeU64 c.symbolHash ++ writeU32 c.timeframeS ++ writeU8 c.venue ++ c.pad.toList ++ writeI64 c.mintick1e6 ++
    writeI64 c.pointvalue1e6 ++ writeI64 c.qtyStep1e6 ++ writeI64 c.minNotional1e6

def risk (r : RiskRules) : List UInt8 :=
  writeI64 r.maxDrawdown1e6 ++ writeI64 r.maxIntradayLoss1e6 ++ writeI64 r.maxPositionSize1e6 ++
    writeU32 r.maxIntradayFilledOrders ++ writeU32 r.maxConsLossDays ++ writeU8 r.allowEntryIn.code ++ r.pad.toList

def decl (d : StrategyDecl) : List UInt8 :=
  writeI64 d.initialCapital1e6 ++ writeI64 d.defaultQtyValue1e6 ++ writeI64 d.commissionValue1e6 ++
    writeI64 d.marginLongPct1e6 ++ writeI64 d.marginShortPct1e6 ++ writeU32 d.slippageTicks ++ writeU32 d.pyramiding ++
    writeU8 d.defaultQtyType.code ++ writeU8 d.commissionType.code ++ writeU16 d.flags ++ writeU32 d.fillLimitsTicks ++
    risk d.risk

def input (i : InputDesc) : List UInt8 :=
  writeU32 i.name ++ writeU32 i.title ++ writeU8 i.ty.code ++ writeU8 i.kind.code ++ writeU16 i.flags ++
    writeU32 i.pad0 ++ writeU64 i.defaultBits ++ writeU64 i.minBits ++ writeU64 i.maxBits ++ writeU64 i.stepBits ++
    span i.span ++ writeU32 i.pad1

def plot (p : PlotDesc) : List UInt8 :=
  writeU32 p.title ++ writeU8 p.kind.code ++ writeU8 p.pad ++ writeU16 p.index ++ span p.span

def entryDir (e : EntryDir) : List UInt8 := writeU64 e.id ++ writeU8 e.dirs ++ e.pad.toList

def info (m : ProgramMeta) : List UInt8 :=
  m.sourceSha256.toList ++ m.specSha256.toList ++ writeU8 m.kind.code ++ writeU8 m.dialect.code ++
    writeU32 m.maxBarsBack ++ writeU32 m.warmupBars ++ writeU32 m.insnBudgetPerEval ++ writeU32 m.maxIntentsPerEval ++
    writeBool m.usesLookahead ++ writeBool m.usesIntrabar ++ writeBool m.nonstandardChart ++ chart m.chart ++
    decl m.decl ++ writeList input m.inputs ++ writeList plot m.plots ++ writeList entryDir m.entryDirs

def syms (t : SymTable) : List UInt8 :=
  writeLen t.len ++ (range t.len).flatMap fun i => writeBytes (t.resolveBytes i)

def magic : List UInt8 := [80, 86, 77, 80, 82, 79, 71, 49]

mutual

def program : PineProgram → List UInt8
  | ⟨code, consts, argwin, syms, layout, dialect, mode, subprograms, info⟩ =>
    writeList insn code ++ writeList writeU64 consts ++ writeList writeU16 argwin ++ Canon.syms syms ++
      Canon.layout layout ++ writeU8 dialect.code ++ writeU8 mode.code ++ writeLen subprograms.length ++
      subs subprograms ++ Canon.info info

def subs : List (SubProgram PineProgram) → List UInt8
  | [] => []
  | s :: rest => sub s ++ subs rest

def sub : SubProgram PineProgram → List UInt8
  | ⟨key, symbolKey, symbolHash, timeframeS, lookahead, gaps, nOut, history, child⟩ =>
    writeU64 key ++ writeBytes symbolKey ++ writeU64 symbolHash ++ writeU32 timeframeS ++ writeBool lookahead ++
      writeBool gaps ++ writeU16 nOut ++ writeU32 history ++ writeBytes (magic ++ program child)

end

end Canon

def canonicalBytes (p : PineProgram) : List UInt8 := Canon.magic ++ Canon.program p

@[simp] theorem Dialect.code_inj (a b : Dialect) : a.code = b.code ↔ a = b := by cases a <;> cases b <;> decide

@[simp] theorem Ty.code_inj (a b : Ty) : a.code = b.code ↔ a = b := by cases a <;> cases b <;> decide

@[simp] theorem Lane.code_inj (a b : Lane) : a.code = b.code ↔ a = b := by cases a <;> cases b <;> decide

@[simp] theorem ExecMode.code_inj (a b : ExecMode) : a.code = b.code ↔ a = b := by cases a <;> cases b <;> decide

@[simp] theorem ScriptKind.code_inj (a b : ScriptKind) : a.code = b.code ↔ a = b := by cases a <;> cases b <;> decide

@[simp] theorem QtyType.code_inj (a b : QtyType) : a.code = b.code ↔ a = b := by cases a <;> cases b <;> decide

@[simp] theorem CommissionType.code_inj (a b : CommissionType) : a.code = b.code ↔ a = b := by
  cases a <;> cases b <;> decide

@[simp] theorem AllowEntry.code_inj (a b : AllowEntry) : a.code = b.code ↔ a = b := by cases a <;> cases b <;> decide

@[simp] theorem InputKind.code_inj (a b : InputKind) : a.code = b.code ↔ a = b := by cases a <;> cases b <;> decide

@[simp] theorem StateKind.code_inj (a b : StateKind) : a.code = b.code ↔ a = b := by cases a <;> cases b <;> decide

@[simp] theorem PlotKind.code_inj (a b : PlotKind) : a.code = b.code ↔ a = b := by cases a <;> cases b <;> decide

namespace Canon

@[simp] theorem span_append : Delimits span := by
  rintro ⟨⟩ ⟨⟩ r s
  simp [span, and_assoc]

theorem insn_append : Delimits insn := by
  rintro ⟨⟩ ⟨⟩ r s
  simp [insn, and_assoc]

theorem ring_append : Delimits ring := by
  rintro ⟨⟩ ⟨⟩ r s
  simp [ring, and_assoc]

theorem state_append : Delimits state := by
  rintro ⟨⟩ ⟨⟩ r s
  simp [state, and_assoc]

@[simp] theorem chart_append : Delimits chart := by
  rintro ⟨⟩ ⟨⟩ r s
  simp [chart, and_assoc]

@[simp] theorem risk_append : Delimits risk := by
  rintro ⟨⟩ ⟨⟩ r s
  simp [risk, and_assoc]

@[simp] theorem decl_append : Delimits decl := by
  rintro ⟨⟩ ⟨⟩ r s
  simp [decl, and_assoc]

theorem input_append : Delimits input := by
  rintro ⟨⟩ ⟨⟩ r s
  simp [input, and_assoc]

theorem plot_append : Delimits plot := by
  rintro ⟨⟩ ⟨⟩ r s
  simp [plot, and_assoc]

theorem entryDir_append : Delimits entryDir := by
  rintro ⟨⟩ ⟨⟩ r s
  simp [entryDir, and_assoc]

end Canon

structure FrameLayout.Fits (l : FrameLayout) : Prop where
  rings : l.rings.length < 2 ^ 32
  states : l.states.length < 2 ^ 32

structure ProgramMeta.Fits (m : ProgramMeta) : Prop where
  inputs : m.inputs.length < 2 ^ 32
  plots : m.plots.length < 2 ^ 32
  entryDirs : m.entryDirs.length < 2 ^ 32

namespace SymTable

variable {t : SymTable} {k : Nat}

/-- Where the first `k` symbols end. -/
def endAt (t : SymTable) (k : Nat) : Nat := if k = 0 then 0 else t.ends.getD (k - 1) 0

def symbols (t : SymTable) : List (List UInt8) := (range t.len).map t.resolveBytes

theorem endAt_succ (inside : k < t.len) : t.endAt (k + 1) = t.ends[k] := by
  rw [endAt, if_neg (Nat.succ_ne_zero k), Nat.add_sub_cancel, getD_eq_getElem _ _ inside]

theorem endAt_mono (inside : k < t.len) : t.endAt k ≤ t.endAt (k + 1) := by
  cases k with
  | zero => exact Nat.zero_le _
  | succ k =>
    rw [endAt_succ inside, endAt_succ (Nat.lt_of_succ_lt inside)]
    exact pairwise_iff_getElem.mp t.rising k (k + 1) (Nat.lt_of_succ_lt inside) inside (Nat.lt_succ_self k)

theorem len_pos (t : SymTable) : 0 < t.len := by
  rcases Nat.eq_zero_or_pos t.len with none | some_symbol
  · have whole := t.whole
    rw [length_eq_zero_iff.mp none] at whole
    cases whole
  · exact some_symbol

theorem endAt_len (t : SymTable) : t.endAt t.len = t.bytes.length := by
  obtain ⟨k, more⟩ := Nat.exists_eq_add_of_lt t.len_pos
  have whole := t.whole
  rw [getLast?_eq_getElem?] at whole
  rw [Nat.zero_add] at more
  rw [more, endAt_succ (by omega)]
  have top : t.ends.length - 1 = k := by
    change t.len - 1 = k
    omega
  rw [top] at whole
  exact (List.getElem?_eq_some_iff.mp whole).2

theorem endAt_le (le : k ≤ t.len) : t.endAt k ≤ t.bytes.length := by
  obtain ⟨rest, more⟩ := Nat.exists_eq_add_of_le le
  induction rest generalizing k with
  | zero => rw [← t.endAt_len, more, Nat.add_zero]
  | succ rest ih => exact (endAt_mono (by omega)).trans (ih (by omega) (by omega))

theorem resolveBytes_eq (inside : k < t.len) :
    t.resolveBytes k = (t.bytes.drop (t.endAt k)).take (t.endAt (k + 1) - t.endAt k) := by
  rw [resolveBytes, if_neg (show ¬k ≥ t.ends.length from not_le.mpr inside)]
  rfl

theorem join_symbols (le : k ≤ t.len) : ((range k).map t.resolveBytes).flatten = t.bytes.take (t.endAt k) := by
  induction k with
  | zero => rfl
  | succ k ih =>
    rw [range_succ, map_append, flatten_append, ih (by omega), map_singleton, flatten_singleton,
      resolveBytes_eq le, ← take_add, Nat.add_sub_cancel' (endAt_mono le)]

theorem ext_symbols {a b : SymTable} (same : a.symbols = b.symbols) : a = b := by
  have count : a.len = b.len := by simpa [symbols] using congrArg length same
  have bytes : a.bytes = b.bytes := by
    have joined := congrArg flatten same
    rw [symbols, symbols, join_symbols le_rfl, join_symbols le_rfl, endAt_len, endAt_len, take_length,
      take_length] at joined
    exact joined
  have ends : a.ends = b.ends := by
    refine ext_getElem count fun k inside inside' => ?_
    have joined := congrArg (fun l => (l.take (k + 1)).flatten.length) same
    simp only [symbols, ← map_take, take_range] at joined
    rw [Nat.min_eq_left (by exact inside), Nat.min_eq_left (by exact inside'), join_symbols inside, join_symbols inside',
      length_take, length_take, Nat.min_eq_left (endAt_le inside), Nat.min_eq_left (endAt_le inside'),
      endAt_succ inside, endAt_succ inside'] at joined
    exact joined
  obtain ⟨⟩ := a
  obtain ⟨⟩ := b
  simp_all

end SymTable

structure SymTable.Fits (t : SymTable) : Prop where
  count : t.len < 2 ^ 32
  each : ∀ i < t.len, (t.resolveBytes i).length < 2 ^ 32

namespace Canon

variable {r s : List UInt8}

theorem layout_append {a b : FrameLayout} (fits : a.Fits) (fits' : b.Fits) :
    layout a ++ r = layout b ++ s ↔ a = b ∧ r = s := by
  obtain ⟨rings, states⟩ := fits
  obtain ⟨rings', states'⟩ := fits'
  obtain ⟨⟩ := a
  obtain ⟨⟩ := b
  simp [layout, writeList_append ring_append rings rings', writeList_append state_append states states', and_assoc]

theorem syms_eq (t : SymTable) : syms t = writeLen t.symbols.length ++ t.symbols.flatMap writeBytes := by
  rw [syms, SymTable.symbols, length_map, length_range, flatMap_map]

theorem symbols_small {t : SymTable} (fits : t.Fits) : ∀ x ∈ t.symbols, x.length < 2 ^ 32 := by
  intro x member
  obtain ⟨i, inside, rfl⟩ := mem_map.mp member
  exact fits.each i (mem_range.mp inside)

theorem syms_append {a b : SymTable} (fits : a.Fits) (fits' : b.Fits) : syms a ++ r = syms b ++ s ↔ a = b ∧ r = s := by
  have count : a.symbols.length < 2 ^ 32 := by
    rw [SymTable.symbols, length_map, length_range]
    exact fits.count
  have count' : b.symbols.length < 2 ^ 32 := by
    rw [SymTable.symbols, length_map, length_range]
    exact fits'.count
  constructor
  · intro same
    rw [syms_eq, syms_eq, append_assoc, append_assoc, writeLen_append count count'] at same
    obtain ⟨symbols, rest⟩ := flatMap_append (fun x member y member' r s =>
      (writeBytes_append (symbols_small fits x member) (symbols_small fits' y member')).mp) same.1 same.2
    exact ⟨SymTable.ext_symbols symbols, rest⟩
  · rintro ⟨rfl, rfl⟩
    rfl

theorem info_append {a b : ProgramMeta} (fits : a.Fits) (fits' : b.Fits) :
    info a ++ r = info b ++ s ↔ a = b ∧ r = s := by
  obtain ⟨inputs, plots, dirs⟩ := fits
  obtain ⟨inputs', plots', dirs'⟩ := fits'
  obtain ⟨⟩ := a
  obtain ⟨⟩ := b
  simp [info, writeList_append input_append inputs inputs', writeList_append plot_append plots plots',
    writeList_append entryDir_append dirs dirs', and_assoc]

end Canon

mutual

def PineProgram.Fits : PineProgram → Prop
  | ⟨code, consts, argwin, syms, layout, _, _, subprograms, info⟩ =>
    code.length < 2 ^ 32 ∧ consts.length < 2 ^ 32 ∧ argwin.length < 2 ^ 32 ∧ syms.Fits ∧ layout.Fits ∧ info.Fits ∧
      subprograms.length < 2 ^ 32 ∧ SubsFit subprograms

def SubsFit : List (SubProgram PineProgram) → Prop
  | [] => True
  | s :: rest => SubFits s ∧ SubsFit rest

def SubFits : SubProgram PineProgram → Prop
  | ⟨_, symbolKey, _, _, _, _, _, _, child⟩ => symbolKey.length < 2 ^ 32 ∧ child.Fits

end

namespace Canon

mutual

theorem program_append (p q : PineProgram) (r s : List UInt8) (fits : p.Fits) (fits' : q.Fits)
    (same : program p ++ r = program q ++ s) : p = q ∧ r = s := by
  match p, q with
  | ⟨code, consts, argwin, syms, layout, dialect, mode, subprograms, info⟩,
    ⟨code', consts', argwin', syms', layout', dialect', mode', subprograms', info'⟩ =>
    unfold PineProgram.Fits at fits fits'
    obtain ⟨small, constsSmall, argwinSmall, symsFit, layoutFits, infoFits, few, subsFit⟩ := fits
    obtain ⟨small', constsSmall', argwinSmall', symsFit', layoutFits', infoFits', few', subsFit'⟩ := fits'
    unfold program at same
    simp only [append_assoc] at same
    rw [writeList_append insn_append small small', writeList_append writeU64_append constsSmall constsSmall',
      writeList_append writeU16_append argwinSmall argwinSmall', syms_append symsFit symsFit',
      layout_append layoutFits layoutFits', writeU8_append, writeU8_append, writeLen_append few few', Dialect.code_inj,
      ExecMode.code_inj] at same
    obtain ⟨rfl, rfl, rfl, rfl, rfl, rfl, rfl, length, same⟩ := same
    obtain ⟨rfl, behind⟩ := subs_append subprograms subprograms' _ _ subsFit subsFit' length same
    rw [info_append infoFits infoFits'] at behind
    obtain ⟨rfl, rfl⟩ := behind
    exact ⟨rfl, rfl⟩

theorem subs_append (xs ys : List (SubProgram PineProgram)) (r s : List UInt8) (fits : SubsFit xs) (fits' : SubsFit ys)
    (length : xs.length = ys.length) (same : subs xs ++ r = subs ys ++ s) : xs = ys ∧ r = s := by
  match xs, ys with
  | [], [] => exact ⟨rfl, same⟩
  | [], y :: ys => cases length
  | x :: xs, [] => cases length
  | x :: xs, y :: ys =>
    unfold SubsFit at fits fits'
    unfold subs at same
    rw [append_assoc, append_assoc] at same
    obtain ⟨rfl, others⟩ := sub_append x y _ _ fits.1 fits'.1 same
    obtain ⟨rfl, rest⟩ := subs_append xs ys r s fits.2 fits'.2 (Nat.succ.inj length) others
    exact ⟨rfl, rest⟩

theorem sub_append (x y : SubProgram PineProgram) (r s : List UInt8) (fits : SubFits x) (fits' : SubFits y)
    (same : sub x ++ r = sub y ++ s) : x = y ∧ r = s := by
  match x, y with
  | ⟨key, symbolKey, symbolHash, timeframeS, lookahead, gaps, nOut, history, child⟩,
    ⟨key', symbolKey', symbolHash', timeframeS', lookahead', gaps', nOut', history', child'⟩ =>
    unfold SubFits at fits fits'
    unfold sub at same
    simp only [writeBytes_append fits.1 fits'.1, append_assoc, writeU64_append, writeU32_append, writeU16_append,
      writeBool_append] at same
    obtain ⟨rfl, rfl, rfl, rfl, rfl, rfl, rfl, rfl, same⟩ := same
    simp only [writeBytes, writeLen, append_assoc, writeU32_append, append_cancel_left_eq] at same
    obtain ⟨rfl, rest⟩ := program_append child child' r s fits.2 fits'.2 same.2
    exact ⟨rfl, rest⟩

end

end Canon

/-- Two programs share their canonical bytes exactly when they are one program, and no program's bytes start another's. -/
theorem canonical_bytes_identify (p q : PineProgram) (fits : p.Fits) (fits' : q.Fits) :
    (canonicalBytes p = canonicalBytes q ↔ p = q) ∧ (canonicalBytes p <+: canonicalBytes q → p = q) := by
  have starts : canonicalBytes p <+: canonicalBytes q → p = q := by
    rintro ⟨rest, same⟩
    rw [canonicalBytes, canonicalBytes, append_assoc, append_cancel_left_eq] at same
    exact (Canon.program_append p q rest [] fits fits' (by rw [same, append_nil])).1
  exact ⟨⟨fun same => starts (same ▸ prefix_rfl), fun same => same ▸ rfl⟩, starts⟩

def emptyInfo : ProgramMeta where
  sourceSha256 := Vector.replicate 32 0
  specSha256 := Vector.replicate 32 0
  kind := .strategy
  dialect := .v6
  maxBarsBack := 0
  warmupBars := 0
  insnBudgetPerEval := 0
  maxIntentsPerEval := 0
  usesLookahead := false
  usesIntrabar := false
  nonstandardChart := false
  chart := ⟨0, 0, 0, Vector.replicate 3 0, 0, 0, 0, 0⟩
  decl := ⟨0, 0, 0, 0, 0, 0, 0, .fixedContracts, .percent, 0, 0, ⟨0, 0, 0, 0, 0, .all, Vector.replicate 7 0⟩⟩
  inputs := []
  plots := []
  entryDirs := []

/-- A program of one instruction that requests the given series. -/
def requesting (subprograms : List (SubProgram PineProgram)) : PineProgram where
  code := [⟨0, 0, 0, 0, 0⟩]
  consts := []
  argwin := []
  syms := ⟨[], [0], pairwise_singleton _ _, rfl⟩
  layout := ⟨64, 0, 0, 0, 0, 0, 0, 0, 0, 0, 0, [], 0, 0, 0, 0, [], 0, 0, 0, 0, 0, 0, 0, 0, 0, 0, 0, 0, 0, 0⟩
  dialect := .v6
  mode := .barClose
  subprograms := subprograms
  info := emptyInfo

/-- A program that requests nothing does not start the bytes of one that requests it. -/
theorem canonical_bytes_identify_nested :
    ¬canonicalBytes (requesting []) <+: canonicalBytes (requesting [⟨1, [65], 2, 60, false, false, 1, 2, requesting []⟩]) := by
  have alone : (requesting []).Fits := by
    refine ⟨by decide, by decide, by decide, ⟨by decide, by decide⟩, ⟨by decide, by decide⟩,
      ⟨by decide, by decide, by decide⟩, by decide, trivial⟩
  have nested : (requesting [⟨1, [65], 2, 60, false, false, 1, 2, requesting []⟩]).Fits := by
    refine ⟨by decide, by decide, by decide, ⟨by decide, by decide⟩, ⟨by decide, by decide⟩,
      ⟨by decide, by decide, by decide⟩, by decide, ⟨by decide, alone⟩, trivial⟩
  intro starts
  have same := (canonical_bytes_identify _ _ alone nested).2 starts
  have none := congrArg (fun p => p.subprograms.length) same
  cases none

end TradingEngine.Pine
