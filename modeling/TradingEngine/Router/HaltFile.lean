import TradingEngine.Base.Text
import TradingEngine.Router.Halt

/-!
# The halt file

What the engine writes at a halt and reads at the next boot. The file is read line by line and a line that cannot be
read is skipped.
-/

namespace TradingEngine.Router

open Base Function List

namespace HaltReason

def asStr : HaltReason → String
  | none => "none"
  | rejectStreak => "reject-streak"
  | budgetFloor => "budget-floor"
  | reconDrift => "recon-drift"
  | wsGap => "ws-gap"
  | assetRefusals => "asset-refusals"
  | operator => "operator"
  | reconStale => "recon-stale"
  | pnlGain => "pnl-gain"
  | pnlLoss => "pnl-loss"
  | venueLock => "venue-lock"
  | marginRisk => "margin-risk"
  | aloRejectRate => "alo-reject-rate"
  | gatewayHalt => "gateway-halt"

def fromWord (word : List Char) : HaltReason :=
  if word = "reject-streak".toList then rejectStreak
  else if word = "budget-floor".toList then budgetFloor
  else if word = "recon-drift".toList then reconDrift
  else if word = "ws-gap".toList then wsGap
  else if word = "asset-refusals".toList then assetRefusals
  else if word = "recon-stale".toList then reconStale
  else if word = "pnl-gain".toList then pnlGain
  else if word = "pnl-loss".toList then pnlLoss
  else if word = "venue-lock".toList then venueLock
  else if word = "margin-risk".toList then marginRisk
  else if word = "alo-reject-rate".toList then aloRejectRate
  else if word = "gateway-halt".toList then gatewayHalt
  else operator

theorem ite_halted {p : Prop} [Decidable p] {why other : HaltReason} (first : why.isHalted = true)
    (second : other.isHalted = true) : (if p then why else other).isHalted = true := by
  by_cases known : p
  · rwa [if_pos known]
  · rwa [if_neg known]

theorem fromWord_halted (word : List Char) : (fromWord word).isHalted = true := by
  unfold fromWord
  iterate 12 refine ite_halted rfl ?_
  rfl

theorem fromWord_asStr {why : HaltReason} (halted : why.isHalted = true) : fromWord why.asStr.toList = why := by
  cases why with
  | none => cases halted
  | _ => decide

end HaltReason

abbrev Reasons := Fin execSlots → HaltReason

def haltFileMax : Nat := 640

def put (buf bytes : List Char) : List Char := buf ++ bytes.take (haltFileMax - buf.length)

def haltDigit (n : Nat) : Char := Char.ofNat ('0'.toNat + n)

def putSlot (reasons : Reasons) (buf : List Char) (slot : Fin execSlots) : List Char :=
  let why := reasons slot
  if why.isHalted then
    let buf := put buf "slot=".toList
    let buf := if slot.val ≥ 10 then put buf [haltDigit (slot / 10)] else buf
    let buf := put buf [haltDigit (slot % 10)]
    let buf := put buf " reason=".toList
    let buf := put buf why.asStr.toList
    put buf ['\n']
  else buf

def haltHeader : List Char := "# exec.HALT - engine-written. Delete it and restart to clear.\n".toList

def haltUsage : List Char := "# A line is `slot=<n> reason=<word>`; a bare number works too.\n".toList

def renderHaltFile (reasons : Reasons) : List Char :=
  (finRange execSlots).foldl (putSlot reasons) (put (put [] haltHeader) haltUsage)

/-- A bare number counts while no slot is known; a later `slot=` replaces the slot. -/
def readField (seen : Option Nat × HaltReason) (field : List Char) : Option Nat × HaltReason :=
  match "slot=".toList.isPrefixOf? field with
  | some v => (parseUnsigned u64Size v, seen.2)
  | none =>
    match "reason=".toList.isPrefixOf? field with
    | some v => (seen.1, HaltReason.fromWord v)
    | none => if seen.1.isNone then (parseUnsigned u64Size field, seen.2) else seen

def readFields (line : List Char) : Option Nat × HaltReason := (fields line).foldl readField (none, .operator)

def readLine (out : Reasons) (raw : List Char) : Reasons :=
  let line := trimWhite raw
  if line.isEmpty ∨ line.head? = some '#' then out
  else
    let (slot, why) := readFields line
    match slot with
    | some i => if inside : i < execSlots then update out ⟨i, inside⟩ why else out
    | none => out

def parseHaltFile (text : List Char) : Reasons := (lines text).foldl readLine fun _ => .none

def slotDigits (slot : Nat) : List Char :=
  (if slot ≥ 10 then [haltDigit (slot / 10)] else []) ++ [haltDigit (slot % 10)]

def slotField (slot : Nat) : List Char := "slot=".toList ++ slotDigits slot

def reasonField (why : HaltReason) : List Char := "reason=".toList ++ why.asStr.toList

def slotLine (slot : Nat) (why : HaltReason) : List Char := slotField slot ++ ' ' :: reasonField why

/-- A halted slot's line; a running one has none. -/
def slotText (reasons : Reasons) (slot : Fin execSlots) : List Char :=
  if (reasons slot).isHalted then slotLine slot (reasons slot) ++ ['\n'] else []

def haltText (reasons : Reasons) : List Char :=
  haltHeader ++ haltUsage ++ (finRange execSlots).flatMap (slotText reasons)

section Written

variable (reasons : Reasons) (buf : List Char)

theorem put_nil : put buf [] = buf := by rw [put, take_nil, append_nil]

theorem put_put (first second : List Char) : put (put buf first) second = put buf (first ++ second) := by
  have left : haltFileMax - (buf.length + min (haltFileMax - buf.length) first.length) =
      haltFileMax - buf.length - first.length := by omega
  simp only [put, length_append, length_take, take_append, append_assoc, left]

variable (slot : Fin execSlots) (slots : List (Fin execSlots))

theorem putSlot_eq : putSlot reasons buf slot = put buf (slotText reasons slot) := by
  have spaced : " reason=".toList = ' ' :: "reason=".toList := by decide
  unfold putSlot slotText slotLine slotField slotDigits reasonField
  by_cases halted : (reasons slot).isHalted = true
  · rw [if_pos halted, if_pos halted, spaced]
    by_cases long : slot.val ≥ 10
    · simp only [if_pos long, put_put, append_assoc, cons_append, nil_append]
    · simp only [if_neg long, put_put, append_assoc, cons_append, nil_append]
  · rw [if_neg halted, if_neg halted, put_nil]

theorem foldl_putSlot : slots.foldl (putSlot reasons) buf = put buf (slots.flatMap (slotText reasons)) := by
  induction slots generalizing buf with
  | nil => exact (put_nil buf).symm
  | cons slot rest ih => rw [foldl_cons, ih, putSlot_eq, put_put, flatMap_cons]

theorem asStr_length (why : HaltReason) : why.asStr.toList.length ≤ 15 := by
  cases why <;> decide

theorem slotText_length : (slotText reasons slot).length ≤ 31 := by
  have word := asStr_length (reasons slot)
  have digits : (slotDigits slot).length ≤ 2 := by
    unfold slotDigits
    split_ifs <;> simp
  unfold slotText slotLine slotField reasonField
  split_ifs
  · simp only [length_append, length_cons, length_nil, show "slot=".toList.length = 5 from by decide,
      show "reason=".toList.length = 7 from by decide]
    omega
  · exact Nat.zero_le _

theorem flatMap_slotText_length : (slots.flatMap (slotText reasons)).length ≤ 31 * slots.length := by
  induction slots with
  | nil => exact Nat.zero_le _
  | cons slot rest ih =>
    have line := slotText_length reasons slot
    rw [flatMap_cons, length_append, length_cons]
    omega

theorem haltText_length : (haltText reasons).length ≤ haltFileMax := by
  have slots := flatMap_slotText_length reasons (finRange execSlots)
  rw [length_finRange] at slots
  have header : haltHeader.length = 62 := by decide
  have usage : haltUsage.length = 63 := by decide
  have room : 125 + 31 * execSlots ≤ haltFileMax := by decide
  rw [haltText, length_append, length_append]
  omega

def isAscii (c : Char) : Bool := c.toNat < 128

theorem slotText_ascii : (slotText reasons slot).all isAscii = true := by
  have field : ∀ slot : Fin execSlots, (slotField slot).all isAscii = true := by decide
  have word : ∀ why, (reasonField why).all isAscii = true := by
    intro why
    cases why <;> decide
  unfold slotText slotLine
  split_ifs
  · rw [all_append, all_append, all_cons, field slot, word]
    rfl
  · rfl

theorem haltText_ascii : (haltText reasons).all isAscii = true := by
  have header : haltHeader.all isAscii = true := by decide
  have usage : haltUsage.all isAscii = true := by decide
  rw [haltText, all_append, all_append, header, usage, all_flatMap, Bool.true_and, Bool.true_and, all_eq_true]
  exact fun slot _ => slotText_ascii reasons slot

theorem renderHaltFile_eq : renderHaltFile reasons = haltText reasons := by
  rw [renderHaltFile, foldl_putSlot, put_put, put_put]
  exact take_of_length_le (haltText_length reasons)

end Written

variable (slot : Fin execSlots) (why : HaltReason) (seen : Option Nat × HaltReason)

theorem slotField_solid : solid (slotField slot) = true := by
  revert slot
  decide

theorem parseUnsigned_slotDigits : parseUnsigned u64Size (slotDigits slot) = some slot.val := by
  revert slot
  decide

theorem reasonField_solid : solid (reasonField why) = true := by
  cases why <;> decide

theorem slotField_ne_nil (slot : Nat) : slotField slot ≠ [] := cons_ne_nil _ _

theorem reasonField_ne_nil : reasonField why ≠ [] := cons_ne_nil _ _

theorem readField_slotField (slot : Fin execSlots) : readField seen (slotField slot) = (some slot.val, seen.2) := by
  have found : "slot=".toList.isPrefixOf? (slotField slot) = some (slotDigits slot) :=
    isPrefixOf?_eq_some_iff_append_eq.mpr rfl
  rw [readField, found, ← parseUnsigned_slotDigits slot]

theorem readField_reasonField {why : HaltReason} (halted : why.isHalted = true) :
    readField seen (reasonField why) = (seen.1, why) := by
  have other : "slot=".toList.isPrefixOf? (reasonField why) = none := rfl
  have found : "reason=".toList.isPrefixOf? (reasonField why) = some why.asStr.toList :=
    isPrefixOf?_eq_some_iff_append_eq.mpr rfl
  rw [readField, other, found]
  exact congrArg (Prod.mk seen.1) (HaltReason.fromWord_asStr halted)

theorem readLine_slotLine (out : Reasons) (slot : Fin execSlots) {why : HaltReason} (halted : why.isHalted = true) :
    readLine out (slotLine slot why) = update out slot why := by
  have trimmed : trimWhite (slotLine slot why) = slotLine slot why :=
    trimWhite_pair (slotField_solid slot) (reasonField_solid why) (slotField_ne_nil _) (reasonField_ne_nil _)
  have pair : readFields (slotLine slot why) = (some slot.val, why) := by
    rw [readFields, slotLine, fields_pair (slotField_solid slot) (reasonField_solid why) (slotField_ne_nil _)
      (reasonField_ne_nil _), foldl_cons, foldl_cons, readField_slotField, readField_reasonField _ halted]
    rfl
  have plain : ¬((slotLine slot why).isEmpty ∨ (slotLine slot why).head? = some '#') := by
    rintro (empty | comment)
    · cases empty
    · cases comment
  rw [readLine, trimmed, if_neg plain, pair]
  exact dif_pos slot.isLt

def readText (out : Reasons) (text : List Char) : Reasons := (lines text).foldl readLine out

theorem readText_append {A B : List Char} (out : Reasons) (complete : Complete isNewline A) :
    readText out (A ++ B) = readText (readText out A) B := by
  rw [readText, lines_append complete, foldl_append, readText, readText]

section Read

variable (reasons out : Reasons)

variable (slot : Fin execSlots)

theorem slotText_complete : Complete isNewline (slotText reasons slot) := by
  unfold slotText
  split_ifs
  · exact Complete.concat _ rfl
  · exact Complete.nil

theorem readText_slotText :
    readText out (slotText reasons slot) = if (reasons slot).isHalted then update out slot (reasons slot) else out := by
  unfold slotText
  split_ifs with halted
  · rw [readText, slotLine, lines_pair (slotField_solid slot) (reasonField_solid _)]
    exact readLine_slotLine out slot halted
  · rfl

theorem readText_slots (slots : List (Fin execSlots)) (s : Fin execSlots) :
    readText out (slots.flatMap (slotText reasons)) s = if s ∈ slots ∧ (reasons s).isHalted then reasons s else out s := by
  induction slots generalizing out with
  | nil => exact (if_neg fun h => not_mem_nil h.1).symm
  | cons slot rest ih =>
    rw [flatMap_cons, readText_append out (slotText_complete reasons slot), ih, readText_slotText]
    by_cases same : s = slot
    · subst same
      by_cases halted : (reasons s).isHalted = true <;> simp [halted]
    · split_ifs <;> simp_all

theorem readText_comment (comment : List Char) (one : lines comment = [comment.dropLast])
    (opens : (trimWhite comment.dropLast).head? = some '#') : readText out comment = out := by
  rw [readText, one, foldl_cons, foldl_nil, readLine, if_pos (.inr opens)]

theorem parse_renderHaltFile : parseHaltFile (renderHaltFile reasons) = reasons := by
  have header : Complete isNewline haltHeader := by
    intro c last
    rw [show haltHeader.getLast? = some '\n' by decide +kernel, Option.some.injEq] at last
    exact last ▸ rfl
  have usage : Complete isNewline haltUsage := by
    intro c last
    rw [show haltUsage.getLast? = some '\n' by decide +kernel, Option.some.injEq] at last
    exact last ▸ rfl
  rw [renderHaltFile_eq, haltText, append_assoc]
  change readText (fun _ => .none) _ = reasons
  rw [readText_append _ header, readText_append _ usage,
    readText_comment _ haltHeader (by decide +kernel) (by decide +kernel),
    readText_comment _ haltUsage (by decide +kernel) (by decide +kernel)]
  funext slot
  rw [readText_slots]
  split_ifs with halted
  · rfl
  · have running : ¬(reasons slot).isHalted = true := fun h => halted ⟨mem_finRange slot, h⟩
    rw [HaltReason.isHalted, decide_eq_true_eq, not_not] at running
    exact running.symm

end Read

theorem readField_halted {seen : Option Nat × HaltReason} (halted : seen.2.isHalted = true) (field : List Char) :
    (readField seen field).2.isHalted = true := by
  unfold readField
  split
  · exact halted
  · split
    · exact HaltReason.fromWord_halted _
    · split_ifs <;> exact halted

theorem foldl_readField_halted {seen : Option Nat × HaltReason} (halted : seen.2.isHalted = true)
    (fields : List (List Char)) : (fields.foldl readField seen).2.isHalted = true := by
  induction fields generalizing seen with
  | nil => exact halted
  | cons field rest ih => exact ih (readField_halted halted field)

theorem readLine_cases (raw : List Char) :
    (∀ out, readLine out raw = out) ∨
      ∃ slot why, HaltReason.isHalted why = true ∧ ∀ out, readLine out raw = update out slot why := by
  unfold readLine
  dsimp only
  split_ifs with skipped
  · exact .inl fun _ => rfl
  have halted : (readFields (trimWhite raw)).2.isHalted = true := foldl_readField_halted rfl _
  generalize readFields (trimWhite raw) = read at halted
  obtain ⟨slot, why⟩ := read
  cases slot with
  | none => exact .inl fun _ => rfl
  | some i =>
    dsimp only
    split_ifs with inside
    · exact .inr ⟨⟨i, inside⟩, why, halted, fun _ => rfl⟩
    · exact .inl fun _ => rfl

/-- Every slot halted in the first is halted in the second. -/
def Covered (first second : Reasons) : Prop :=
  ∀ slot, (first slot).isHalted = true → (second slot).isHalted = true

section Covered

variable {first second : Reasons}

theorem Covered.update (covered : Covered first second) (slot : Fin execSlots) (why : HaltReason) :
    Covered (update first slot why) (update second slot why) := by
  intro s halted
  by_cases same : s = slot
  · subst same
    rwa [update_self] at halted ⊢
  · rw [update_of_ne same] at halted ⊢
    exact covered s halted

theorem covered_update (out : Reasons) (slot : Fin execSlots) {why : HaltReason} (stops : why.isHalted = true) :
    Covered out (update out slot why) := by
  intro s halted
  by_cases same : s = slot
  · subst same
    rwa [update_self]
  · rwa [update_of_ne same]

theorem Covered.readLine (covered : Covered first second) (raw : List Char) :
    Covered (readLine first raw) (readLine second raw) := by
  rcases readLine_cases raw with skipped | ⟨slot, why, _, marked⟩
  · rwa [skipped, skipped]
  · rw [marked, marked]
    exact covered.update slot why

theorem covered_readLine (out : Reasons) (raw : List Char) : Covered out (readLine out raw) := by
  rcases readLine_cases raw with skipped | ⟨slot, why, stops, marked⟩
  · rw [skipped]
    exact fun _ halted => halted
  · rw [marked]
    exact covered_update out slot stops

theorem Covered.readText (covered : Covered first second) (text : List Char) :
    Covered (readText first text) (readText second text) := by
  unfold Router.readText
  induction lines text generalizing first second with
  | nil => exact covered
  | cons raw rest ih => exact ih (covered.readLine raw)

theorem covered_readText (out : Reasons) (text : List Char) : Covered out (readText out text) := by
  unfold Router.readText
  induction lines text generalizing out with
  | nil => exact fun _ halted => halted
  | cons raw rest ih => exact fun s halted => ih _ s (covered_readLine out raw s halted)

end Covered

/-- The file is written whole and reads back, and whatever is appended halts no fewer slots. -/
theorem halt_file_keeps_halts :
    (∀ reasons, renderHaltFile reasons = haltText reasons ∧ (haltText reasons).length ≤ haltFileMax ∧
      (haltText reasons).all isAscii = true ∧ parseHaltFile (renderHaltFile reasons) = reasons) ∧
    ∀ A B : List Char, A.getLast? = some '\n' → ∀ slot,
      (parseHaltFile A slot).isHalted = true ∨ (parseHaltFile B slot).isHalted = true →
        (parseHaltFile (A ++ B) slot).isHalted = true := by
  constructor
  · intro reasons
    exact ⟨renderHaltFile_eq reasons, haltText_length reasons, haltText_ascii reasons, parse_renderHaltFile reasons⟩
  intro A B ends slot halted
  have complete : Complete isNewline A := fun c last => by
    rw [ends, Option.some.injEq] at last
    exact last ▸ rfl
  have joined : parseHaltFile (A ++ B) = readText (parseHaltFile A) B := readText_append _ complete
  rw [joined]
  rcases halted with before | appended
  · exact covered_readText _ B slot before
  · have empty : Covered (fun _ => .none) (parseHaltFile A) := fun _ halted => (by cases halted)
    exact empty.readText B slot appended

/-- A line naming another reason, or nothing at all, leaves slot 3 halted. -/
theorem halt_file_keeps_slot_three :
    (parseHaltFile "3\n".toList ⟨3, by decide⟩).isHalted = true ∧
      (parseHaltFile ("3\n".toList ++ "slot=3 reason=none\nslot=x".toList) ⟨3, by decide⟩).isHalted = true :=
  ⟨by decide, halt_file_keeps_halts.2 _ _ (by decide) ⟨3, by decide⟩ (.inl (by decide))⟩

end TradingEngine.Router
