import PlantNode.Policy.Convergence

/-!
# The command parser by position

`parse_uint_field` and `policy_update_threshold` as they walk the buffer, with `pos`
and `packetLen`.  A read past the end of the buffer has no result.  The walk never
makes one, and does what the parser on lists does.
-/

namespace PlantNode.Policy

open Foundation

/-- `memcmp(buf + pos, key, keyLen) == 0`, which may read all the bytes it compares. -/
def memcmpAt (buf : List UInt8) (pos : ℕ) : List UInt8 → Option Bool
  | [] => some true
  | k :: key =>
      buf[pos]?.bind fun c ↦ (memcmpAt buf (pos + 1) key).map fun same ↦ c == k && same

/-- The digit loop.  The outer `none` is a read out of bounds, the inner one is
`return false`. -/
def parseDigitsAt (buf : List UInt8) (len value pos : ℕ) : Option (Option (ℕ × ℕ)) :=
  if pos < len then
    buf[pos]?.bind fun c ↦
      if isDigit c then
        -- check for overflow before accumulation
        if (UINT32_MAX - digitOf c) / 10 < value then some none
        else parseDigitsAt buf len ((value * 10 + digitOf c) % 2 ^ 32) (pos + 1)
      else some (some (value, pos))
  else some (some (value, pos))
termination_by len - pos

/-- `parse_uint_field`: `*outValue` and `*outPos` if it returns true. -/
def parseUintFieldAt (buf : List UInt8) (len pos : ℕ) (key : List UInt8) :
    Option (Option (ℕ × ℕ)) :=
  if len < pos + key.length then some none
  else
    (memcmpAt buf pos key).bind fun same ↦
      if !same then some none
      else if len ≤ pos + key.length then some none
      else
        buf[pos + key.length]?.bind fun c ↦
          if isDigit c then parseDigitsAt buf len 0 (pos + key.length) else some none

/-- `policy_update_threshold(packet, packetLen)`; `none` is a read out of bounds. -/
def policyUpdateThresholdAt (s : State) (packet : Option (List UInt8)) (packetLen : ℕ) :
    Option (Ret × State) :=
  match packet with
  | none => some (.error .EINVAL, s)
  | some packet =>
      (parseUintFieldAt packet packetLen 0 TimestampKey).bind fun
        | none => some (.error .EINVAL, s)
        | some (timestamp, pos) =>
            (parseUintFieldAt packet packetLen pos ThresholdKey).bind fun
              | none => some (.error .EINVAL, s)
              | some (threshold, pos) =>
                  if packetLen ≤ pos then some (.error .EINVAL, s)
                  else
                    packet[pos]?.bind fun c ↦
                      if c ≠ closeBrace then some (.error .EINVAL, s)
                      else if UINT16_MAX < threshold then some (.error .EINVAL, s)
                      else if timestamp ≤ s.sLastCommandTimestamp then
                        some (.error .EALREADY, s)
                      else
                        some (.ok (), { sMoistureLow := threshold % 2 ^ 16
                                        sLastCommandTimestamp := timestamp })

variable {s : State} {buf key rest packet : List UInt8} {value v pos : ℕ}

/-! ## Positions and what is left at them -/

/-- The position at which `rest` is left of the buffer. -/
def positionOf (buf rest : List UInt8) : ℕ := buf.length - rest.length

theorem drop_positionOf (h : rest <:+ buf) : buf.drop (positionOf buf rest) = rest :=
  (List.suffix_iff_eq_drop.mp h).symm

theorem positionOf_drop (h : pos ≤ buf.length) : positionOf buf (buf.drop pos) = pos := by
  rw [positionOf, List.length_drop]
  omega

theorem positionOf_le (buf rest : List UInt8) : positionOf buf rest ≤ buf.length :=
  Nat.sub_le _ _

theorem getElem?_of_drop {c : UInt8} (h : buf.drop pos = c :: rest) : buf[pos]? = some c := by
  have hhead := congrArg List.head? h
  rwa [List.head?_drop, List.head?_cons] at hhead

theorem drop_succ_of_drop {c : UInt8} (h : buf.drop pos = c :: rest) :
    buf.drop (pos + 1) = rest := by
  rw [← List.tail_drop, h, List.tail_cons]

theorem lt_length_of_drop {c : UInt8} (h : buf.drop pos = c :: rest) : pos < buf.length := by
  by_contra hle
  rw [List.drop_eq_nil_of_le (Nat.not_lt.mp hle)] at h
  cases h

/-! ## The walk and the parser on lists -/

theorem memcmpAt_eq (h : pos + key.length ≤ buf.length) :
    memcmpAt buf pos key = some (key.isPrefixOf (buf.drop pos)) := by
  induction key generalizing pos with
  | nil => rw [memcmpAt, List.isPrefixOf]
  | cons k key ih =>
      rw [List.length_cons] at h
      have hpos : pos < buf.length := by omega
      rw [memcmpAt, List.getElem?_eq_getElem hpos, ih (by omega),
        List.drop_eq_getElem_cons hpos, List.isPrefixOf]
      simp [Bool.beq_comm]

theorem suffix_of_parseUintField (h : parseUintField buf key = some (v, rest)) :
    rest <:+ buf := by
  obtain ⟨ds, -, rfl, -⟩ := parseUintField_eq_some.mp h
  exact List.suffix_append _ _

/-- The digit loop by position reads what is left at its position. -/
theorem parseDigitsAt_eq (hpos : pos ≤ buf.length) :
    parseDigitsAt buf buf.length value pos =
      some ((parseDigits value (buf.drop pos)).map fun r ↦ (r.1, positionOf buf r.2)) := by
  induction hleft : buf.drop pos generalizing value pos with
  | nil =>
      have hend := List.drop_eq_nil_iff.mp hleft
      have hlast : pos = buf.length := Nat.le_antisymm hpos hend
      rw [parseDigitsAt, if_neg (Nat.not_lt.mpr hend), parseDigits]
      simp [positionOf, hlast]
  | cons c left ih =>
      have hlt := lt_length_of_drop hleft
      rw [parseDigitsAt, if_pos hlt, getElem?_of_drop hleft, Option.bind_some, parseDigits]
      split
      · split
        · rfl
        · exact ih hlt (drop_succ_of_drop hleft)
      · rw [Option.map_some, ← hleft, positionOf_drop hpos]

theorem parseUintFieldAt_eq (hpos : pos ≤ buf.length) :
    parseUintFieldAt buf buf.length pos key =
      some ((parseUintField (buf.drop pos) key).map fun r ↦ (r.1, positionOf buf r.2)) := by
  unfold parseUintFieldAt parseUintField
  split
  · rename_i hshort
    have hkey : ¬key.isPrefixOf (buf.drop pos) := by
      intro h
      have hlen := (List.isPrefixOf_iff_prefix.mp h).length_le
      rw [List.length_drop] at hlen
      omega
    rw [if_neg hkey]
    rfl
  · rename_i hlong
    have hfits := Nat.not_lt.mp hlong
    rw [memcmpAt_eq hfits, Option.bind_some]
    by_cases hkey : key.isPrefixOf (buf.drop pos)
    · rw [if_neg (by simp [hkey]), if_pos hkey, List.drop_drop]
      cases hleft : buf.drop (pos + key.length) with
      | nil =>
          rw [if_pos (List.drop_eq_nil_iff.mp hleft)]
          rfl
      | cons c left =>
          rw [if_neg (Nat.not_le.mpr (lt_length_of_drop hleft)), getElem?_of_drop hleft,
            Option.bind_some]
          dsimp only
          split
          · rw [parseDigitsAt_eq hfits, hleft]
          · rfl
    · rw [if_pos (by simp [hkey]), if_neg hkey]
      rfl

/-- The walk makes no read out of bounds and does what the parser on lists does. -/
theorem policyUpdateThresholdAt_eq (s : State) (packet : List UInt8) :
    policyUpdateThresholdAt s (some packet) packet.length =
      some (policyUpdateThreshold s (some packet)) := by
  unfold policyUpdateThresholdAt policyUpdateThreshold parseFields
  dsimp only
  rw [parseUintFieldAt_eq (Nat.zero_le _), List.drop_zero]
  cases hfirst : parseUintField packet TimestampKey with
  | none => rfl
  | some field =>
      obtain ⟨timestamp, mid⟩ := field
      have hmid := suffix_of_parseUintField hfirst
      simp only [Option.map_some, Option.bind_some]
      rw [parseUintFieldAt_eq (positionOf_le _ _), drop_positionOf hmid]
      cases hsecond : parseUintField mid ThresholdKey with
      | none => rfl
      | some field =>
          obtain ⟨threshold, rest⟩ := field
          have hrest := (suffix_of_parseUintField hsecond).trans hmid
          have hleft := drop_positionOf hrest
          simp only [Option.map_some, Option.bind_some]
          cases rest with
          | nil =>
              rw [if_pos (List.drop_eq_nil_iff.mp hleft)]
              simp
          | cons c rest =>
              rw [if_neg (Nat.not_le.mpr (lt_length_of_drop hleft)), getElem?_of_drop hleft]
              simp only [Option.bind_some, List.head?_cons, ne_eq, Option.some.injEq]
              split
              · rfl
              split
              · rfl
              split <;> rfl

/-! ## What an update reads and writes -/

/-- The update reads inside the packet only, leaves the state alone unless it returns 0,
and then stores the exact values of the two digit runs. -/
theorem threshold_update_exact (s : State) (packet : List UInt8) :
    ∃ ret s', policyUpdateThresholdAt s (some packet) packet.length = some (ret, s') ∧
      (ret ≠ .ok () → s' = s) ∧
      (ret = .ok () → ∃ d₁ d₂ rest, DigitRun d₁ ∧ DigitRun d₂ ∧
        packet = TimestampKey ++ d₁ ++ ThresholdKey ++ d₂ ++ [closeBrace] ++ rest ∧
        s'.sLastCommandTimestamp = decimalValue d₁ ∧
        s.sLastCommandTimestamp < s'.sLastCommandTimestamp ∧
        s'.sLastCommandTimestamp ≤ UINT32_MAX ∧
        s'.sMoistureLow = decimalValue d₂ ∧ s'.sMoistureLow ≤ UINT16_MAX) := by
  cases hrun : policyUpdateThreshold s (some packet) with
  | mk ret s' =>
      refine ⟨ret, s', by rw [policyUpdateThresholdAt_eq, hrun], fun herror ↦ ?_, fun hok ↦ ?_⟩
      · cases ret with
        | ok => exact absurd rfl herror
        | error e => exact policyUpdateThreshold_error hrun
      · rw [hok] at hrun
        obtain ⟨t, h, hparse, hnew, rfl⟩ := policyUpdateThreshold_ok hrun
        obtain ⟨rest, ⟨d₁, d₂, hrun₁, hrun₂, rfl, rfl, hpacket⟩, ht, hh⟩ :=
          parseCommand_eq_some.mp hparse
        exact ⟨d₁, d₂, rest, hrun₁, hrun₂, hpacket, rfl, hnew, ht, rfl, hh⟩

/-- A packet is accepted exactly if it is documented, unless it is a documented command
with bytes after its brace. -/
theorem accepted_iff_documented_iff (s : State) (packet : List UInt8) :
    ((policyUpdateThreshold s (some packet)).1 ≠ .error .EINVAL ↔
        ∃ t h, Documented packet t h) ↔
      ¬∃ x, OverLong packet x := by
  have haccepted : (policyUpdateThreshold s (some packet)).1 ≠ .error .EINVAL ↔
      ∃ x, Starts packet x := by
    rw [policyUpdateThreshold_eq]
    constructor
    · intro hret
      cases hparse : parseCommand packet with
      | none => exact absurd (by rw [hparse]) hret
      | some x => exact ⟨x, parseCommand_eq_some.mp hparse⟩
    · rintro ⟨x, hx⟩
      rw [parseCommand_eq_some.mpr hx]
      by_cases hstale : x.1 ≤ s.sLastCommandTimestamp <;> simp [hstale]
  rw [haccepted]
  constructor
  · rintro hiff ⟨x, hx⟩
    obtain ⟨hstarts, hundocumented⟩ := overLong_iff.mp hx
    obtain ⟨t, h, hdoc⟩ := hiff.mp ⟨x, hstarts⟩
    have hdoc : Documents packet (t, h) := hdoc
    rw [hstarts.unique hdoc.starts] at hundocumented
    exact hundocumented hdoc
  · intro hnone
    refine ⟨fun ⟨x, hx⟩ ↦ ?_, fun ⟨t, h, hdoc⟩ ↦ ⟨(t, h), Documents.starts hdoc⟩⟩
    by_contra hundocumented
    exact hnone ⟨x, overLong_iff.mpr ⟨hx, fun hdoc ↦ hundocumented ⟨x.1, x.2, hdoc⟩⟩⟩

/-- One byte after the brace, and the packet is applied. -/
theorem accepted_with_trailing_byte :
    let packet := ascii "\x7b\"timestamp\":5,\"threshold\":7\x7dx"
    (policyUpdateThreshold .boot (some packet)).1 ≠ .error .EINVAL ∧
      ¬∃ t h, Documented packet t h := by
  intro packet
  refine ⟨by decide, fun ⟨t, h, hdoc⟩ ↦ ?_⟩
  have hover : OverLong packet (5, 7) := ⟨ascii "x", by decide, formatted_iff.mpr (by decide)⟩
  have hdoc : Documents packet (t, h) := hdoc
  rw [← (overLong_iff.mp hover).1.unique hdoc.starts] at hdoc
  exact (overLong_iff.mp hover).2 hdoc

end PlantNode.Policy
