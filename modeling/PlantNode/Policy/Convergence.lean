import PlantNode.Policy.Update
import PlantNode.Foundation.Latch
import Mathlib.Order.Bounds.Basic

/-!
# Convergence of threshold updates

The policy state is a latch over the packets the parser accepts.  The parser
accepts more than the documented format: a packet may go on after its brace.  So
the state converges to the newest documented command unless such an over-long
packet is the one it ends with.
-/

namespace PlantNode.Policy

open Foundation

def deliver (s : State) (packet : List UInt8) : State :=
  (policyUpdateThreshold s (some packet)).2

/-- The packets in the order of their delivery, from the boot state. -/
def deliverAll (packets : List (List UInt8)) : State := packets.foldl deliver .boot

/-- The state is that of the first delivered packet of the documented format with
the greatest timestamp, or the boot state. -/
structure Converged (packets : List (List UInt8)) (s : State) : Prop where
  last : IsGreatest ({0} ∪ {t | ∃ packet ∈ packets, ∃ h, Documented packet t h})
    s.sLastCommandTimestamp
  boot : s.sLastCommandTimestamp = 0 → s.sMoistureLow = 300
  low : 0 < s.sLastCommandTimestamp → ∃ pre packet post, packets = pre ++ packet :: post ∧
    Documented packet s.sLastCommandTimestamp s.sMoistureLow ∧
      ∀ q ∈ pre, ∀ h, ¬Documented q s.sLastCommandTimestamp h

def Documents (packet : List UInt8) (x : ℕ × ℕ) : Prop := Documented packet x.1 x.2

def Starts (packet : List UInt8) (x : ℕ × ℕ) : Prop := ∃ rest, Formatted packet x.1 x.2 rest

def OverLong (packet : List UInt8) (x : ℕ × ℕ) : Prop :=
  ∃ rest, rest ≠ [] ∧ Formatted packet x.1 x.2 rest

/-- Each over-long packet is not new when it is delivered, is overtaken by a newer
packet, or is followed by a documented packet that says the same before any other
that is as new. -/
def HarmlessTails (packets : List (List UInt8)) : Prop :=
  ∀ pre packet post x, packets = pre ++ packet :: post → OverLong packet x →
    Outdone Starts Documents (0, 300) pre post x

variable {packet : List UInt8} {packets : List (List UInt8)} {s : State} {x y : ℕ × ℕ}

/-! ## The state as a latch -/

def State.pair (s : State) : ℕ × ℕ := (s.sLastCommandTimestamp, s.sMoistureLow)

theorem State.pair_injective : Function.Injective State.pair := by
  rintro ⟨low, last⟩ ⟨low', last'⟩ h
  cases h
  rfl

theorem pair_deliver (s : State) (packet : List UInt8) :
    (deliver s packet).pair = latchItem parseCommand s.pair packet := by
  rw [deliver, policyUpdateThreshold_eq, latchItem]
  cases parseCommand packet with
  | none => rfl
  | some x =>
      by_cases hle : x.1 ≤ s.sLastCommandTimestamp
      · simp [latch, State.pair, hle, Nat.not_lt.mpr hle]
      · simp [latch, State.pair, hle, Nat.not_le.mp hle]

/-- The state is latched over what the parser accepts. -/
theorem deliverAll_latched (packets : List (List UInt8)) :
    Latched Starts (0, 300) packets (deliverAll packets).pair := by
  have hfold : packets.foldl (latchItem parseCommand) State.boot.pair =
      (packets.foldl deliver .boot).pair :=
    List.foldl_hom State.pair fun s packet ↦ (pair_deliver s packet).symm
  have hreads : (fun packet x ↦ parseCommand packet = some x) = Starts := by
    funext packet x
    exact propext parseCommand_eq_some
  have hlatched := latched_foldl parseCommand State.boot.pair packets
  rw [hreads, hfold] at hlatched
  exact hlatched

theorem converged_iff : Converged packets s ↔ Latched Documents (0, 300) packets s.pair := by
  constructor
  · rintro ⟨⟨hmem, hupper⟩, hboot, hlow⟩
    refine ⟨Nat.zero_le _, fun q hq x hx ↦ hupper (.inr ⟨q, hq, x.2, hx⟩), ?_⟩
    rcases Nat.eq_zero_or_pos s.sLastCommandTimestamp with hzero | hpos
    · exact .inl (Prod.ext hzero (hboot hzero))
    · obtain ⟨pre, q, post, rfl, hq, hpre⟩ := hlow hpos
      refine .inr ⟨pre, q, post, rfl, hq, hpos, fun b hb x hx ↦ ?_⟩
      refine lt_of_le_of_ne (hupper (.inr ⟨b, by simp [hb], x.2, hx⟩)) ?_
      rintro (heq : x.1 = s.sLastCommandTimestamp)
      exact hpre b hb x.2 (by rw [← heq]; exact hx)
  · rintro ⟨-, hupper, hfirst⟩
    have hle : ∀ t ∈ {0} ∪ {t | ∃ packet ∈ packets, ∃ h, Documented packet t h},
        t ≤ s.sLastCommandTimestamp := by
      rintro t (rfl | ⟨q, hq, h, ht⟩)
      · exact Nat.zero_le _
      · exact hupper q hq (t, h) ht
    rcases hfirst with hs | ⟨pre, q, post, rfl, hq, hpos, hpre⟩
    · have hzero : s.sLastCommandTimestamp = 0 := congrArg Prod.fst hs
      exact ⟨⟨.inl hzero, hle⟩, fun _ ↦ congrArg Prod.snd hs,
        fun hpos ↦ absurd hzero hpos.ne'⟩
    · refine ⟨⟨.inr ⟨q, by simp, s.sMoistureLow, hq⟩, hle⟩,
        fun hzero ↦ absurd hzero (Nat.ne_of_gt hpos), fun _ ↦ ⟨pre, q, post, rfl, hq, ?_⟩⟩
      exact fun b hb h hx ↦ lt_irrefl _ (hpre b hb (s.sLastCommandTimestamp, h) hx)

/-! ## Documented and over-long packets -/

theorem Documents.starts (h : Documents packet x) : Starts packet x := ⟨[], h⟩

theorem Starts.unique (hx : Starts packet x) (hy : Starts packet y) : x = y :=
  Option.some.inj
    ((parseCommand_eq_some.mpr hx).symm.trans (parseCommand_eq_some.mpr hy))

theorem overLong_iff : OverLong packet x ↔ Starts packet x ∧ ¬Documents packet x := by
  constructor
  · rintro ⟨rest, hrest, hformat⟩
    refine ⟨⟨rest, hformat⟩, fun hdoc ↦ hrest ?_⟩
    have hfields := (formatted_iff.mp hformat).1.symm.trans (formatted_iff.mp hdoc).1
    simpa using hfields
  · rintro ⟨⟨rest, hformat⟩, hdoc⟩
    refine ⟨rest, ?_, hformat⟩
    rintro rfl
    exact hdoc hformat

/-- Over-long packets older than another packet are harmless. -/
theorem harmlessTails_of_older (holder : ∀ packet ∈ packets, ∀ x, OverLong packet x →
    ∃ q ∈ packets, ∃ y, Starts q y ∧ x.1 < y.1) : HarmlessTails packets := by
  rintro pre packet post x rfl hx
  obtain ⟨q, hq, y, hy, hlt⟩ := holder packet (by simp) x hx
  rcases List.mem_append.mp hq with hq | hq
  · exact .inr (.inl ⟨q, hq, y, hy, hlt.le⟩)
  rcases List.mem_cons.mp hq with rfl | hq
  · exact absurd hlt ((overLong_iff.mp hx).1.unique hy ▸ lt_irrefl _)
  · exact .inr (.inr (.inl ⟨q, hq, y, hy, hlt⟩))

/-! ## Convergence -/

/-- The state converges exactly if the over-long packets are harmless, and then the
order and the repetition of the packets do not matter. -/
theorem thresholds_converge_iff (packets : List (List UInt8)) :
    (Converged packets (deliverAll packets) ↔ HarmlessTails packets) ∧
      ∀ packets', (∀ packet, packet ∈ packets ↔ packet ∈ packets') →
        (∀ p ∈ packets, ∀ q ∈ packets, ∀ t h h', Documented p t h → Documented q t h' → h = h') →
          HarmlessTails packets → HarmlessTails packets' →
            deliverAll packets = deliverAll packets' := by
  have hiff : ∀ packets, Converged packets (deliverAll packets) ↔ HarmlessTails packets := by
    intro packets
    rw [converged_iff, (deliverAll_latched packets).restrict_iff (fun _ _ h ↦ h.starts)
      fun _ _ _ hx hy ↦ hx.unique hy]
    simp only [HarmlessTails, overLong_iff, and_imp]
  refine ⟨hiff packets, fun packets' hsame hagree hharmless hharmless' ↦ ?_⟩
  have hlatched := converged_iff.mp ((hiff packets).mpr hharmless)
  have hlatched' := converged_iff.mp ((hiff packets').mpr hharmless')
  refine State.pair_injective (hlatched.eq_of_same_items hlatched' hsame ?_)
  rintro p hp q hq ⟨t, h⟩ ⟨t', h'⟩ hx hy - heq
  cases (heq : t = t')
  exact hagree p hp q hq t h h' hx hy

theorem thresholds_converge_older_tail :
    let tailed := ascii "\x7b\"timestamp\":5,\"threshold\":9\x7d\n"
    let command := ascii "\x7b\"timestamp\":6,\"threshold\":8\x7d"
    Converged [tailed, command] (deliverAll [tailed, command]) ∧
      deliverAll [tailed, command] = deliverAll [command, tailed, command] := by
  intro tailed command
  have htailed : Starts tailed (5, 9) := parseCommand_eq_some.mp (by decide)
  have hover : OverLong tailed (5, 9) := ⟨ascii "\n", by decide, formatted_iff.mpr (by decide)⟩
  have hcommand : Documents command (6, 8) := formatted_iff.mpr (by decide)
  clear_value tailed command
  have hdocumented : ∀ packet ∈ [tailed, command], ∀ t h, Documented packet t h → h = 8 := by
    intro packet hmem t h hdoc
    have hdoc : Documents packet (t, h) := hdoc
    rcases List.mem_pair.mp hmem with rfl | rfl
    · rw [hdoc.starts.unique htailed] at hdoc
      exact absurd hdoc (overLong_iff.mp hover).2
    · exact congrArg Prod.snd (hdoc.starts.unique hcommand.starts)
  have holder : ∀ packet ∈ [tailed, command], ∀ x, OverLong packet x → x.1 < 6 := by
    intro packet hmem x hx
    rcases List.mem_pair.mp hmem with rfl | rfl
    · rw [(overLong_iff.mp hx).1.unique htailed]
      decide
    · rw [(overLong_iff.mp hx).1.unique hcommand.starts] at hx
      exact absurd hcommand (overLong_iff.mp hx).2
  have hsame : ∀ packet, packet ∈ [tailed, command] ↔ packet ∈ [command, tailed, command] := by
    intro packet
    simp only [List.mem_cons, List.not_mem_nil, or_false]
    tauto
  have hharmless : HarmlessTails [tailed, command] :=
    harmlessTails_of_older fun packet hmem x hx ↦
      ⟨command, by simp, (6, 8), hcommand.starts, holder packet hmem x hx⟩
  have hharmless' : HarmlessTails [command, tailed, command] :=
    harmlessTails_of_older fun packet hmem x hx ↦
      ⟨command, by simp, (6, 8), hcommand.starts, holder packet ((hsame packet).mpr hmem) x hx⟩
  refine ⟨(thresholds_converge_iff _).1.mpr hharmless,
    (thresholds_converge_iff _).2 _ hsame ?_ hharmless hharmless'⟩
  intro p hp q hq t h h' ht ht'
  rw [hdocumented p hp t h ht, hdocumented q hq t h' ht']

/-- One byte after the brace, and a malformed packet decides the state. -/
theorem threshold_from_trailing_byte :
    let packet := ascii "\x7b\"timestamp\":5,\"threshold\":7\x7dx"
    ¬Converged [packet] (deliverAll [packet]) := by
  intro packet hconv
  have hstate : deliverAll [packet] = ⟨7, 5⟩ := by decide
  have hover : OverLong packet (5, 7) :=
    ⟨ascii "x", by decide, formatted_iff.mpr (by decide)⟩
  rw [hstate] at hconv
  clear_value packet
  rcases hconv.last.1 with hzero | ⟨q, hq, h, hdoc⟩
  · exact absurd hzero (by decide)
  · rw [List.mem_singleton.mp hq] at hdoc
    have hdoc : Documents packet (5, h) := hdoc
    rw [← (overLong_iff.mp hover).1.unique hdoc.starts] at hdoc
    exact (overLong_iff.mp hover).2 hdoc

end PlantNode.Policy
