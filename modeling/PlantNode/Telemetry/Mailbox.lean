import PlantNode.Comms.ReceivePath
import PlantNode.Foundation.OnePlace
import PlantNode.Telemetry.Steps

/-!
# The attestation mailbox

`sRaBuf`, `sRaLen` and `sRaPending` are a one-place buffer: what the telemetry thread
takes are messages delivered on the attestation topic, and what happens to the others
is known.
-/

namespace PlantNode.Telemetry

open Foundation Crypto Comms

variable {K : Type}

/-! ## The slot as a one-place buffer -/

/-- The filter and the size check of `publish_callback`. -/
def admits (payload : List UInt8) : Bool :=
  !contains payload (ascii "\"query\"") && decide (payload.length ≤ raBufSize)

def placeOp : ReceiveAction K → OnePlace.Op (List UInt8)
  | .deliver true topic payload => if topic = TopicAttestation then .put payload else .skip
  | .take true => .take
  | _ => .skip

def place (s : ReceivePath K) : OnePlace.Place (List UInt8) where
  held := if s.slot.sRaPending then some s.slot.message else none
  taken := s.taken

variable {box : SecretBox K} {zero : K} {s : ReceivePath K}
  {acts past later : List (ReceiveAction K)} {payload message : List UInt8}

theorem place_receiveCommand (box : SecretBox K) (s : ReceivePath K) (payload : List UInt8) :
    place (receiveCommand box s payload) = place s := by
  rw [receiveCommand]
  split
  · rfl
  · split <;> rfl

theorem place_receiveAttestation (s : ReceivePath K) (payload : List UInt8) :
    place (receiveAttestation s payload) = OnePlace.step admits (place s) (.put payload) := by
  rw [receiveAttestation, OnePlace.step, admits]
  cases hpending : s.slot.sRaPending with
  | true => simp [place, hpending]
  | false =>
      cases contains payload (ascii "\"query\"") with
      | true => simp
      | false =>
          by_cases hlen : raBufSize < payload.length
          · simp [place, hpending, hlen]
          · have hfits := Nat.not_lt.mp hlen
            have hmessage := RaSlot.message_store s.slot hfits
            simp [place, hpending, hlen, hfits, hmessage]
            rfl

theorem place_step (box : SecretBox K) (s : ReceivePath K) (a : ReceiveAction K) :
    place (s.step box a) = OnePlace.step admits (place s) (placeOp a) := by
  cases a with
  | keyExchange outputs kx => rfl
  | encrypt reading outputs seed => rfl
  | deliver valid topic payload =>
      cases valid with
      | false => rfl
      | true =>
          have htopic : TopicAttestation ≠ TopicCommands := by decide
          simp only [ReceivePath.step, deliver, Bool.not_true, Bool.false_eq_true, if_false,
            placeOp]
          by_cases hattestation : topic = TopicAttestation
          · rw [if_neg (hattestation ▸ htopic), if_pos hattestation, if_pos hattestation]
            exact place_receiveAttestation s payload
          · rw [if_neg hattestation, if_neg hattestation]
            split
            · exact place_receiveCommand box s payload
            · rfl
  | take outputs =>
      cases outputs with
      | false => rfl
      | true =>
          simp only [ReceivePath.step, takeRaMessage, placeOp, OnePlace.step, place]
          cases hpending : s.slot.sRaPending with
          | true => rfl
          | false => simp [hpending]

/-- The receive path refines the buffer. -/
theorem place_run (box : SecretBox K) (zero : K) (acts : List (ReceiveAction K)) :
    place (ReceivePath.run box zero acts) = OnePlace.run admits (acts.map placeOp) := by
  induction acts using List.reverseRecOn with
  | nil => rfl
  | append_singleton acts a ih =>
      rw [ReceivePath.run_snoc, place_step, ih, List.map_append, List.map_singleton,
        OnePlace.run_snoc]

theorem placeOp_eq_put {a : ReceiveAction K} :
    placeOp a = .put payload ↔ a = .deliver true TopicAttestation payload := by
  constructor
  · intro h
    unfold placeOp at h
    split at h
    · split at h
      · rename_i htopic
        cases h
        rw [htopic]
      · cases h
    · cases h
    · cases h
  · rintro rfl
    simp [placeOp]

theorem placeOp_eq_take {a : ReceiveAction K} : placeOp a = .take ↔ a = .take true := by
  constructor
  · intro h
    unfold placeOp at h
    split at h
    · split at h <;> cases h
    · rfl
    · cases h
  · rintro rfl
    rfl

theorem no_take (h : .take true ∉ later) : ∀ op ∈ later.map placeOp, op ≠ .take := by
  intro op hop htake
  obtain ⟨a, ha, rfl⟩ := List.mem_map.mp hop
  rw [placeOp_eq_take.mp htake] at ha
  exact h ha

theorem held_run (box : SecretBox K) (zero : K) (acts : List (ReceiveAction K)) :
    (OnePlace.run admits (acts.map placeOp)).held =
      if (ReceivePath.run box zero acts).slot.sRaPending then
        some (ReceivePath.run box zero acts).slot.message else none := by
  rw [← place_run box zero acts]
  rfl

theorem held_eq_none : (OnePlace.run admits (acts.map placeOp)).held = none ↔
    (ReceivePath.run box zero acts).slot.sRaPending = false := by
  rw [held_run box zero]
  cases (ReceivePath.run box zero acts).slot.sRaPending <;> simp

/-! ## Deliveries and takes -/

/-- The message of a delivery on the attestation topic. -/
def attestationMessage : ReceiveAction K → Option (List UInt8)
  | .deliver _ topic payload => if topic = TopicAttestation then some payload else none
  | _ => none

/-- After `past`, a take with valid pointers returns the message. -/
def Returns (box : SecretBox K) (zero : K) (past : List (ReceiveAction K))
    (message : List UInt8) : Prop :=
  (takeRaMessage (ReceivePath.run box zero past) true).1 = .ok message

/-- The message is kept when it is delivered after `past`. -/
def Accepted (box : SecretBox K) (zero : K) (past : List (ReceiveAction K))
    (message : List UInt8) : Prop :=
  (ReceivePath.run box zero past).slot.sRaPending = false ∧
    (ReceivePath.run box zero
      (past ++ [.deliver true TopicAttestation message])).slot.sRaPending = true

/-- The last message accepted in `past` is not yet taken. -/
def Waiting (box : SecretBox K) (zero : K) (past : List (ReceiveAction K)) : Prop :=
  ∃ before message between, past = before ++ .deliver true TopicAttestation message :: between ∧
    Accepted box zero before message ∧ .take true ∉ between

/-- Why a message is dropped. -/
def Dropped (box : SecretBox K) (zero : K) (past : List (ReceiveAction K))
    (payload : List UInt8) : Prop :=
  contains payload (ascii "\"query\"") = true ∨ raBufSize < payload.length ∨ Waiting box zero past

theorem returns_iff : Returns box zero acts message ↔
    (OnePlace.run admits (acts.map placeOp)).held = some message := by
  rw [held_run box zero, Returns, takeRaMessage]
  cases (ReceivePath.run box zero acts).slot.sRaPending <;> simp

theorem accepted_iff : Accepted box zero past payload ↔
    (OnePlace.run admits (past.map placeOp)).held = none ∧ admits payload = true := by
  rw [Accepted, ← held_eq_none]
  refine and_congr_right fun hfree ↦ ?_
  rw [← Bool.not_eq_false, ← held_eq_none, List.map_append, List.map_singleton,
    placeOp_eq_put.mpr rfl, OnePlace.run_snoc, OnePlace.step, hfree]
  cases hadmits : admits payload <;> simp [hfree]

/-- A message that is returned was delivered since the last take. -/
theorem delivered_of_returns (h : Returns box zero past message) :
    ∃ before between, past = before ++ .deliver true TopicAttestation message :: between ∧
      .take true ∉ between := by
  obtain ⟨ops, ops', hsplit, -, -, hops'⟩ := OnePlace.held_eq_some (returns_iff.mp h)
  obtain ⟨before, rest, rfl, rfl, hrest⟩ := List.map_eq_append_iff.mp hsplit
  obtain ⟨a, between, rfl, ha, rfl⟩ := List.map_eq_cons_iff.mp hrest
  rw [placeOp_eq_put.mp ha]
  exact ⟨before, between, rfl, fun hmem ↦ hops' .take (List.mem_map.mpr ⟨_, hmem, rfl⟩) rfl⟩

/-- A message is dropped, or it is what the next take returns. -/
theorem delivery_fate (box : SecretBox K) (zero : K) (past : List (ReceiveAction K))
    (payload : List UInt8) :
    Dropped box zero past payload ∨ ∀ later, .take true ∉ later →
      Returns box zero (past ++ .deliver true TopicAttestation payload :: later) payload := by
  have hput : placeOp (.deliver true TopicAttestation payload : ReceiveAction K) = .put payload :=
    placeOp_eq_put.mpr rfl
  rcases OnePlace.put_fate admits (past.map placeOp) payload with
    hdrop | ⟨b, ops, ops', hsplit, hfree, hadmits, hops'⟩ | ⟨-, -, hkept⟩
  · left
    rw [admits, Bool.and_eq_false_iff, Bool.not_eq_false', decide_eq_false_iff_not, not_le] at hdrop
    rcases hdrop with hquery | hlong
    · exact .inl hquery
    · exact .inr (.inl hlong)
  · obtain ⟨before, rest, rfl, rfl, hrest⟩ := List.map_eq_append_iff.mp hsplit
    obtain ⟨a, between, rfl, ha, rfl⟩ := List.map_eq_cons_iff.mp hrest
    obtain rfl := placeOp_eq_put.mp ha
    refine .inl (.inr (.inr ⟨before, b, between, rfl, accepted_iff.mpr ⟨hfree, hadmits⟩, ?_⟩))
    exact fun hmem ↦ hops' .take (List.mem_map.mpr ⟨_, hmem, rfl⟩) rfl
  · refine .inr fun later hlater ↦ returns_iff.mpr ?_
    rw [List.map_append, List.map_cons, hput]
    exact hkept _ (no_take hlater)

theorem slot_receiveCommand (box : SecretBox K) (s : ReceivePath K) (payload : List UInt8) :
    (receiveCommand box s payload).slot = s.slot := by
  rw [receiveCommand]
  split
  · rfl
  · split <;> rfl

theorem slot_step {a : ReceiveAction K} (hpending : s.slot.sRaPending = true)
    (ha : a ≠ .take true) : (s.step box a).slot = s.slot := by
  cases a with
  | keyExchange outputs kx => rfl
  | encrypt reading outputs seed => rfl
  | deliver valid topic payload =>
      rw [ReceivePath.step, deliver]
      split
      · rfl
      split
      · exact slot_receiveCommand box s payload
      split
      · rw [receiveAttestation, if_pos hpending, ite_self]
      · rfl
  | take outputs =>
      cases outputs with
      | false => rfl
      | true => exact absurd rfl ha

/-- A pending message stays as it is until it is taken, with the bytes behind it. -/
theorem slot_kept (hpending : (ReceivePath.run box zero past).slot.sRaPending = true)
    (hlater : .take true ∉ later) :
    (ReceivePath.run box zero (past ++ later)).slot = (ReceivePath.run box zero past).slot := by
  induction later using List.reverseRecOn with
  | nil => rw [List.append_nil]
  | append_singleton later a ih =>
      have hnot : a ≠ .take true := fun h ↦ hlater (by simp [h])
      have ih := ih fun h ↦ hlater (List.mem_append_left _ h)
      rw [← List.append_assoc, ReceivePath.run_snoc, slot_step (by rwa [ih]) hnot, ih]

theorem puts_sublist (acts : List (ReceiveAction K)) :
    (OnePlace.puts (acts.map placeOp)).Sublist (acts.filterMap attestationMessage) := by
  induction acts with
  | nil => exact List.Sublist.slnil
  | cons a acts ih =>
      have hskip : (OnePlace.puts (acts.map placeOp)).Sublist
          ((a :: acts).filterMap attestationMessage) := by
        rw [List.filterMap_cons]
        split
        · exact ih
        · exact ih.cons _
      rw [List.map_cons]
      cases hop : placeOp a with
      | put payload =>
          obtain rfl := placeOp_eq_put.mp hop
          have hmessage : attestationMessage (.deliver true TopicAttestation payload :
              ReceiveAction K) = some payload := by
            simp [attestationMessage]
          rw [List.filterMap_cons_some hmessage]
          exact ih.cons_cons payload
      | take => exact hskip
      | skip => exact hskip

theorem taken_delivered (box : SecretBox K) (zero : K) (acts : List (ReceiveAction K)) :
    (ReceivePath.run box zero acts).taken.Sublist (acts.filterMap attestationMessage) := by
  have htaken := OnePlace.taken_sublist admits (acts.map placeOp)
  rw [← place_run box zero] at htaken
  exact (List.sublist_append_left _ _).trans (htaken.trans (puts_sublist acts))

/-! ## The mailbox -/

/-- What is taken are messages delivered on the attestation topic, in their order and
each at most once, and each since the take before; a message that no take returns could
not be claimed, or is dropped for one of three reasons; a pending message is not altered;
and the drain loop ends after at most two tests. -/
theorem attestation_mailbox (box : SecretBox K) (zero : K) :
    (∀ acts, (ReceivePath.run box zero acts).taken.Sublist
      (acts.filterMap attestationMessage)) ∧
    (∀ past message, Returns box zero past message →
      ∃ before between, past = before ++ .deliver true TopicAttestation message :: between ∧
        .take true ∉ between) ∧
    (∀ past valid payload, valid = false ∨ Dropped box zero past payload ∨
      ∀ later, .take true ∉ later →
        Returns box zero (past ++ .deliver valid TopicAttestation payload :: later) payload) ∧
    (∀ past later, (ReceivePath.run box zero past).slot.sRaPending = true →
      .take true ∉ later →
        (ReceivePath.run box zero (past ++ later)).slot = (ReceivePath.run box zero past).slot) ∧
    ∀ (s : State K) fuel, drainLoop (fuel + 2) s = drainRaMessages s ∧
      (commsTakeRaMessage (drainRaMessages s).comms).1 = .error .ENOENT := by
  refine ⟨taken_delivered box zero, fun _ _ ↦ delivered_of_returns, fun past valid payload ↦ ?_,
    fun _ _ ↦ slot_kept, fun s fuel ↦ ⟨drainLoop_add_two fuel, ?_⟩⟩
  · cases valid with
    | false => exact .inl rfl
    | true => exact .inr (delivery_fate box zero past payload)
  · rw [commsTakeRaMessage_empty (drainRaMessages_empties s)]

/-- A message whose pointers could not be claimed is lost for none of the three
reasons. -/
theorem unclaimed_message_lost :
    ¬∀ (past : List (ReceiveAction ℕ)) valid payload, Dropped .tagged 0 past payload ∨
      ∀ later, .take true ∉ later →
        Returns .tagged 0 (past ++ .deliver valid TopicAttestation payload :: later) payload := by
  intro hall
  rcases hall [] false (ascii "\x7b\"attested\": true\x7d") with
    (hquery | hlong | ⟨before, message, between, hpast, -⟩) | hreturns
  · exact absurd hquery (by decide)
  · exact absurd hlong (by decide)
  · exact absurd hpast (by simp)
  · have hempty : (ReceivePath.run .tagged 0 [.deliver false TopicAttestation
        (ascii "\x7b\"attested\": true\x7d")]).slot.sRaPending = false := by
      decide
    have htaken := hreturns [] List.not_mem_nil
    rw [List.nil_append, Returns, takeRaMessage, hempty] at htaken
    cases htaken

end PlantNode.Telemetry
