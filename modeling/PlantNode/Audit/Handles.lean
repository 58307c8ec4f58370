import PlantNode.Audit.Caps
import PlantNode.Driver.Served

/-!
# The driver in an audited image

A compartment can call the driver with the sealed objects that the image gives it, and with no
others.  What the audit says of these objects then holds of the bus, whatever the compartments
do.
-/

namespace PlantNode.Audit

open Foundation Driver

/-- The compartment has a sealed object for the capability. -/
def Holds (fw : Firmware) (name : String) (cap : I2CDeviceCap) : Prop :=
  ∃ imp contents, (name, imp) ∈ fw.imports ∧ isI2cSealed imp = true ∧
    imp.contents = some contents ∧ Encodes contents cap

/-- Call number `id` of the driver comes from the compartment `origin id`, with a sealed object
of its own or with a handle that does not unseal. -/
def Linked (fw : Firmware) (origin : ℕ → String) (s : Driver.State) : Driver.Action → Prop
  | .call _ request => ∀ cap, request.dev = some cap → Holds fw (origin s.calls) cap
  | _ => True

variable {fw : Firmware} {origin : ℕ → String} {msToTicks : ℕ → ℕ} {s t : Driver.State}
  {a : Driver.Action} {name : String} {cap : I2CDeviceCap}

/-- What the third and the fifth property say of an object that a compartment holds. -/
theorem audited_of_holds (h3 : prop3Pass fw = true) (h5 : prop5Pass fw = true)
    (h : Holds fw name cap) : Audited name cap := by
  obtain ⟨⟨hmoisture, htemperature⟩, hholders⟩ := prop3Pass_iff.mp h3
  obtain ⟨hmoistureMs, htemperatureMs⟩ := prop5Pass_contents h5
  obtain ⟨imp, contents, himp, hsealed, hcontents, hcap⟩ := h
  have hname : name ∈ i2cSealedObjectHolders fw := Firmware.mem_holders.mpr ⟨imp, himp, hsealed⟩
  rw [hholders, Finset.mem_insert, Finset.mem_singleton] at hname
  rcases hname with rfl | rfl
  · exact .inl ⟨rfl, audited_of_contents (a := 0x36) (m := 20) hmoisture hmoistureMs himp hsealed
      hcontents hcap (by decide) (by decide)⟩
  · exact .inr ⟨rfl, audited_of_contents (a := 0x38) (m := 150) htemperature htemperatureMs himp
      hsealed hcontents hcap (by decide) (by decide)⟩

/-! ## Calls -/

/-- Each call of a run was made with an object of its compartment. -/
theorem holds_of_called (h : Steps (Driver.step msToTicks) (Linked fw origin) .boot s) :
    ∀ id me request, .called id me request ∈ s.trace → ∀ cap, request.dev = some cap →
      Holds fw (origin id) cap := by
  refine h.invariant (I := fun s ↦ ∀ id me request, .called id me request ∈ s.trace →
    ∀ cap, request.dev = some cap → Holds fw (origin id) cap) (by simp [Driver.State.boot]) ?_
  intro s a t hs hlinked hstep id me request hcalled
  rcases (step_trans msToTicks hstep).called_from hcalled with hold | ⟨rfl, rfl⟩
  · exact hs id me request hold
  · exact hlinked

/-- The capabilities that the image seals. -/
def sealedCaps (fw : Firmware) : Set I2CDeviceCap := { cap | ∃ name, Holds fw name cap }

theorem sealed_of_linked (h : Steps (Driver.step msToTicks) (Linked fw origin) .boot s) :
    Steps (Driver.step msToTicks) (Sealed (sealedCaps fw)) .boot s := by
  refine h.mono fun s a hlinked ↦ ?_
  cases a with
  | call me request => exact fun cap hcap ↦ ⟨_, hlinked cap hcap⟩
  | _ => trivial

/-- The audit leaves two addresses, and the table has room for them. -/
theorem sealedCaps_fit (h3 : prop3Pass fw = true) (h5 : prop5Pass fw = true) :
    (I2CDeviceCap.address '' sealedCaps fw).encard ≤ MaxReservations := by
  have hsub : I2CDeviceCap.address '' sealedCaps fw ⊆ {0x36, 0x38} := by
    rintro address ⟨cap, ⟨name, hholds⟩, rfl⟩
    rcases audited_of_holds h3 h5 hholds with ⟨-, haddress, -⟩ | ⟨-, haddress, -⟩
    · exact .inl haddress
    · exact .inr haddress
  calc (I2CDeviceCap.address '' sealedCaps fw).encard
      ≤ ({0x36, 0x38} : Set UInt8).encard := Set.encard_le_encard hsub
    _ ≤ ({0x38} : Set UInt8).encard + 1 := Set.encard_insert_le _ _
    _ = 2 := by rw [Set.encard_singleton]; rfl
    _ ≤ MaxReservations := by decide

/-! ## Claims -/

/-- A fresh claim: who opened its call, and the entry it wrote. -/
def Recorded (msToTicks : ℕ → ℕ) (s : Driver.State) : Prop :=
  ∀ q ∈ claimsOf s.trace, Opens s.trace q.entry.owner q.claim ∧
    q.entry = claimEntry msToTicks q.entry.owner q.claim.cap.address q.claim.holdMs
      q.claim.isLease q.tick

theorem recorded (h : Reachable (Driver.step msToTicks) .boot s) : Recorded msToTicks s := by
  refine h.invariant_over (K := Ledger) (I := Recorded msToTicks)
    (fun s hs ↦ Ledger.reachable hs) (by simp [Recorded, claimsOf, Driver.State.boot]) ?_
  intro s a t hledger hs _ hstep q hq
  have ht := step_trans msToTicks hstep
  have hgrow := ht.trace_prefix
  rcases ht.claims with ⟨hclaims, -⟩ | ⟨me, ok, c, tm, i, -, hpc, -, -, -, hclaims⟩
  · rw [hclaims] at hq
    exact ⟨Opens.of_prefix (hs q hq).1 hgrow, (hs q hq).2⟩
  · rw [hclaims] at hq
    rcases List.mem_append.mp hq with hold | hnew
    · exact ⟨Opens.of_prefix (hs q hold).1 hgrow, (hs q hold).2⟩
    · cases List.mem_singleton.mp hnew
      have hopens := (hledger.claims me c (by rw [hpc]; rfl)).1
      exact ⟨hopens.of_prefix hgrow, rfl⟩

/-- The reservation of a batch ends within the ceiling of its capability. -/
theorem deadline_of_batch {q : ClaimRecord} (h : Recorded msToTicks s)
    (hq : q ∈ claimsOf s.trace) (hbatch : q.claim.isLease = false) :
    q.entry.address = q.claim.cap.address ∧
      q.entry.deadlineTick ≤ q.tick + msToTicks q.claim.cap.maxBatchMs.toNat ∧
        ∃ u request, .called q.claim.call u request ∈ s.trace ∧
          request.dev = some q.claim.cap := by
  obtain ⟨⟨request, tm, hcalled, hstart⟩, hentry⟩ := h q hq
  have hhold : q.claim.holdMs = q.claim.cap.maxBatchMs.toNat := by
    rcases hclaim : q.claim with ⟨call, cap, holdMs, steps⟩
    rw [hclaim] at hstart hbatch
    cases Request.starts hstart with
    | transact dev steps tm cap l haccept => rfl
    | leaseAcquire dev durationMs tm cap holdMs haccept => cases hbatch
  refine ⟨by rw [hentry]; rfl, ?_, _, request, hcalled, Request.start_cap hstart rfl⟩
  rw [hentry, claimEntry, hhold]
  exact Nat.mod_le _ _

/-! ## The bus of an audited image -/

/-- No call of a run returned `-EBUSY`. -/
theorem not_busy (h3 : prop3Pass fw = true) (h5 : prop5Pass fw = true)
    (h : Steps (Driver.step msToTicks) (Linked fw origin) .boot s) :
    ∀ id me, .returned id me (.error .EBUSY) ∉ s.trace := by
  refine h.invariant_over (K := fun s ↦ Steps (Driver.step msToTicks) (Linked fw origin) .boot s)
    (I := fun s ↦ ∀ id me, .returned id me (.error .EBUSY) ∉ s.trace) (fun _ hs ↦ hs)
    (by simp [Driver.State.boot]) ?_
  intro s a t hs hnone _ hstep id me hbusy
  rcases (step_trans msToTicks hstep).busy_from (Ledger.reachable hs.reachable) hbusy with
    hold | ⟨u, c, tm, hpc, hvacant, hcrowded⟩
  · exact hnone id me hold
  · exact (addressed (sealed_of_linked hs)).not_full (sealedCaps_fit h3 h5) hs.reachable hpc
      hvacant hcrowded

/-- What the compartments of an image can do to the bus: each sensor compartment reaches its
own sensor, for the ceiling that was audited at most, and no other compartment any. -/
structure Partitioned (origin : ℕ → String) (msToTicks : ℕ → ℕ) (s : Driver.State) : Prop where
  busy : ∀ id me, .returned id me (.error .EBUSY) ∉ s.trace
  transfers : ∀ x, .transfer x ∈ s.trace →
    (origin x.call = "moisture_sensor" ∧ x.address = 0x36) ∨
      (origin x.call = "temperature_sensor" ∧ x.address = 0x38)
  deadlines : ∀ q ∈ claimsOf s.trace, q.claim.isLease = false →
    (origin q.claim.call = "moisture_sensor" ∧ q.entry.address = 0x36 ∧
        q.entry.deadlineTick ≤ q.tick + msToTicks 20) ∨
      (origin q.claim.call = "temperature_sensor" ∧ q.entry.address = 0x38 ∧
        q.entry.deadlineTick ≤ q.tick + msToTicks 150)

theorem audited_bus (fw : Firmware) (pass : prop3Pass fw = true ∧ prop5Pass fw = true)
    (origin : ℕ → String) (msToTicks : ℕ → ℕ) {s : Driver.State}
    (h : Steps (Driver.step msToTicks) (Linked fw origin) .boot s) :
    Partitioned origin msToTicks s := by
  obtain ⟨h3, h5⟩ := pass
  have hledger := Ledger.reachable h.reachable
  refine ⟨not_busy h3 h5 h, fun x hx ↦ ?_, fun q hq hbatch ↦ ?_⟩
  · obtain ⟨b, dev, steps, tm, hcalled, haccept, hissues⟩ := hledger.issuedBy hx
    obtain ⟨rfl, -⟩ := acceptBatch_ok haccept
    obtain ⟨pre, st, post, ok, -, -, -, -, htransfer⟩ := hissues
    have haddr : x.address = b.cap.address := congrArg Transfer.address htransfer
    have hholds : Holds fw (origin x.call) b.cap := holds_of_called h _ _ _ hcalled b.cap rfl
    rcases audited_of_holds h3 h5 hholds with ⟨hname, haddress, -⟩ | ⟨hname, haddress, -⟩
    · exact .inl ⟨hname, haddr.trans haddress⟩
    · exact .inr ⟨hname, haddr.trans haddress⟩
  · obtain ⟨haddr, hdeadline, u, request, hcalled, hdev⟩ :=
      deadline_of_batch (recorded h.reachable) hq hbatch
    have hholds := holds_of_called h _ _ _ hcalled _ hdev
    rcases audited_of_holds h3 h5 hholds with ⟨hname, haddress, hms⟩ | ⟨hname, haddress, hms⟩
    · rw [hms] at hdeadline
      exact .inl ⟨hname, haddr.trans haddress, hdeadline⟩
    · rw [hms] at hdeadline
      exact .inr ⟨hname, haddr.trans haddress, hdeadline⟩

/-- Both sensors at work in the image of the source. -/
theorem audited_bus_sensors : ∃ s : Driver.State,
    (onBus s.trace).map (fun x ↦ (x.call, x.address)) = [(0, 0x36), (1, 0x38)] ∧
      Partitioned (fun id ↦ if id = 0 then "moisture_sensor" else "temperature_sensor") (· / 10)
        s := by
  let moisture : I2CDeviceCap := ⟨0x36, 3, 0, 8, 20, 0⟩
  let temperature : I2CDeviceCap := ⟨0x38, 3, 0, 8, 150, 0⟩
  let touch : Driver.Action :=
    .call 0 (.transact (some moisture) (some [⟨0, 2, 0, some 1⟩]) .unlimited)
  let trigger : Driver.Action :=
    .call 1 (.transact (some temperature) (some [⟨0, 3, 0, some 1⟩]) .unlimited)
  have hrun : (exec (Driver.step (· / 10))
      (fun s a ↦ decide ((s.calls, a) ∈ [(0, touch), (1, trigger)] ∨ a = .run 0 true ∨
        a = .run 1 true)) .boot
      [touch, .run 0 true, trigger, .run 1 true, .run 0 true, .run 0 true, .run 0 true,
        .run 1 true, .run 1 true, .run 1 true]).map
      (fun s ↦ (onBus s.trace).map fun x ↦ (x.call, x.address)) =
      some [(0, 0x36), (1, 0x38)] := by
    decide +kernel
  obtain ⟨s, hexec, hs⟩ := Option.map_eq_some_iff.mp hrun
  refine ⟨s, hs, audited_bus sensorImage (by decide +kernel) _ (· / 10)
    ((exec_steps hexec).mono fun u a ha ↦ ?_)⟩
  have hmoisture : Holds sensorImage "moisture_sensor" moisture :=
    ⟨sensorCap "36030000 08001400 00000000", _, by decide +kernel, by decide +kernel, rfl, 0,
      by decide +kernel⟩
  have htemperature : Holds sensorImage "temperature_sensor" temperature :=
    ⟨sensorCap "38030000 08009600 00000000", _, by decide +kernel, by decide +kernel, rfl, 0,
      by decide +kernel⟩
  simp only [decide_eq_true_eq, List.mem_cons, Prod.mk.injEq, List.not_mem_nil, or_false] at ha
  rcases ha with (⟨hcalls, rfl⟩ | ⟨hcalls, rfl⟩) | rfl | rfl
  · rintro cap ⟨⟩
    rwa [hcalls]
  · rintro cap ⟨⟩
    rwa [hcalls]
  · trivial
  · trivial

end PlantNode.Audit
