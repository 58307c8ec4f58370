import PlantNode.Sensors.Machine

/-!
# What the sensor programs keep to

Each entry point asks the driver for four batches only, marks the temperature sensor as
initialised only after the check of its calibration, and hands out what the bus delivered.
-/

namespace PlantNode.Sensors

open Driver Foundation

/-! ## The four batches -/

def statusRead : Request :=
  .transact (some tempI2cCap) (some [⟨I2cRead, 1, 0, some statusAt⟩]) .unlimited

def initWrite : Request :=
  .transact (some tempI2cCap) (some [⟨I2cWrite, 3, 0, some initAt⟩]) .unlimited

def measurement : Request :=
  .transact (some tempI2cCap)
    (some [⟨I2cWrite, 3, 0, some triggerAt⟩, ⟨I2cDelay, 0, 85, none⟩,
      ⟨I2cRead, 6, 0, some bufAt⟩]) .unlimited

def touchRead : Request :=
  .transact (some moistureI2cCap)
    (some [⟨I2cWrite, 2, 0, some cmdAt⟩, ⟨I2cDelay, 0, 2, none⟩, ⟨I2cRead, 2, 0, some bufAt⟩])
    .unlimited

def sensorRequests : List Request := [statusRead, initWrite, measurement, touchRead]

/-! ## Contracts -/

/-- The status was read; the calibration bit was set in it, or the sensor was initialised. -/
def Checked (l : List (Turn Op.Ans)) : Prop :=
  ∃ status : Answer, ⟨.transact statusRead, status⟩ ∈ l ∧ status.ret = .ok () ∧
    (status.buffer 0 &&& KStatusCalibrated ≠ 0 ∨
      ∃ answer : Answer, ⟨.transact initWrite, answer⟩ ∈ l ∧ answer.ret = .ok ())

/-- The latch was found set, or this conversation has checked the calibration. -/
def Cleared (l : List (Turn Op.Ans)) : Prop :=
  ⟨.getInitialized, true⟩ ∈ l ∨ Checked l

/-- What a program may do after the conversation `l`. -/
def Allowed (l : List (Turn Op.Ans)) : Op → Prop
  | .transact request => request ∈ sensorRequests ∧ (request = measurement → Cleared l)
  | .setInitialized => Checked l
  | _ => True

/-- What the driver may answer. -/
def Answered (_ : List (Turn Op.Ans)) : Turn Op.Ans → Prop
  | ⟨.transact _, answer⟩ =>
      answer.ret = .ok () ∨ answer.ret = .error .EIo ∨ answer.ret = .error .ETIMEDOUT
  | _ => True

/-- How `temperature_read_both` ends, from its conversation.  When the driver fails, nothing is
done after that. -/
inductive Measured (celsiusX10Out humidityRx10Out : Bool) :
    List (Turn Op.Ans) → Except Errno (Option Int16 × Option UInt16) → Prop where
  | null (h : celsiusX10Out = false ∧ humidityRx10Out = false) :
      Measured celsiusX10Out humidityRx10Out [] (.error .EINVAL)
  | failed (l : List (Turn Op.Ans)) (request : Request) (answer : Answer) (e : Errno)
      (h : answer.ret = .error e) :
      Measured celsiusX10Out humidityRx10Out (l ++ [⟨.transact request, answer⟩]) (.error e)
  | busy (l : List (Turn Op.Ans)) (answer : Answer) (cleared : Cleared l)
      (h : answer.ret = .ok ()) (bit : answer.buffer 0 &&& KStatusBusy ≠ 0) :
      Measured celsiusX10Out humidityRx10Out (l ++ [⟨.transact measurement, answer⟩])
        (.error .EBUSY)
  | read (l : List (Turn Op.Ans)) (answer : Answer) (cleared : Cleared l)
      (h : answer.ret = .ok ()) (bit : answer.buffer 0 &&& KStatusBusy = 0) :
      Measured celsiusX10Out humidityRx10Out (l ++ [⟨.transact measurement, answer⟩])
        (.ok (Aht20.parseMeasurement (Vector.ofFn fun i ↦ answer.buffer i) celsiusX10Out
          humidityRx10Out))

/-- How `moisture_read_raw` ends. -/
inductive Touched (rawOut : Bool) : List (Turn Op.Ans) → Except Errno UInt16 → Prop where
  | null (h : rawOut = false) : Touched rawOut [] (.error .EINVAL)
  | failed (answer : Answer) (e : Errno) (h : answer.ret = .error e) :
      Touched rawOut [⟨.transact touchRead, answer⟩] (.error e)
  | read (answer : Answer) (raw : UInt16) (h : answer.ret = .ok ())
      (value : raw.toNat = (answer.buffer 0).toNat * 2 ^ 8 + (answer.buffer 1).toNat) :
      Touched rawOut [⟨.transact touchRead, answer⟩] (.ok raw)

/-- `percent` of the way from dry to wet, cut off at both ends. -/
def IsPercent (raw : UInt16) (percent : UInt8) : Prop :=
  percent.toNat = min 100 ((raw.toNat - 400) * 100 / (1800 - 400))

/-- How a call of an entry point ends. -/
def Entry.Ends : Entry → List (Turn Op.Ans) → Except Errno Reading → Prop
  | .both c h, l, result => ∃ r, Measured c h l r ∧ result = r.map fun out ↦ .both out.1 out.2
  | .celsius c, l, result =>
      ∃ r, Measured c false l r ∧ result = r.map fun out ↦ .both out.1 out.2
  | .raw out, l, result => ∃ r, Touched out l r ∧ result = r.map .raw
  | .percent out, l, result => ∃ r, Touched out l r ∧
      ((∃ e, r = .error e ∧ result = .error e) ∨
        ∃ raw percent, r = .ok raw ∧ IsPercent raw percent ∧ result = .ok (.percent percent))

/-! ## Values -/

theorem toNat_bigEndian (high low : UInt8) :
    (high.toUInt16 <<< 8 ||| low.toUInt16).toNat = high.toNat * 2 ^ 8 + low.toNat := by
  have hhigh := high.toNat_lt
  have hlow := low.toNat_lt
  have hshift : (high.toUInt16 <<< 8).toNat = high.toNat * 2 ^ 8 := by
    rw [UInt16.toNat_shiftLeft, show (8 : UInt16).toNat = 8 by decide,
      Nat.mod_eq_of_lt (by omega : 8 < 16), UInt8.toNat_toUInt16, Nat.shiftLeft_eq]
    exact Nat.mod_eq_of_lt (by omega)
  rw [UInt16.toNat_or, hshift, UInt8.toNat_toUInt16]
  exact Aht20.or_eq_add (Nat.dvd_mul_left _ _) hlow

theorem percentOf_isPercent (raw : UInt16) : IsPercent raw (percentOf raw) := by
  have hdry : KCalDry.toNat = 400 := by decide
  have hwet : KCalWet.toNat = 1800 := by decide
  unfold IsPercent percentOf
  simp only [UInt16.le_iff_toNat_le, hdry, hwet]
  by_cases hlow : raw.toNat ≤ 400
  · rw [if_pos hlow, Nat.sub_eq_zero_of_le hlow]
    rfl
  rw [if_neg hlow]
  by_cases hhigh : 1800 ≤ raw.toNat
  · rw [if_pos hhigh]
    have hfull : 100 ≤ (raw.toNat - 400) * 100 / (1800 - 400) := by omega
    rw [Nat.min_eq_left hfull]
    rfl
  rw [if_neg hhigh]
  have hspan : (KCalWet - KCalDry).toUInt32.toNat = 1400 := by decide
  have hsub : (raw - KCalDry).toNat = raw.toNat - 400 := by
    rw [UInt16.toNat_sub_of_le _ _ (by rw [UInt16.le_iff_toNat_le]; omega), hdry]
  have hproduct : ((raw - KCalDry).toUInt32 * 100).toNat = (raw.toNat - 400) * 100 := by
    rw [UInt32.toNat_mul, UInt16.toNat_toUInt32, hsub, show (100 : UInt32).toNat = 100 by decide]
    exact Nat.mod_eq_of_lt (by omega)
  rw [UInt32.toNat_toUInt8, UInt32.toNat_div, hproduct, hspan]
  omega

/-! ## The programs keep their contracts -/

section Contracts

variable {l : List (Turn Op.Ans)} {request : Request}
  {Q : List (Turn Op.Ans) → Ret × (ℕ → UInt8) → Prop}

theorem Checked.mono {l' : List (Turn Op.Ans)} (h : Checked l) (hsub : l ⊆ l') : Checked l' := by
  obtain ⟨status, hstatus, hret, hbit | ⟨init, hinit, hok⟩⟩ := h
  · exact ⟨status, hsub hstatus, hret, .inl hbit⟩
  · exact ⟨status, hsub hstatus, hret, .inr ⟨init, hsub hinit, hok⟩⟩

theorem Cleared.append (h : Cleared l) (more : List (Turn Op.Ans)) : Cleared (l ++ more) := by
  rcases h with hget | hchecked
  · exact .inl (List.mem_append_left _ hget)
  · exact .inr (hchecked.mono (List.subset_append_left _ _))

/-- A driver call in a program. -/
theorem spec_transact {dev : I2CDevice} {steps : List I2CStep}
    (hrequest : .transact dev (some steps) .unlimited ∈ sensorRequests)
    (hcleared : .transact dev (some steps) .unlimited = measurement → Cleared l)
    (hok : ∀ answer : Answer, answer.ret = .ok () →
      Q (l ++ [⟨.transact (.transact dev (some steps) .unlimited), answer⟩])
        (.ok (), answer.buffer))
    (herror : ∀ (answer : Answer) e, answer.ret = .error e →
      Q (l ++ [⟨.transact (.transact dev (some steps) .unlimited), answer⟩])
        (.error e, answer.buffer)) :
    (transact dev steps).Spec Allowed Answered Q l := by
  refine Prog.spec_bind.mpr ⟨⟨hrequest, hcleared⟩, fun (answer : Answer) _ ↦ ?_⟩
  change Q _ (answer.ret, answer.buffer)
  rcases hret : answer.ret with e | _
  · exact herror answer e hret
  · exact hok answer hret

theorem spec_measureBoth (c h : Bool) (hcleared : Cleared l) :
    (measureBoth c h).Spec Allowed Answered (Measured c h) l := by
  refine Prog.spec_bind.mpr (Prog.spec_bind.mpr (spec_transact (by decide) (fun _ ↦ hcleared)
    (fun answer hret ↦ ?_) fun answer e hret ↦ ?_))
  · by_cases hbit : answer.buffer 0 &&& KStatusBusy = 0
    · simp only [hbit, ne_eq, not_true_eq_false, if_false]
      exact .read l answer hcleared hret hbit
    · simp only [ne_eq, hbit, not_false_eq_true, if_true]
      exact .busy l answer hcleared hret hbit
  · exact .failed l _ answer e hret

/-- The check fails with the driver, or the calibration has been checked. -/
theorem spec_ensureCalibrated : ensureCalibrated.Spec Allowed Answered
    (fun l ret ↦ (∃ e, ret = .error e ∧ ∃ l' request, ∃ answer : Answer,
        l = l' ++ [⟨.transact request, answer⟩] ∧ answer.ret = .error e) ∨
      ret = .ok () ∧ Checked l) l := by
  refine Prog.spec_bind.mpr (spec_transact (by decide) (fun h ↦ absurd h (by decide))
    (fun status hret ↦ ?_) fun status e hret ↦ .inl ⟨e, rfl, l, _, status, rfl, hret⟩)
  have hstatus : ⟨.transact statusRead, status⟩ ∈ l ++ [⟨.transact statusRead, status⟩] :=
    List.mem_append_right _ List.mem_cons_self
  by_cases hbit : status.buffer 0 &&& KStatusCalibrated = 0
  · -- Not calibrated: the init command is written.
    simp only [hbit, if_true]
    refine Prog.spec_bind.mpr (Prog.spec_bind.mpr (spec_transact (by decide)
      (fun h ↦ absurd h (by decide)) (fun answer hok ↦ ?_)
      fun answer e hret ↦ .inl ⟨e, rfl, _, _, answer, rfl, hret⟩))
    have hchecked : Checked (l ++ [⟨.transact statusRead, status⟩] ++
        [⟨.transact initWrite, answer⟩]) :=
      ⟨status, List.mem_append_left _ hstatus, hret,
        .inr ⟨answer, List.mem_append_right _ List.mem_cons_self, hok⟩⟩
    exact ⟨trivial, fun _ _ ↦ .inr ⟨rfl, hchecked.mono (List.subset_append_left _ _)⟩⟩
  · simp only [hbit, if_false]
    exact .inr ⟨rfl, status, hstatus, hret, .inl hbit⟩

theorem spec_temperatureReadBoth (c h : Bool) :
    (temperatureReadBoth c h).Spec Allowed Answered (Measured c h) [] := by
  unfold temperatureReadBoth
  by_cases hnull : c = false ∧ h = false
  · obtain ⟨rfl, rfl⟩ := hnull
    exact Measured.null ⟨rfl, rfl⟩
  rw [if_neg (by simpa using hnull)]
  refine Prog.spec_bind.mpr ⟨trivial, fun latch _ ↦ ?_⟩
  cases latch with
  | true => exact spec_measureBoth c h (.inl List.mem_cons_self)
  | false =>
      refine Prog.spec_bind.mpr (spec_ensureCalibrated.mono ?_)
      rintro l ret (⟨e, rfl, l', request, answer, rfl, hret⟩ | ⟨rfl, hchecked⟩)
      · exact Measured.failed l' request answer e hret
      · refine Prog.spec_bind.mpr ⟨hchecked, fun _ _ ↦ spec_measureBoth c h ?_⟩
        exact .inr (hchecked.mono (List.subset_append_left _ _))

theorem spec_moistureReadRaw (out : Bool) :
    (moistureReadRaw out).Spec Allowed Answered (Touched out) [] := by
  unfold moistureReadRaw
  cases out with
  | false => exact Touched.null rfl
  | true =>
      refine Prog.spec_bind.mpr (spec_transact (by decide) (fun h ↦ absurd h (by decide))
        (fun answer hret ↦ ?_) fun answer e hret ↦ .failed answer e hret)
      exact Touched.read answer _ hret (toNat_bigEndian _ _)

theorem spec_moistureReadPercent (out : Bool) :
    (moistureReadPercent out).Spec Allowed Answered
      (fun l result ↦ ∃ r, Touched out l r ∧ ((∃ e, r = .error e ∧ result = .error e) ∨
        ∃ raw percent, r = .ok raw ∧ IsPercent raw percent ∧ result = .ok percent)) [] := by
  unfold moistureReadPercent
  cases out with
  | false => exact ⟨_, .null rfl, .inl ⟨_, rfl, rfl⟩⟩
  | true =>
      refine Prog.spec_bind.mpr ((spec_moistureReadRaw true).mono fun l r htouched ↦ ?_)
      rcases r with e | raw
      · exact ⟨_, htouched, .inl ⟨e, rfl, rfl⟩⟩
      · exact ⟨_, htouched, .inr ⟨raw, _, rfl, percentOf_isPercent raw, rfl⟩⟩

/-- The contract of every entry point. -/
theorem Entry.spec_code (entry : Entry) :
    entry.code.Spec Allowed Answered entry.Ends [] := by
  cases entry with
  | both c h =>
      refine Prog.spec_bind.mpr ((spec_temperatureReadBoth c h).mono fun l r hr ↦ ?_)
      exact ⟨r, hr, rfl⟩
  | celsius c =>
      refine Prog.spec_bind.mpr ((spec_temperatureReadBoth c false).mono fun l r hr ↦ ?_)
      exact ⟨r, hr, rfl⟩
  | raw out =>
      refine Prog.spec_bind.mpr ((spec_moistureReadRaw out).mono fun l r hr ↦ ?_)
      exact ⟨r, hr, rfl⟩
  | percent out =>
      refine Prog.spec_bind.mpr ((spec_moistureReadPercent out).mono ?_)
      rintro l result ⟨r, hr, ⟨e, rfl, rfl⟩ | ⟨raw, percent, rfl, hpercent, rfl⟩⟩
      · exact ⟨_, hr, .inl ⟨e, rfl, rfl⟩⟩
      · exact ⟨_, hr, .inr ⟨raw, percent, rfl, hpercent, rfl⟩⟩

end Contracts

end PlantNode.Sensors
