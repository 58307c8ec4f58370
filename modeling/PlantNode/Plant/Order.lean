import PlantNode.Plant.Readings

/-!
# Waterings told in order

A network that loses readings but neither repeats nor reorders them, and a device whose
clock is set and goes forward.  Then the charter reports a watering for exactly those
readings before which the device watered, each at most once and in the order of the
waterings.
-/

namespace PlantNode.Plant

open Foundation Crypto Charter Comms Irrigation Protocol Charter.Watering

variable {K : Type} {config : Config K} {py : Python} {known : K → Prop} {s t : State K}
  {a : Action K}

/-- A reading arrives after those encrypted before it only. -/
def InOrder (config : Config K) (py : Python) (s : State K) : Action K → Prop
  | .message msg _ => ∀ item ∈ s.monitor.sessions.head?,
      ∀ reading, Reads config py item.2 msg reading →
        ∀ x ∈ s.arrivals, x.key = item.2.rxKey → x.msgId < rawMsgId msg.payload
  | _ => True

/-- An activation is recorded at a later time than those before it in its boot. -/
def Ticks (s : State K) : Action K → Prop
  | .irrigate .record => ∀ tv, s.irrigation.pc = .evaluated .PumpActivation tv →
      Known tv ∧ ∀ tv' ∈ s.irrigation.recorded, timestampOf tv' < timestampOf tv
  | _ => True

/-- The message id does not come round. -/
def Counts (s : State K) : Action K → Prop
  | .report _ _ _ _ _ => s.session.sMsgId + 1 < 2 ^ 64
  | _ => True

structure Orderly (config : Config K) (py : Python) (known : K → Prop) (s : State K)
    (a : Action K) : Prop where
  ideal : Ideal config known s a
  inOrder : InOrder config py s a
  ticks : Ticks s a
  counts : Counts s a

/-! ## The reports of one key -/

/-- Times that are known and go forward. -/
def Forward (recorded : List (Option ℤ)) : Prop :=
  (∀ tv ∈ recorded, Known tv) ∧ recorded.Pairwise fun tv tv' ↦ timestampOf tv < timestampOf tv'

/-- The time of the last activation, as the mailbox has it. -/
def lastTime (recorded : List (Option ℤ)) : ℕ := (recorded.getLast?.map timestampOf).getD 0

theorem timestamp_pos {tv : Option ℤ} (h : Known tv) : 0 < timestampOf tv := by
  obtain ⟨-, -, -, hne⟩ := known_iff.mp h
  exact Nat.pos_of_ne_zero hne

/-- More activations mean a later time. -/
theorem lastTime_lt {old new : List (Option ℤ)} (hnew : Forward new) (hpre : old <+: new)
    (hne : old ≠ new) : lastTime old < lastTime new := by
  obtain ⟨more, rfl⟩ := hpre
  rcases List.eq_nil_or_concat more with rfl | ⟨more, tv, rfl⟩
  · simp at hne
  rw [List.concat_eq_append, ← List.append_assoc] at hnew ⊢
  have hlast : lastTime ((old ++ more) ++ [tv]) = timestampOf tv := by
    rw [lastTime, List.getLast?_concat]
    rfl
  rw [hlast, lastTime]
  cases hold : old.getLast? with
  | none => exact timestamp_pos (hnew.1 tv (by simp))
  | some tv' =>
      have hmem : tv' ∈ old ++ more := List.mem_append_left _ (List.mem_of_getLast? hold)
      exact (List.pairwise_append.mp hnew.2).2.2 tv' hmem tv List.mem_cons_self

theorem lastTime_eq_iff {old new : List (Option ℤ)} (hnew : Forward new) (hpre : old <+: new) :
    lastTime new = lastTime old ↔ old = new := by
  constructor
  · intro heq
    by_contra hne
    have hlt := lastTime_lt hnew hpre hne
    omega
  · rintro rfl
    rfl

/-- The reports of the current session came before, and those of one key are in the order of
their message ids. -/
structure Ordered (s : State K) : Prop where
  current : s.session.sSessionReady = true → ∀ r ∈ s.reports, r.key = s.session.sSessionTxKey →
    r.msgId < s.session.sMsgId ∧ r.recorded <+: s.irrigation.recorded
  forward : Forward s.irrigation.recorded
  reports : ∀ r ∈ s.reports, Forward r.recorded
  chain : ∀ r ∈ s.reports, ∀ r' ∈ s.reports, r.key = r'.key → r.msgId < r'.msgId →
    r.recorded <+: r'.recorded
  unique : ∀ r ∈ s.reports, ∀ r' ∈ s.reports, r.key = r'.key → r.msgId = r'.msgId → r = r'

theorem ordered_start (zero : K) : Ordered (.start zero) := by
  have hforward : Forward [] := ⟨by simp, List.Pairwise.nil⟩
  refine ⟨?_, hforward, ?_, ?_, ?_⟩ <;> simp [State.start]

theorem Ordered.of_eq (ho : Ordered s) (hsession : t.session = s.session)
    (hrecorded : t.irrigation.recorded = s.irrigation.recorded) (hreports : t.reports = s.reports) :
    Ordered t := by
  refine ⟨?_, ?_, ?_, ?_, ?_⟩
  · rw [hsession, hreports, hrecorded]
    exact ho.current
  · rw [hrecorded]
    exact ho.forward
  · rw [hreports]
    exact ho.reports
  · rw [hreports]
    exact ho.chain
  · rw [hreports]
    exact ho.unique

theorem Ordered.irrigate (ho : Ordered s) {b : Irrigation.Action} {j : Irrigation.State}
    (hticks : Ticks s (.irrigate b)) (h : Irrigation.step s.irrigation b = some j)
    (pulses : List (Pulse K)) : Ordered { s with irrigation := j, pulses := pulses } := by
  have hquiet : j.recorded = s.irrigation.recorded →
      Ordered { s with irrigation := j, pulses := pulses } := fun heq ↦ ho.of_eq rfl heq rfl
  rcases irrigation_cases h with ⟨-, -, -, -, -, -, hrecorded⟩ |
    ⟨rfl, ⟨tv, hpc, hrecorded⟩, -, -⟩ | ⟨-, hrecorded, -, -⟩
  · exact hquiet hrecorded
  · obtain ⟨hknown, hlater⟩ := hticks tv hpc
    refine ⟨fun hready r hr hkey ↦ ?_, ?_, ho.reports, ho.chain, ho.unique⟩
    · obtain ⟨hid, hpre⟩ := ho.current hready r hr hkey
      refine ⟨hid, ?_⟩
      simp only [hrecorded]
      exact hpre.trans (List.prefix_append _ _)
    · simp only [hrecorded]
      refine ⟨List.forall_mem_append.mpr ⟨ho.forward.1, List.forall_mem_singleton.mpr hknown⟩, ?_⟩
      refine List.pairwise_append.mpr ⟨ho.forward.2, by simp, fun tv' htv' tv'' htv'' ↦ ?_⟩
      rw [List.mem_singleton.mp htv'']
      exact hlater tv' htv'
  · exact hquiet hrecorded

theorem Ordered.step (hbox : config.box.Lawful) (ho : Ordered s) (hr : Logs config.box s)
    (horderly : Orderly config py known s a) (h : step config py s a = some t) : Ordered t := by
  cases a with
  | boot zero =>
      cases Option.some.inj h
      have hforward : Forward [] := ⟨by simp, List.Pairwise.nil⟩
      exact ⟨fun hready ↦ absurd hready (by simp [Session.boot]), hforward, ho.reports, ho.chain,
        ho.unique⟩
  | initSession kx =>
      cases Option.some.inj h
      cases kx with
      | none => exact ho.of_eq rfl rfl rfl
      | some kx =>
          have hfresh : FreshKeys known s.exchanges kx := horderly.ideal
          refine ⟨fun _ r hmem hkey ↦ ?_, ho.forward, ho.reports, ho.chain, ho.unique⟩
          obtain ⟨old, hold, htx⟩ := hr.exchanged r hmem
          exact absurd (hkey.symm.trans htx) (hfresh.unused old hold).1
  | irrigate b =>
      obtain ⟨-, j, hj, rfl⟩ := irrigate_ok h
      exact ho.irrigate horderly.ticks hj _
  | report moistureRaw temperatureCx10 humidityRx10 tv seed =>
      cases Option.some.inj h
      have hcount : s.session.sMsgId + 1 < 2 ^ 64 := horderly.counts
      generalize takeReading s.irrigation moistureRaw temperatureCx10 humidityRx10 tv = reading
      generalize hcall : cryptoEncrypt config.box s.session (some reading) true seed = call
      obtain ⟨result, session⟩ := call
      rcases report_cases hbox s reading seed hcall with ⟨-, hreports, rfl⟩ |
        ⟨cipher, hready, -, -, hreports, rfl⟩
      · exact ho.of_eq rfl rfl (by simp [hreports])
      have hbefore : ∀ r ∈ s.reports, r.key = s.session.sSessionTxKey →
          r.msgId < s.session.sMsgId ∧ r.recorded <+: s.irrigation.recorded := ho.current hready
      simp only [hreports, Nat.mod_eq_of_lt hcount]
      refine ⟨?_, ho.forward, ?_, ?_, ?_⟩
      · refine fun _ ↦ List.forall_mem_append.mpr ⟨fun r hmem hkey ↦ ?_,
          List.forall_mem_singleton.mpr fun _ ↦ ⟨Nat.lt_succ_self _, List.prefix_rfl⟩⟩
        obtain ⟨hid, hpre⟩ := hbefore r hmem hkey
        exact ⟨Nat.lt_succ_of_lt hid, hpre⟩
      · exact List.forall_mem_append.mpr ⟨ho.reports, List.forall_mem_singleton.mpr ho.forward⟩
      · refine List.forall_mem_append.mpr ⟨fun r hmem ↦ List.forall_mem_append.mpr
          ⟨ho.chain r hmem, List.forall_mem_singleton.mpr fun hkey _ ↦ (hbefore r hmem hkey).2⟩,
          List.forall_mem_singleton.mpr (List.forall_mem_append.mpr ⟨fun r hmem hkey hid ↦ ?_,
            List.forall_mem_singleton.mpr fun _ _ ↦ List.prefix_rfl⟩)⟩
        exact absurd hid (Nat.lt_asymm (hbefore r hmem hkey.symm).1)
      · refine List.forall_mem_append.mpr ⟨fun r hmem ↦ List.forall_mem_append.mpr
          ⟨ho.unique r hmem, List.forall_mem_singleton.mpr fun hkey hid ↦ ?_⟩,
          List.forall_mem_singleton.mpr (List.forall_mem_append.mpr ⟨fun r hmem hkey hid ↦ ?_,
            List.forall_mem_singleton.mpr fun _ _ ↦ rfl⟩)⟩
        · exact absurd hid (hbefore r hmem hkey).1.ne
        · exact absurd hid.symm (hbefore r hmem hkey.symm).1.ne
  | _ =>
      cases Option.some.inj h
      exact ho.of_eq rfl rfl rfl

/-! ## The arrivals -/

/-- What a session remembers is the last arrival. -/
def Remembers (s : State K) : Prop :=
  ∀ item ∈ s.monitor.sessions.head?, ∀ seen ∈ item.2.lastWateringSeen,
    ∃ x ∈ s.arrivals.getLast?, x.key = item.2.rxKey ∧ x.payload.lastWatering = seen

/-- A command changes neither the receiving key of a session nor what it remembers. -/
theorem head?_restore {box : SecretBox K} {sessions : List (List UInt8 × WateringSession K)}
    {state : AppState K} (hstate : state.sessions = (⟨sessions, []⟩ : Monitor K).erase)
    {threshold now : ℤ} {seed : ℕ} {item : List UInt8 × WateringSession K}
    (h : item ∈ (restore sessions
      (sendThresholdUpdate box state threshold now seed).2.sessions).head?) :
    ∃ item' ∈ sessions.head?, item'.2.rxKey = item.2.rxKey ∧
      item'.2.lastWateringSeen = item.2.lastWateringSeen := by
  cases sessions with
  | nil => simp [restore] at h
  | cons first others =>
      refine ⟨first, rfl, ?_⟩
      have hcons : state.sessions = (first.1, first.2.toSensorSession) ::
          (⟨others, []⟩ : Monitor K).erase := hstate
      have hsame : ∀ {new : SensorSession K} {rest}, new.rxKey = first.2.rxKey →
          item ∈ (restore (first :: others) ((first.1, new) :: rest)).head? →
            first.2.rxKey = item.2.rxKey ∧
              first.2.lastWateringSeen = item.2.lastWateringSeen := by
        intro new rest hkey hitem
        cases hitem
        exact ⟨hkey.symm, rfl⟩
      unfold sendThresholdUpdate at h
      simp only [hcons] at h
      split at h
      · exact hsame rfl (hcons ▸ h)
      · split at h
        · exact hsame rfl h
        · exact hsame (by rfl) h

theorem Remembers.step (hm : Remembers s) (h : step config py s a = some t) : Remembers t := by
  cases a with
  | irrigate b =>
      obtain ⟨-, j, hj, rfl⟩ := irrigate_ok h
      exact hm
  | charterStart =>
      cases Option.some.inj h
      intro item hitem
      cases hitem
  | message msg forged =>
      cases Option.some.inj h
      rcases message_cases (recovering config s.exchanges forged) py s.monitor msg with
        ⟨hnone, hsame | ⟨deviceId, session, hfresh, hkeys⟩⟩ |
        ⟨deviceId, session, next, others, reading, event, -, -, hresult, hmonitor, harrival⟩
      · simp only [Remembers, hnone, hsame, List.append_nil]
        exact hm
      · simp only [Remembers, hnone, hkeys, List.append_nil]
        rcases head?_dictSet deviceId session s.monitor.sessions with hnew | hold
        · rw [hnew]
          intro item hitem seen hseen
          cases hitem
          cases hfresh.symm.trans hseen
        · rw [hold]
          exact hm
      · simp only [Remembers, harrival, hmonitor, List.getLast?_concat, List.head?_cons]
        intro item hitem seen hseen
        cases hitem
        obtain ⟨hnext, hkey⟩ := onReading_next hresult
        rw [hnext] at hseen
        cases hseen
        have hrx : next.rxKey = session.rxKey := by rw [hkey]
        exact ⟨_, rfl, hrx.symm, rfl⟩
  | send threshold now seed =>
      cases Option.some.inj h
      intro item hitem seen hseen
      obtain ⟨item', hitem', hkey, hold⟩ := head?_restore rfl hitem
      obtain ⟨x, hx, hxkey, hvalue⟩ := hm item' hitem' seen (hold ▸ hseen)
      exact ⟨x, hx, hxkey.trans hkey, hvalue⟩
  | _ =>
      cases Option.some.inj h
      exact hm

/-- An arrival after the arrivals `past`.  The first one of a session is a baseline; a
later one tells of a watering exactly if the device recorded one after the arrival before
it, and then of the last one. -/
def Detects (known : K → Prop) (reports : List (Report K)) (past : List (Arrival K))
    (y : Arrival K) : Prop :=
  ¬known y.key → ∃ r ∈ reports, r.key = y.key ∧ r.msgId = y.msgId ∧
    (y.first = true → y.event = none) ∧
    (y.first = false → ∃ x ∈ past.getLast?, x.key = y.key ∧
      ∃ r' ∈ reports, r'.key = x.key ∧ r'.msgId = x.msgId ∧ r'.recorded <+: r.recorded ∧
        (y.event.isSome = true ↔ r'.recorded ≠ r.recorded)) ∧
    ∀ e ∈ y.event, some e.2 ∈ r.recorded.getLast?

theorem Detects.mono {reports reports' : List (Report K)} {past : List (Arrival K)}
    {y : Arrival K} (h : Detects known reports past y) (hsub : ∀ r ∈ reports, r ∈ reports') :
    Detects known reports' past y := by
  intro hsecret
  obtain ⟨r, hr, hkey, hid, hfirst, hlater, hevent⟩ := h hsecret
  refine ⟨r, hsub r hr, hkey, hid, hfirst, fun hnot ↦ ?_, hevent⟩
  obtain ⟨x, hx, hxkey, r', hr', hrest⟩ := hlater hnot
  exact ⟨x, hx, hxkey, r', hsub r' hr', hrest⟩

/-- The time in a report is that of its last activation, if there is one. -/
theorem getLast?_of_lastTime {recorded old : List (Option ℤ)} (hforward : Forward recorded)
    (hpre : old <+: recorded) (hne : old ≠ recorded) :
    some (lastTime recorded : ℤ) ∈ recorded.getLast? := by
  cases hlast : recorded.getLast? with
  | none =>
      rw [List.getLast?_eq_none_iff] at hlast
      rw [hlast, List.prefix_nil] at hpre
      exact absurd (hpre.trans hlast.symm) hne
  | some tv =>
      obtain ⟨now, rfl, hvalue, -⟩ := known_iff.mp (hforward.1 tv (List.mem_of_getLast? hlast))
      rw [lastTime, hlast]
      exact congrArg (fun v ↦ some (some v)) hvalue.symm

structure InStep (known : K → Prop) (s : State K) : Prop where
  order : s.arrivals.Pairwise fun x y ↦ x.key = y.key → x.msgId < y.msgId
  detects : EachAfter (Detects known s.reports) s.arrivals

theorem inStep_start (zero : K) : InStep known (.start zero) :=
  ⟨List.Pairwise.nil, EachAfter.nil⟩

theorem InStep.of_eq (hi : InStep known s) (harrivals : t.arrivals = s.arrivals)
    (hreports : ∀ r ∈ s.reports, r ∈ t.reports) : InStep known t := by
  constructor
  · rw [harrivals]
    exact hi.order
  · rw [harrivals]
    exact fun pre y post heq ↦ (hi.detects pre y post heq).mono hreports

/-- The report of an arrival, with the time it carries. -/
theorem Traced.lastTime_eq (ht : Traced known s) (hr : Logs config.box s) {x : Arrival K}
    (hx : x ∈ s.arrivals) (hsecret : ¬known x.key) : ∃ r ∈ s.reports, r.key = x.key ∧
      r.msgId = x.msgId ∧ x.payload.lastWatering = lastTime r.recorded := by
  obtain ⟨r, hmem, hkey, hid, hpayload⟩ := (ht.reading x hx).resolve_left hsecret
  refine ⟨r, hmem, hkey, hid, ?_⟩
  rw [hpayload, lastTime, ← hr.taken r hmem]
  rfl

/-- A reading of the first session, in a state in which everything is in order. -/
theorem detects_reading (hbox : config.box.Lawful) (hr : Logs config.box s)
    (hs : Sound config.box known s.system) (ho : Ordered s) (ht : Traced known s)
    (hm : Remembers s) {msg : Message} {deviceId : List UInt8} {session next : WateringSession K}
    {others : List (List UInt8 × WateringSession K)} {reading : SensorPayload}
    {event : Option PlotterEvent} (hsessions : s.monitor.sessions = (deviceId, session) :: others)
    (hideal : UnforgedReading config known s msg.payload)
    (horder : ∀ x ∈ s.arrivals, x.key = session.rxKey → x.msgId < rawMsgId msg.payload)
    (hread : readTelemetry config py session msg.payload = some reading)
    (hresult : onReading py deviceId session reading = some (event, next)) :
    Detects known s.reports s.arrivals ⟨session.rxKey, rawMsgId msg.payload, reading,
      session.lastWateringSeen.isNone, event⟩ := by
  intro hsecret
  have hsecret : ¬known session.rxKey := hsecret
  obtain ⟨r, hmem, hkey, hid, hpayload, -⟩ :=
    (genuine_reading hbox hr hs hsessions hideal hread).resolve_left hsecret
  have htime : reading.lastWatering = lastTime r.recorded := by
    rw [hpayload, lastTime, ← hr.taken r hmem]
    rfl
  refine ⟨r, hmem, hkey, hid, ?_⟩
  cases hseen : session.lastWateringSeen with
  | none =>
      rw [onReading_first hseen] at hresult
      cases hresult
      simp
  | some seen =>
      have hhead : (deviceId, session) ∈ s.monitor.sessions.head? := by rw [hsessions]; rfl
      obtain ⟨x, hx, hxkey, hvalue⟩ := hm _ hhead seen hseen
      have hxmem : x ∈ s.arrivals := List.mem_of_getLast? hx
      obtain ⟨r', hmem', hkey', hid', htime'⟩ := ht.lastTime_eq hr hxmem (hxkey ▸ hsecret)
      have hlt : r'.msgId < r.msgId := by
        rw [hid', hid]
        exact horder x hxmem hxkey
      have hpre : r'.recorded <+: r.recorded :=
        ho.chain r' hmem' r hmem (hkey'.trans (hxkey.trans hkey.symm)) hlt
      have hforward := ho.reports r hmem
      have hevent : event.isSome = true ↔ r'.recorded ≠ r.recorded := by
        rw [onReading_event hresult, hseen]
        simp only [Option.mem_def, Option.some.injEq, exists_eq_left', ne_eq]
        rw [← hvalue, htime, htime', Nat.cast_inj, lastTime_eq_iff hforward hpre]
      refine ⟨by simp, fun _ ↦ ⟨x, hx, hxkey, r', hmem', hkey', hid', hpre, hevent⟩, ?_⟩
      intro e he
      have hsome : event = some e := he
      have hne : r'.recorded ≠ r.recorded := hevent.mp (by rw [hsome]; rfl)
      rw [event_onReading hresult e he, htime]
      exact getLast?_of_lastTime hforward hpre hne

theorem InStep.step (hbox : config.box.Lawful) (hi : InStep known s) (hr : Logs config.box s)
    (hs : Sound config.box known s.system) (ho : Ordered s) (ht : Traced known s)
    (hm : Remembers s) (horderly : Orderly config py known s a)
    (h : step config py s a = some t) : InStep known t := by
  cases a with
  | irrigate b =>
      obtain ⟨-, j, hj, rfl⟩ := irrigate_ok h
      exact hi.of_eq rfl fun _ hr ↦ hr
  | report moistureRaw temperatureCx10 humidityRx10 tv seed =>
      cases Option.some.inj h
      exact hi.of_eq rfl fun _ hr ↦ List.mem_append_left _ hr
  | message msg forged =>
      cases Option.some.inj h
      rcases message_cases (recovering config s.exchanges forged) py s.monitor msg with
        ⟨hnone, -⟩ | ⟨deviceId, session, next, others, reading, event, hsessions, hreads, hresult,
          -, harrival⟩
      · exact hi.of_eq (by simp [hnone]) fun _ hr ↦ hr
      have hhead : (deviceId, session) ∈ s.monitor.sessions.head? := by rw [hsessions]; rfl
      have horder := horderly.inOrder _ hhead reading hreads
      have hdetects := detects_reading hbox hr hs ho ht hm hsessions horderly.ideal horder hreads.2
        hresult
      simp only [harrival]
      refine ⟨?_, eachAfter_snoc.mpr ⟨hi.detects, hdetects⟩⟩
      refine List.pairwise_append.mpr ⟨hi.order, by simp, fun x hx y hy hkey ↦ ?_⟩
      rw [List.mem_singleton.mp hy] at hkey ⊢
      exact horder x hx hkey
  | _ =>
      cases Option.some.inj h
      exact hi.of_eq rfl fun _ hr ↦ hr

/-! ## Runs -/

/-- An event is later than every time that was told before it under the same key. -/
theorem InStep.later (hi : InStep known s) (hr : Logs config.box s) (ho : Ordered s)
    (ht : Traced known s) {past post : List (Arrival K)} {y : Arrival K}
    (hsplit : s.arrivals = past ++ y :: post) (hsecret : ¬known y.key) {e : PlotterEvent}
    (he : e ∈ y.event) : ∀ x ∈ past, x.key = y.key → x.payload.lastWatering < e.2 := by
  intro x hx hkey
  obtain ⟨r, hmem, hrkey, hrid, hfirst, hlater, hevent⟩ := hi.detects past y post hsplit hsecret
  have hnot : y.first = false := by
    by_contra hfirst'
    rw [hfirst (by simpa using hfirst')] at he
    cases he
  obtain ⟨x', hx', hxkey', r', hmem', hkey', hid', hpre, hiff⟩ := hlater hnot
  have hne : r'.recorded ≠ r.recorded := hiff.mp (by rw [Option.mem_def.mp he]; rfl)
  have hsub : ∀ z ∈ past, z ∈ s.arrivals := fun z hz ↦ hsplit ▸ List.mem_append_left _ hz
  obtain ⟨r'', hmem'', hkey'', hid'', htime''⟩ := ht.lastTime_eq hr (hsub x hx) (hkey ▸ hsecret)
  have hbefore : r''.recorded <+: r'.recorded := by
    obtain ⟨past, rfl⟩ := List.getLast?_eq_some_iff.mp hx'
    have hkeys : r''.key = r'.key := by rw [hkey'', hkey, hkey', hxkey']
    rcases List.mem_append.mp hx with hold | hlast
    · have horder := hi.order
      rw [hsplit] at horder
      have hlt := (List.pairwise_append.mp (List.pairwise_append.mp horder).1).2.2 x hold x'
        List.mem_cons_self (hkey.trans hxkey'.symm)
      exact ho.chain r'' hmem'' r' hmem' hkeys (by rw [hid'', hid']; exact hlt)
    · rw [List.mem_singleton.mp hlast] at hid''
      rw [ho.unique r'' hmem'' r' hmem' hkeys (hid''.trans hid'.symm)]
  have hlt : lastTime r''.recorded < lastTime r.recorded := by
    refine lastTime_lt (ho.reports r hmem) (hbefore.trans hpre) fun heq ↦ hne ?_
    exact hpre.eq_of_length (le_antisymm hpre.length_le (heq ▸ hbefore.length_le))
  have hvalue : e.2 = lastTime r.recorded := by
    have hlast := hevent e he
    obtain ⟨now, hnow, htimestamp, -⟩ :=
      known_iff.mp ((ho.reports r hmem).1 _ (List.mem_of_getLast? hlast))
    cases hnow
    rw [lastTime, Option.mem_def.mp hlast]
    exact htimestamp.symm
  rw [htime'', hvalue]
  exact_mod_cast hlt

/-- The reports of waterings under the keys that the network does not know: each arrival
tells of a watering exactly if there was one to tell of, and the times of one key go
forward, so that no watering is told twice. -/
structure Told (known : K → Prop) (s : State K) : Prop where
  detects : EachAfter (Detects known s.reports) s.arrivals
  once : s.arrivals.Pairwise fun x y ↦ ¬known y.key → x.key = y.key →
    ∀ e ∈ x.event, ∀ e' ∈ y.event, e.2 < e'.2

/-- In every run in which readings are lost but not repeated or reordered, and the clock of
the device goes forward. -/
theorem waterings_told (hbox : config.box.Lawful) {zero : K}
    (h : Steps (step config py) (Orderly config py known) (.start zero) s) : Told known s := by
  have hideal : ∀ {u}, Steps (step config py) (Orderly config py known) (.start zero) u →
      Steps (step config py) (Ideal config known) (.start zero) u :=
    fun hu ↦ hu.mono fun _ _ horderly ↦ horderly.ideal
  have hknown : ∀ u, Steps (step config py) (Orderly config py known) (.start zero) u →
      Sound config.box known u.system ∧ Logs config.box u ∧ Traced known u := by
    intro u hu
    obtain ⟨hsound, hlogs, -⟩ := sound_logs_pulses hbox (hideal hu)
    exact ⟨hsound, hlogs, traced hbox (hideal hu)⟩
  have hall : (Ordered s ∧ Remembers s) ∧ InStep known s := by
    refine h.invariant_over (I := fun u ↦ (Ordered u ∧ Remembers u) ∧ InStep known u) hknown
      ⟨⟨ordered_start zero, fun item hitem ↦ by cases hitem⟩, inStep_start zero⟩ ?_
    rintro u b v ⟨hs, hr, ht⟩ ⟨⟨ho, hm⟩, hi⟩ horderly hstep
    exact ⟨⟨ho.step hbox hr horderly hstep, hm.step hstep⟩,
      hi.step hbox hr hs ho ht hm horderly hstep⟩
  obtain ⟨⟨ho, -⟩, hi⟩ := hall
  obtain ⟨-, hr, ht⟩ := hknown s h
  refine ⟨hi.detects,
    hi.detects.pairwise fun pre y post hsplit _ x hx hsecret hkey e he e' he' ↦ ?_⟩
  have hx' : x ∈ s.arrivals := hsplit ▸ List.mem_append_left _ hx
  rw [ht.event x hx' e he]
  exact hi.later hr ho ht hsplit hsecret he' x hx hkey

/-- A test that implies `Orderly`, as `idealTest` implies `Ideal`. -/
def orderlyTest (s : State ℕ) (a : Action ℕ) : Bool :=
  idealTest s a && match a with
    | .message msg _ => s.monitor.sessions.head?.all fun item ↦ s.arrivals.all fun x ↦
        decide (x.key = item.2.rxKey → x.msgId < rawMsgId msg.payload)
    | .irrigate .record =>
        match s.irrigation.pc with
        | .evaluated .PumpActivation tv => decide (tv.any fun now ↦ 0 < now ∧ now < 2 ^ 32) &&
            s.irrigation.recorded.all fun tv' ↦ decide (timestampOf tv' < timestampOf tv)
        | _ => true
    | .report .. => decide (s.session.sMsgId + 1 < 2 ^ 64)
    | _ => true

theorem orderly_of_orderlyTest {config : Config ℕ} (hbox : config.box = .tagged) (s : State ℕ)
    (a : Action ℕ) (h : orderlyTest s a = true) : Orderly config py (· < 10) s a := by
  obtain ⟨hideal, h⟩ := Bool.and_eq_true_iff.mp h
  refine ⟨ideal_of_idealTest hbox s a hideal, ?_, ?_, ?_⟩
  · cases a with
    | message msg forged =>
        intro item hitem reading _ x hx hkey
        simp only [Option.mem_def.mp hitem, Option.all_some, List.all_eq_true,
          decide_eq_true_eq] at h
        exact h x hx hkey
    | _ => trivial
  · cases a with
    | irrigate b =>
        cases b with
        | record =>
            intro tv hpc
            simp only [hpc, Bool.and_eq_true, decide_eq_true_eq, List.all_eq_true] at h
            cases tv with
            | none => simp at h
            | some now => exact ⟨⟨now, rfl, of_decide_eq_true h.1⟩, h.2⟩
        | _ => trivial
    | _ => trivial
  · cases a with
    | report moistureRaw temperatureCx10 humidityRx10 tv seed =>
        have hcount : s.session.sMsgId + 1 < 2 ^ 64 := of_decide_eq_true h
        exact hcount
    | _ => trivial

/-- Three readings with a watering before the second; the third one is lost, and the fourth
tells of nothing. -/
theorem waterings_told_once :
    ∃ s, s.arrivals.map Arrival.event =
        [none, some (ascii "plantnode-001", 1700000500), none] ∧ Told (· < 10) (s : State ℕ) := by
  let packet : Message := ⟨ascii "plantnode/keys/plantnode-001", List.replicate 48 1⟩
  let telemetry (msgId : ℕ) (lastWatering : UInt32) : Message := ⟨ascii "plantnode/telemetry",
    toLE 8 msgId ++ (toLE 12 11 ++ toLE 12 msgId ++ toLE 12 (ofLE KBoxCtx) ++
      readingText ⟨310, 235, 455, 1700000900, lastWatering, true⟩)⟩
  have hrun : (exec (step testConfig .integers) orderlyTest (.start 0)
      [.initSession (some ⟨11, 12, List.replicate 48 1⟩), .message packet none,
        .report 310 235 455 (some 1700000900) 1, .message (telemetry 0 0) none,
        .irrigate (.sense (.ok 250)), .irrigate (.clock (some 1700000500)),
        .irrigate .evaluate, .irrigate .record,
        .report 310 235 455 (some 1700000900) 1, .message (telemetry 1 1700000500) none,
        .report 310 235 455 (some 1700000900) 1, .report 310 235 455 (some 1700000900) 1,
        .message (telemetry 3 1700000500) none]).map
      (fun s ↦ s.arrivals.map Arrival.event) =
        some [none, some (ascii "plantnode-001", 1700000500), none] := by
    decide +kernel
  obtain ⟨s, hexec, hs⟩ := Option.map_eq_some_iff.mp hrun
  exact ⟨s, hs, waterings_told (by exact SecretBox.tagged_lawful)
    ((exec_steps hexec).mono (orderly_of_orderlyTest rfl))⟩

end PlantNode.Plant
