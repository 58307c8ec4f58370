import PlantNode.Charter.Plotter
import PlantNode.Charter.Watering
import PlantNode.Foundation.Csv

/-!
# What the charter shows of its readings

`logger.py` and `enqueue_for_plots` behind the detection of waterings, with the windows of the
three plots.  The network thread takes a reading up, logs it and puts one point on each queue;
a window takes the points off its queue at any time.  The file outlives the process.
-/

namespace PlantNode.Charter.Outputs

open Foundation Plotter Watering

/-! ## The log -/

/-- `csv.writer` with its default dialect. -/
def excel : Csv.Dialect UInt8 := ⟨44, 34, 13, 10, by decide⟩

/-- `CSV_HEADER` -/
def csvHeader : List (List UInt8) :=
  [ascii "date", ascii "sender", ascii "temperature", ascii "humidity", ascii "moisture"]

/-- The texts that Python makes of a time in the zone it runs in, and of a tenth of a
number. -/
structure Texts where
  isoformat : ℤ → List UInt8
  tenth : Json → List UInt8

/-- A reading and the device it is from. -/
abbrev Entry := List UInt8 × SensorPayload

/-- The row of `CsvLogger.log`. -/
def csvRow (texts : Texts) (e : Entry) : List (List UInt8) :=
  [texts.isoformat e.2.timestamp, e.1, texts.tenth e.2.temperature, texts.tenth e.2.humidity,
    decimalInt e.2.moisture]

/-! ## The points -/

inductive Measure where
  | temperature
  | humidity
  | moisture
  deriving DecidableEq, Repr

inductive Value where
  | tenth (v : Json)
  | whole (n : ℤ)

abbrev Point := PlotterQueue (List UInt8) ℤ Value

def SensorPayload.value (r : SensorPayload) : Measure → Value
  | .temperature => .tenth r.temperature
  | .humidity => .tenth r.humidity
  | .moisture => .whole r.moisture

/-- An entry of a queue of `enqueue_for_plots`. -/
def pointOf (m : Measure) (e : Entry) : Point :=
  ⟨some e.1, some e.2.timestamp, some (SensorPayload.value e.2 m)⟩

/-! ## The process -/

/-- Where the network thread is in `on_message`: in `state.logger.log`, in `enqueue_for_plots`
before the time is converted, or before it puts the point of a measure. -/
inductive Network where
  | idle
  | logging (e : Entry)
  | enqueuing (e : Entry)
  | putting (m : Measure) (e : Entry)

/-- `taken` and `everTaken` have the readings taken up since the start of the process and ever,
and `logged` those that were logged; no step reads them. -/
structure State (K : Type) where
  monitor : Monitor K
  network : Network
  queues : Measure → List Point
  plots : Measure → SenderData (List UInt8) ℤ Value
  file : Option (List UInt8)
  taken : List Entry
  everTaken : List Entry
  logged : List Entry

/-- The charter starts anew, a message comes, the network thread goes on (`opened` is whether the
file could be opened), or the window of one plot takes one point. -/
inductive Action where
  | start
  | message (msg : Message)
  | network (opened : Bool)
  | update (m : Measure)

variable {K : Type}

namespace State

def down : State K :=
  ⟨⟨[], []⟩, .idle, fun _ ↦ [], fun _ ↦ [], none, [], [], []⟩

/-- `CsvLogger.__init__` of a new process: the file is created with its header if it is not
there. -/
def start (s : State K) : State K :=
  { s with
    monitor := ⟨[], []⟩
    network := .idle
    queues := fun _ ↦ []
    plots := fun _ ↦ []
    file := some (s.file.getD (Csv.writeRow excel csvHeader))
    taken := [] }

def boot : State K := down.start

/-- A reading goes from the detection of waterings to the log. -/
def take (s : State K) (e : Entry) : State K :=
  { s with
    network := .logging e
    taken := s.taken ++ [e]
    everTaken := s.everTaken ++ [e] }

def put (s : State K) (m : Measure) (e : Entry) : State K :=
  { s with queues := Function.update s.queues m (s.queues m ++ [pointOf m e]) }

end State

/-- The measure that `enqueue_for_plots` puts after `m`. -/
def Measure.next : Measure → Option Measure
  | .temperature => some .humidity
  | .humidity => some .moisture
  | .moisture => none

/-- Where the network thread is behind the point of `m`. -/
def Network.after (m : Measure) (e : Entry) : Network :=
  match m.next with
  | some m' => .putting m' e
  | none => .idle

section Machine

variable (config : Config K) (py : Python) (texts : Texts) (maxPoints : Option ℤ)

/-- The reading that `on_message` goes on with. -/
def readingOf (s : State K) (msg : Message) : Option Entry :=
  match s.monitor.sessions with
  | [] => none
  | (deviceId, session) :: _ =>
      (readTelemetry config py session msg.payload).map fun reading ↦ (deviceId, reading)

/-- `on_message`, up to the log. -/
def receive (s : State K) (msg : Message) : State K :=
  let r := Watering.onMessage config py s.monitor msg
  let s' : State K := { s with monitor := r.2 }
  match r.1, readingOf config py s msg with
  | some _, some e => s'.take e
  | _, _ => s'

/-- `CsvLogger.log`.  An `OSError` is reported and the thread goes on; a time that Python
cannot convert ends `on_message`. -/
def log (s : State K) (e : Entry) (opened : Bool) : State K :=
  if !opened then { s with network := .enqueuing e }
  else if py.fromtimestamp e.2.timestamp then
    { s with
      network := .enqueuing e
      file := some (s.file.getD [] ++ Csv.writeRow excel (csvRow texts e))
      logged := s.logged ++ [e] }
  else { s with network := .idle }

def networkStep (s : State K) (opened : Bool) : Option (State K) :=
  match s.network with
  | .idle => none
  | .logging e => some (log py texts s e opened)
  | .enqueuing e =>
      some { s with
        network := if py.fromtimestamp e.2.timestamp then .putting .temperature e else .idle }
  | .putting m e => some { s.put m e with network := .after m e }

/-- One pass of the first loop of `_update`. -/
def updateStep (s : State K) (m : Measure) : Option (State K) :=
  match s.queues m with
  | [] => none
  | point :: rest =>
      some { s with
        queues := Function.update s.queues m rest
        plots := Function.update s.plots m (updatePoint maxPoints (s.plots m) point) }

def step (s : State K) : Action → Option (State K)
  | .start => some s.start
  | .message msg =>
      match s.network with
      | .idle => some (receive config py s msg)
      | _ => none
  | .network opened => networkStep py texts s opened
  | .update m => updateStep maxPoints s m

end Machine

/-! ## The invariant -/

/-- Python can convert the time of the reading. -/
def plottable (py : Python) (e : Entry) : Bool := py.fromtimestamp e.2.timestamp

def Measure.index : Measure → ℕ
  | .temperature => 0
  | .humidity => 1
  | .moisture => 2

/-- The reading that the network thread works on. -/
def Network.entry? : Network → Option Entry
  | .idle => none
  | .logging e | .enqueuing e | .putting _ e => some e

/-- `enqueue_for_plots` has put the point of `m` already. -/
def Network.hasPut (m : Measure) : Network → Bool
  | .idle => true
  | .putting k _ => decide (m.index < k.index)
  | _ => false

/-- The readings whose points have been put on the queue of `m`. -/
def received (py : Python) (s : State K) (m : Measure) : List Entry :=
  (if s.network.hasPut m then s.taken else s.taken.dropLast).filter (plottable py)

def callOf (m : Measure) (e : Entry) : Call (List UInt8) ℤ Value :=
  ⟨e.1, e.2.timestamp, SensorPayload.value e.2 m⟩

/-- The plot of `m` has the first of these readings, and its queue the others. -/
def Shows (maxPoints : Option ℤ) (s : State K) (m : Measure) (entries : List Entry) : Prop :=
  ∃ shown : List Entry, s.plots m = stored maxPoints (shown.map (callOf m)) ∧
    shown.map (pointOf m) ++ s.queues m = entries.map (pointOf m)

structure Kept (py : Python) (texts : Texts) (maxPoints : Option ℤ) (s : State K) : Prop where
  file : s.file = some (Csv.writeRows excel (csvHeader :: s.logged.map (csvRow texts)))
  logged : s.logged.Sublist s.everTaken
  unlogged : ∀ e, s.network = .logging e → ∃ old, s.everTaken = old ++ [e] ∧ s.logged.Sublist old
  current : ∀ e, s.network.entry? = some e → ∃ old, s.taken = old ++ [e]
  putting : ∀ m e, s.network = .putting m e → plottable py e = true
  points : ∀ m, Shows maxPoints s m (received py s m)

section Invariant

variable {config : Config K} {py : Python} {texts : Texts} {maxPoints : Option ℤ} {s t : State K}
  {e : Entry} {m : Measure}

theorem updatePoint_pointOf (calls : List (Call (List UInt8) ℤ Value)) :
    updatePoint maxPoints (stored maxPoints calls) (pointOf m e) =
      stored maxPoints (calls ++ [callOf m e]) :=
  updatePoint_stored maxPoints calls (pointOf m e)

theorem Shows.of_eq {l l' : List Entry} (h : Shows maxPoints s m l)
    (hplot : t.plots m = s.plots m) (hqueue : t.queues m = s.queues m) (hl : l' = l) :
    Shows maxPoints t m l' := by
  obtain ⟨shown, hshown, hrest⟩ := h
  exact ⟨shown, hplot.trans hshown, by rw [hqueue, hl, hrest]⟩

/-- One more point on the queue. -/
theorem Shows.put {l : List Entry} (h : Shows maxPoints s m l)
    (hplot : t.plots m = s.plots m) (hqueue : t.queues m = s.queues m ++ [pointOf m e]) :
    Shows maxPoints t m (l ++ [e]) := by
  obtain ⟨shown, hshown, hrest⟩ := h
  refine ⟨shown, hplot.trans hshown, ?_⟩
  rw [hqueue, ← List.append_assoc, hrest, List.map_append, List.map_singleton]

/-- A point goes from the queue to the plot. -/
theorem Shows.update {l : List Entry} {point : Point} {rest : List Point}
    (h : Shows maxPoints s m l) (hhead : s.queues m = point :: rest)
    (hplot : t.plots m = updatePoint maxPoints (s.plots m) point) (hqueue : t.queues m = rest) :
    Shows maxPoints t m l := by
  obtain ⟨shown, hshown, hrest⟩ := h
  rw [hhead] at hrest
  obtain ⟨old, new, rfl, hold, hnew⟩ := List.append_eq_map_iff.mp hrest
  obtain ⟨e, later, rfl, rfl, hlater⟩ := List.map_eq_cons_iff.mp hnew
  refine ⟨shown ++ [e], ?_, ?_⟩
  · rw [hplot, hshown, updatePoint_pointOf, List.map_append, List.map_singleton]
  · rw [hqueue, ← hlater, List.map_append, ← hold]
    simp

theorem Kept.boot : Kept py texts maxPoints (.boot : State K) where
  file := by simp [State.boot, State.start, State.down, Csv.writeRows]
  logged := List.Sublist.refl _
  unlogged := by simp [State.boot, State.start]
  current := by simp [State.boot, State.start, Network.entry?]
  putting := by simp [State.boot, State.start]
  points m := ⟨[], rfl, by simp [State.boot, State.start, received]⟩

theorem Kept.start (h : Kept py texts maxPoints s) : Kept py texts maxPoints s.start where
  file := by
    rw [State.start, h.file]
    rfl
  logged := h.logged
  unlogged := by simp [State.start]
  current := by simp [State.start, Network.entry?]
  putting := by simp [State.start]
  points m := ⟨[], rfl, by simp [State.start, received]⟩

theorem Kept.receive (h : Kept py texts maxPoints s) (hidle : s.network = .idle) (msg : Message) :
    Kept py texts maxPoints (receive config py s msg) := by
  have hmonitor : ∀ monitor : Monitor K, Kept py texts maxPoints { s with monitor } := fun _ ↦
    ⟨h.file, h.logged, h.unlogged, h.current, h.putting, h.points⟩
  simp only [Outputs.receive]
  split
  · refine ⟨h.file, h.logged.trans (List.sublist_append_left _ _), ?_, ?_, by simp [State.take],
      fun m ↦ ?_⟩
    · rintro e' ⟨⟩
      exact ⟨s.everTaken, rfl, h.logged⟩
    · rintro e' ⟨⟩
      exact ⟨s.taken, rfl⟩
    · apply (h.points m).of_eq rfl rfl
      simp [received, hidle, Network.hasPut, State.take]
  · exact hmonitor _

/-- The file with one more row. -/
theorem Kept.row (h : Kept py texts maxPoints s) (e : Entry) :
    s.file.getD [] ++ Csv.writeRow excel (csvRow texts e) =
      Csv.writeRows excel (csvHeader :: (s.logged ++ [e]).map (csvRow texts)) := by
  rw [h.file, Option.getD_some, List.map_append, ← List.cons_append, List.map_singleton,
    Csv.writeRows_snoc]

/-- While a reading is logged, its points are not on the queues. -/
theorem Kept.points_before (h : Kept py texts maxPoints s) {old : List Entry}
    (htaken : s.taken = old ++ [e]) (hput : s.network.hasPut m = false) :
    Shows maxPoints s m (old.filter (plottable py)) := by
  have hreceived := h.points m
  rwa [received, hput, if_neg Bool.false_ne_true, htaken, List.dropLast_concat] at hreceived

theorem Kept.log (h : Kept py texts maxPoints s) (hnet : s.network = .logging e)
    (opened : Bool) : Kept py texts maxPoints (log py texts s e opened) := by
  obtain ⟨old, htaken⟩ := h.current e (by rw [hnet]; rfl)
  obtain ⟨ever, hever, hlogged⟩ := h.unlogged e hnet
  have hpoints : ∀ m, Shows maxPoints s m (old.filter (plottable py)) :=
    fun m ↦ h.points_before htaken (by rw [hnet]; rfl)
  unfold Outputs.log
  split
  · refine ⟨h.file, h.logged, by simp, ?_, by simp, fun m ↦ ?_⟩
    · rintro e' ⟨⟩
      exact ⟨old, htaken⟩
    · apply (hpoints m).of_eq rfl rfl
      simp [received, Network.hasPut, htaken]
  split
  · refine ⟨congrArg some (h.row e), ?_, by simp, ?_, by simp, fun m ↦ ?_⟩
    · rw [hever]
      exact hlogged.append (List.Sublist.refl _)
    · rintro e' ⟨⟩
      exact ⟨old, htaken⟩
    · apply (hpoints m).of_eq rfl rfl
      simp [received, Network.hasPut, htaken]
  · rename_i htime
    refine ⟨h.file, h.logged, by simp, by simp [Network.entry?], by simp, fun m ↦ ?_⟩
    apply (hpoints m).of_eq rfl rfl
    simp [received, Network.hasPut, htaken, plottable, htime]

theorem hasPut_after (k m : Measure) (e : Entry) :
    (Network.after k e).hasPut m = ((Network.putting k e).hasPut m || m == k) := by
  cases k <;> cases m <;> rfl

theorem Kept.networkStep (h : Kept py texts maxPoints s) {opened : Bool}
    (hstep : networkStep py texts s opened = some t) : Kept py texts maxPoints t := by
  cases hnet : s.network with
  | idle => simp [Outputs.networkStep, hnet] at hstep
  | logging e =>
      simp only [Outputs.networkStep, hnet, Option.some.injEq] at hstep
      exact hstep ▸ h.log hnet opened
  | enqueuing e =>
      simp only [Outputs.networkStep, hnet, Option.some.injEq] at hstep
      subst hstep
      obtain ⟨old, htaken⟩ := h.current e (by rw [hnet]; rfl)
      have hpoints : ∀ m, Shows maxPoints s m (old.filter (plottable py)) :=
        fun m ↦ h.points_before htaken (by rw [hnet]; rfl)
      by_cases htime : py.fromtimestamp e.2.timestamp = true
      · rw [if_pos htime]
        refine ⟨h.file, h.logged, by simp, ?_, ?_, fun m ↦ ?_⟩
        · rintro e' ⟨⟩
          exact ⟨old, htaken⟩
        · rintro m e' ⟨⟩
          exact htime
        · apply (hpoints m).of_eq rfl rfl
          simp [received, Network.hasPut, Measure.index, htaken]
      · rw [if_neg htime]
        refine ⟨h.file, h.logged, by simp, by simp [Network.entry?], by simp, fun m ↦ ?_⟩
        apply (hpoints m).of_eq rfl rfl
        simp [received, Network.hasPut, htaken, plottable, htime]
  | putting k e =>
      simp only [Outputs.networkStep, hnet, Option.some.injEq] at hstep
      subst hstep
      obtain ⟨old, htaken⟩ := h.current e (by rw [hnet]; rfl)
      have htime := h.putting k e hnet
      refine ⟨h.file, h.logged, ?_, ?_, ?_, fun m ↦ ?_⟩
      · cases k <;> simp [Network.after, Measure.next]
      · cases k <;> simp [Network.after, Measure.next, Network.entry?, State.put, htaken]
      · cases k <;> simp [Network.after, Measure.next, htime]
      · by_cases hm : m = k
        · subst hm
          have hpoints := h.points_before (m := m) htaken (by simp [hnet, Network.hasPut])
          have hreceived : received py { s.put m e with network := .after m e } m =
              old.filter (plottable py) ++ [e] := by
            simp [received, hasPut_after, State.put, htaken, htime]
          rw [hreceived]
          exact hpoints.put rfl (Function.update_self ..)
        · have hqueue : (s.put k e).queues m = s.queues m := Function.update_of_ne hm ..
          refine (h.points m).of_eq rfl hqueue ?_
          simp [received, hasPut_after, State.put, hnet, hm]

theorem Kept.updateStep (h : Kept py texts maxPoints s)
    (hstep : updateStep maxPoints s m = some t) : Kept py texts maxPoints t := by
  unfold Outputs.updateStep at hstep
  split at hstep
  · cases hstep
  · rename_i point rest hhead
    cases hstep
    refine ⟨h.file, h.logged, h.unlogged, h.current, h.putting, fun k ↦ ?_⟩
    by_cases hk : k = m
    · subst hk
      exact (h.points k).update hhead (Function.update_self ..) (Function.update_self ..)
    · exact (h.points k).of_eq (Function.update_of_ne hk ..) (Function.update_of_ne hk ..) rfl

theorem kept (h : Reachable (step config py texts maxPoints) .boot s) :
    Kept py texts maxPoints s := by
  refine h.invariant (I := Kept py texts maxPoints) .boot ?_
  intro s a t hs _ hstep
  cases a with
  | start =>
      cases hstep
      exact hs.start
  | message msg =>
      simp only [step] at hstep
      split at hstep
      · rename_i hidle
        cases hstep
        exact hs.receive hidle msg
      · cases hstep
  | network opened => exact hs.networkStep hstep
  | update m => exact hs.updateStep hstep

/-! ## The outputs agree -/

/-- The readings that the log should have. -/
def due (s : State K) : List Entry :=
  match s.network with
  | .logging _ => s.everTaken.dropLast
  | _ => s.everTaken

/-- A full window is a suffix of the points, so its times are those of the points. -/
theorem Window.times {n : ℕ} {points : List (ℤ × Value)} {d : Series ℤ Value}
    (h : Window n points d) : d.x = (points.map Prod.fst).drop (points.length - d.x.length) := by
  have hsuffix : d.x <:+ points.map Prod.fst := by
    have hmap := h.recent.map Prod.fst
    rwa [List.map_fst_zip h.aligned.le] at hmap
  rw [List.suffix_iff_eq_drop.mp hsuffix, List.length_map, List.length_drop, List.length_map]
  congr 1
  have hfull := h.full
  omega

/-- The plots, their queues and the log, against the readings that were taken up.  Every row of the
log can be read back as it was written, whatever the device calls itself. -/
structure Agree (py : Python) (texts : Texts) (n : ℕ) (s : State K) : Prop where
  log : ∃ contents, s.file = some contents ∧
    Csv.read excel contents = csvHeader :: s.logged.map (csvRow texts)
  logged : s.logged.Sublist s.everTaken
  behind : ∀ m, ∃ shown pending : List Entry,
    s.plots m = stored (some n) (shown.map (callOf m)) ∧ s.queues m = pending.map (pointOf m) ∧
      shown ++ pending <+: s.taken.filter (plottable py) ∧
        (s.network = .idle → shown ++ pending = s.taken.filter (plottable py)) ∧
          ∀ sender, Window n (pointsOf sender (shown.map (callOf m)))
            (seriesOf sender (s.plots m))
  together : s.network = .idle → (∀ m, s.queues m = []) → ∀ m m' sender,
    (seriesOf sender (s.plots m)).x = (seriesOf sender (s.plots m')).x

theorem Shows.split {l : List Entry} (h : Shows maxPoints s m l) : ∃ shown pending : List Entry,
    l = shown ++ pending ∧ s.plots m = stored maxPoints (shown.map (callOf m)) ∧
      s.queues m = pending.map (pointOf m) := by
  obtain ⟨shown, hplot, hrest⟩ := h
  obtain ⟨shown', pending, rfl, hshown, hpending⟩ := List.append_eq_map_iff.mp hrest
  refine ⟨shown', pending, rfl, ?_, hpending.symm⟩
  have hcall : shown'.map (callOf m) = shown.map (callOf m) := by
    have hpoints := congrArg (List.map PlotterQueue.call?) hshown
    simp only [List.map_map] at hpoints
    have hsome : ∀ l : List Entry, l.map (PlotterQueue.call? ∘ pointOf m) =
        (l.map (callOf m)).map some := fun l ↦ by rw [List.map_map]; rfl
    rw [hsome, hsome] at hpoints
    exact List.map_injective_iff.mpr (Option.some_injective _) hpoints
  rw [hplot, hcall]

end Invariant

end PlantNode.Charter.Outputs
