import Mathlib.Data.List.Perm.Basic
import PlantNode.Charter.Commands
import PlantNode.Foundation.Run

/-!
# The plots

`plotter.py`: the points that are kept of each sender, and the marker lines of the
waterings.  Axes, lines and colours belong to matplotlib and are left out.  An entry of
a queue is a `dict`, so each of its members can be missing.
-/

namespace PlantNode.Charter.Plotter

open Foundation

universe u v w

variable {S : Type u} {X : Type v} {Y : Type w} [DecidableEq S]

/-! ## The window of points -/

/-- `xs[i:]`: a negative `i` counts from the end, and `-0` is `0`. -/
def sliceFrom {α : Type*} (xs : List α) (i : ℤ) : List α :=
  if i < 0 then xs.drop (xs.length + i).toNat else xs.drop i.toNat

/-- `sender_data[sender_id]`. -/
structure Series (X : Type v) (Y : Type w) where
  x : List X
  y : List Y

def Series.empty : Series X Y := ⟨[], []⟩

def Series.append (d : Series X Y) (x : X) (y : Y) : Series X Y :=
  ⟨d.x ++ [x], d.y ++ [y]⟩

/-- The end of `store_data`: both lists are cut when there are too many points. -/
def Series.cut (maxPoints : Option ℤ) (d : Series X Y) : Series X Y :=
  match maxPoints with
  | none => d
  | some n => if n < d.x.length then ⟨sliceFrom d.x (-n), sliceFrom d.y (-n)⟩ else d

abbrev SenderData (S : Type u) (X : Type v) (Y : Type w) := List (S × Series X Y)

/-- What `sender_data` holds of a sender. -/
def seriesOf (senderId : S) (senderData : SenderData S X Y) : Series X Y :=
  dictGet senderId .empty senderData

def storeData (maxPoints : Option ℤ) (senderId : S) (x : X) (y : Y)
    (senderData : SenderData S X Y) : SenderData S X Y :=
  dictSet senderId (((seriesOf senderId senderData).append x y).cut maxPoints) senderData

/-- The arguments of a call of `store_data`. -/
structure Call (S : Type u) (X : Type v) (Y : Type w) where
  senderId : S
  x : X
  y : Y

/-- `sender_data` of a new plotter after calls of `store_data`. -/
def stored (maxPoints : Option ℤ) (calls : List (Call S X Y)) : SenderData S X Y :=
  calls.foldl (fun data call ↦ storeData maxPoints call.senderId call.x call.y data) []

/-- An entry of the queue of points. -/
structure PlotterQueue (S : Type u) (X : Type v) (Y : Type w) where
  sender : Option S
  x : Option X
  y : Option Y

def PlotterQueue.call? : PlotterQueue S X Y → Option (Call S X Y)
  | ⟨some sender, some x, some y⟩ => some ⟨sender, x, y⟩
  | _ => none

/-- The body of the first loop of `_update`: a point without all its members is skipped. -/
def updatePoint (maxPoints : Option ℤ) (data : SenderData S X Y) (point : PlotterQueue S X Y) :
    SenderData S X Y :=
  match point.sender, point.x, point.y with
  | some sender, some x, some y => storeData maxPoints sender x y data
  | _, _, _ => data

/-- The first loop of `_update`. -/
def updatePoints (maxPoints : Option ℤ) (queue : List (PlotterQueue S X Y))
    (data : SenderData S X Y) : SenderData S X Y :=
  queue.foldl (updatePoint maxPoints) data

theorem stored_snoc (maxPoints : Option ℤ) (calls : List (Call S X Y)) (call : Call S X Y) :
    stored maxPoints (calls ++ [call]) =
      storeData maxPoints call.senderId call.x call.y (stored maxPoints calls) := by
  simp [stored]

theorem updatePoint_stored (maxPoints : Option ℤ) (calls : List (Call S X Y))
    (point : PlotterQueue S X Y) :
    updatePoint maxPoints (stored maxPoints calls) point =
      stored maxPoints (calls ++ point.call?.toList) := by
  obtain ⟨sender, x, y⟩ := point
  rcases sender with _ | sender <;> rcases x with _ | x <;> rcases y with _ | y
  case some.some.some => exact (stored_snoc maxPoints calls ⟨sender, x, y⟩).symm
  all_goals simp [updatePoint, PlotterQueue.call?]

/-- The loop of `_update` stores the points that have every member. -/
theorem updatePoints_stored (maxPoints : Option ℤ) (queue : List (PlotterQueue S X Y))
    (calls : List (Call S X Y)) :
    updatePoints maxPoints queue (stored maxPoints calls) =
      stored maxPoints (calls ++ queue.flatMap fun point ↦ point.call?.toList) := by
  induction queue generalizing calls with
  | nil => simp [updatePoints]
  | cons point queue ih =>
      have hstep := ih (calls ++ point.call?.toList)
      rw [← updatePoint_stored, List.append_assoc] at hstep
      exact hstep

/-- The points that were stored for a sender, oldest first. -/
def pointsOf (senderId : S) (calls : List (Call S X Y)) : List (X × Y) :=
  (calls.filter fun call ↦ call.senderId = senderId).map fun call ↦ (call.x, call.y)

/-- The lists are the columns of the most recent `n` points. -/
structure Window (n : ℕ) (points : List (X × Y)) (d : Series X Y) : Prop where
  aligned : d.x.length = d.y.length
  recent : d.x.zip d.y <:+ points
  full : d.x.length = min n points.length

theorem sliceFrom_neg {α : Type*} (xs : List α) {n : ℕ} (hpos : 0 < n) (hle : n ≤ xs.length) :
    sliceFrom xs (-n) = xs.drop (xs.length - n) := by
  have hneg : (-n : ℤ) < 0 := by omega
  have hdrop : ((xs.length : ℤ) + -n).toNat = xs.length - n := by omega
  rw [sliceFrom, if_pos hneg, hdrop]

theorem Window.empty (n : ℕ) : Window n [] (.empty : Series X Y) where
  aligned := rfl
  recent := List.suffix_rfl
  full := (Nat.min_zero n).symm

/-- One more point: the oldest one leaves a full window. -/
theorem Window.store {n : ℕ} {points : List (X × Y)} {d : Series X Y} (hpos : 0 < n)
    (h : Window n points d) (x : X) (y : Y) :
    Window n (points ++ [(x, y)]) ((d.append x y).cut (some n)) := by
  have halign := h.aligned
  have hfull := h.full
  have hzip : (d.append x y).x.zip (d.append x y).y = d.x.zip d.y ++ [(x, y)] :=
    List.zip_append halign
  have hrecent : (d.append x y).x.zip (d.append x y).y <:+ points ++ [(x, y)] := by
    obtain ⟨older, holder⟩ := h.recent
    exact ⟨older, by rw [hzip, ← List.append_assoc, holder]⟩
  have hx : (d.append x y).x.length = d.x.length + 1 := by simp [Series.append]
  have hy : (d.append x y).y.length = d.x.length + 1 := by simp [Series.append, halign]
  have hpoints : (points ++ [(x, y)]).length = points.length + 1 := by simp
  simp only [Series.cut]
  split
  · rename_i hlong
    have hx' := sliceFrom_neg (d.append x y).x hpos (by omega)
    have hy' := sliceFrom_neg (d.append x y).y hpos (by omega)
    constructor
    · simp only [hx', hy', List.length_drop, hx, hy]
    · simp only [hx', hy', hx, hy, ← List.drop_zipWith, List.zip]
      exact (List.drop_suffix _ _).trans hrecent
    · simp only [hx', List.length_drop]
      omega
  · exact ⟨by rw [hx, hy], hrecent, by omega⟩

theorem pointsOf_snoc_self (calls : List (Call S X Y)) (call : Call S X Y) :
    pointsOf call.senderId (calls ++ [call]) =
      pointsOf call.senderId calls ++ [(call.x, call.y)] := by
  simp [pointsOf]

theorem pointsOf_snoc_ne {sender : S} (calls : List (Call S X Y)) {call : Call S X Y}
    (h : sender ≠ call.senderId) :
    pointsOf sender (calls ++ [call]) = pointsOf sender calls := by
  simp [pointsOf, h.symm]

/-- What holds of no points and is kept when a point is stored holds of every sender. -/
theorem stored_induction {maxPoints : Option ℤ} {P : List (X × Y) → Series X Y → Prop}
    (hempty : P [] .empty)
    (hstore : ∀ points d x y, P points d →
      P (points ++ [(x, y)]) ((d.append x y).cut maxPoints))
    (calls : List (Call S X Y)) (sender : S) :
    P (pointsOf sender calls) (seriesOf sender (stored maxPoints calls)) := by
  induction calls using List.reverseRecOn with
  | nil => exact hempty
  | append_singleton calls call ih =>
      rw [stored_snoc, storeData]
      by_cases hsender : sender = call.senderId
      · subst hsender
        rw [pointsOf_snoc_self, seriesOf, dictGet_dictSet_self]
        exact hstore _ _ call.x call.y ih
      · rw [pointsOf_snoc_ne calls hsender, seriesOf, dictGet_dictSet_ne hsender]
        exact ih

/-- Every sender keeps its window when the bound is positive. -/
theorem window_stored {n : ℕ} (hpos : 0 < n) (calls : List (Call S X Y)) (sender : S) :
    Window n (pointsOf sender calls) (seriesOf sender (stored (some n) calls)) :=
  stored_induction (.empty n) (fun _ _ x y h ↦ h.store hpos x y) calls sender

/-- With the bound `0` nothing is ever cut, since `xs[-0:]` is the whole list. -/
theorem cut_zero (d : Series X Y) : d.cut (some 0) = d := by
  simp [Series.cut, sliceFrom]

theorem length_stored_zero (calls : List (Call S X Y)) (sender : S) :
    (seriesOf sender (stored (some 0) calls)).x.length = (pointsOf sender calls).length := by
  apply stored_induction (P := fun points d ↦ d.x.length = points.length) rfl
  intro points d x y h
  rw [cut_zero, Series.append, List.length_append, List.length_append, h]
  rfl

/-- After each of the calls every sender has its most recent `n` points, unless the
bound is `0`. -/
theorem windows_exact_iff (n : ℕ) (calls : List (Call S X Y)) :
    (∀ made, made <+: calls → ∀ sender : S,
      Window n (pointsOf sender made) (seriesOf sender (stored (some n) made))) ↔
      n ≠ 0 ∨ calls = [] := by
  constructor
  · intro h
    by_contra hbad
    obtain ⟨hzero, hcalls⟩ := not_or.mp hbad
    obtain rfl : n = 0 := not_not.mp hzero
    obtain ⟨call, rest, rfl⟩ := List.exists_cons_of_ne_nil hcalls
    have hfull := (h [call] ⟨rest, rfl⟩ call.senderId).full
    have hkept := length_stored_zero [call] call.senderId
    have hone : (pointsOf call.senderId [call]).length = 1 := by simp [pointsOf]
    simp only [Nat.cast_zero, Nat.zero_min] at hfull
    omega
  · rintro (hn | rfl) made hmade sender
    · exact window_stored (Nat.pos_of_ne_zero hn) made sender
    · obtain rfl := List.prefix_nil.mp hmade
      exact .empty n

/-- A plot that should show no point shows every point. -/
theorem zero_window_keeps_points :
    ¬∀ (n : ℕ) (calls made : List (Call ℕ ℕ ℕ)), made <+: calls → ∀ sender : ℕ,
      Window n (pointsOf sender made) (seriesOf sender (stored (some n) made)) := by
  intro h
  have hfull := (h 0 [⟨1, 2, 3⟩] [⟨1, 2, 3⟩] List.prefix_rfl 1).full
  revert hfull
  decide

/-! ## The marker lines -/

/-- An entry of the queue of events. -/
structure PlotterEvent (S : Type u) (X : Type v) where
  sender : Option S
  x : Option X

/-- What a marker line is drawn for. -/
def PlotterEvent.marker? : PlotterEvent S X → Option (S × X)
  | ⟨some sender, some x⟩ => some (sender, x)
  | _ => none

abbrev markers (events : List (PlotterEvent S X)) : List (S × X) :=
  events.filterMap PlotterEvent.marker?

/-- Where the window's thread is: outside `_draw_new_event_lines`, at the test of its
first loop, at the `get` behind that test, or in the second loop with items still to come. -/
inductive Phase (S : Type u) (X : Type v) where
  | idle
  | testing
  | getting
  | drawing (items : List (S × List X))

/-- The fields that `_draw_new_event_lines` uses, with the lines drawn so far, each
under its sender, and the events that were put and those that were taken. -/
structure State (S : Type u) (X : Type v) where
  eventQueue : Option (List (PlotterEvent S X))
  eventTimes : List (S × List X)
  drawnEventCount : List (S × ℕ)
  phase : Phase S X
  drawn : List (S × X)
  arrived : List (PlotterEvent S X)
  taken : List (PlotterEvent S X)

/-- A new plotter. -/
def start (eventQueue : Option (List (PlotterEvent S X))) : State S X where
  eventQueue := eventQueue
  eventTimes := []
  drawnEventCount := []
  phase := .idle
  drawn := []
  arrived := eventQueue.getD []
  taken := []

/-- The body of the first loop, after the `get`. -/
def takeEvent (event : PlotterEvent S X) (eventTimes : List (S × List X)) :
    List (S × List X) :=
  match event.sender, event.x with
  | some sender, some x => dictSet sender (dictGet sender [] eventTimes ++ [x]) eventTimes
  | _, _ => eventTimes

/-- The body of the second loop. -/
def drawSender (senderId : S) (times : List X) (s : State S X) : State S X :=
  let drawn := dictGet senderId 0 s.drawnEventCount
  { s with
    drawn := s.drawn ++ (times.drop drawn).map fun x ↦ (senderId, x)
    drawnEventCount := dictSet senderId times.length s.drawnEventCount }

/-- Another thread puts an event, or the window's thread goes on. -/
inductive Action (S : Type u) (X : Type v) where
  | put (event : PlotterEvent S X)
  | call
  | proceed

/-- One move inside `_draw_new_event_lines`; `get` waits while the queue is empty. -/
def proceed (s : State S X) : Option (State S X) :=
  match s.phase, s.eventQueue with
  | .testing, some [] => some { s with phase := .drawing s.eventTimes }
  | .testing, some (_ :: _) => some { s with phase := .getting }
  | .getting, some (event :: queue) =>
      some { s with
        eventQueue := some queue
        eventTimes := takeEvent event s.eventTimes
        phase := .testing
        taken := s.taken ++ [event] }
  | .drawing [], _ => some { s with phase := .idle }
  | .drawing ((senderId, times) :: items), _ =>
      some { drawSender senderId times s with phase := .drawing items }
  | _, _ => none

def step (s : State S X) : Action S X → Option (State S X)
  | .put event => s.eventQueue.map fun queue ↦
      { s with eventQueue := some (queue ++ [event]), arrived := s.arrived ++ [event] }
  | .call =>
      match s.phase, s.eventQueue with
      | .idle, none => some s
      | .idle, some _ => some { s with phase := .testing }
      | _, _ => none
  | .proceed => proceed s

/-- The markers of a sender, in order. -/
def ofSender (sender : S) (ms : List (S × X)) : List (S × X) :=
  ms.filter fun m ↦ m.1 = sender

/-- The items that the second loop has not come to. -/
def State.pending (s : State S X) : List (S × List X) :=
  match s.phase with
  | .idle => []
  | .testing | .getting => s.eventTimes
  | .drawing items => items

/-- `eventTimes` holds the events taken of each sender, and the lines drawn are the first
`drawnEventCount` of them. -/
structure Books (eventTimes : List (S × List X)) (drawnEventCount : List (S × ℕ))
    (drawn : List (S × X)) (taken : List (PlotterEvent S X)) : Prop where
  keys : (eventTimes.map Prod.fst).Nodup
  times : ∀ sender, (dictGet sender [] eventTimes).map (fun x ↦ (sender, x)) =
    ofSender sender (markers taken)
  lines : ∀ sender, ofSender sender drawn =
    (ofSender sender (markers taken)).take (dictGet sender 0 drawnEventCount)
  count_le : ∀ sender, dictGet sender 0 drawnEventCount ≤
    (ofSender sender (markers taken)).length

/-- No event is lost between the threads, and the lines of a sender that the second loop
is done with are complete. -/
structure Consistent (s : State S X) : Prop where
  fifo : s.arrived = s.taken ++ s.eventQueue.getD []
  books : Books s.eventTimes s.drawnEventCount s.drawn s.taken
  pending : s.pending <:+ s.eventTimes
  done : ∀ sender, sender ∉ (s.pending).map Prod.fst →
    dictGet sender 0 s.drawnEventCount = (ofSender sender (markers s.taken)).length
  getting : s.phase = .getting → ∃ event queue, s.eventQueue = some (event :: queue)

section Invariant

variable {s t : State S X} {event : PlotterEvent S X} {eventTimes : List (S × List X)}
  {drawnEventCount : List (S × ℕ)} {drawn : List (S × X)} {taken : List (PlotterEvent S X)}
  {sender senderId : S} {times : List X}

theorem dictGet_takeEvent (sender : S) :
    (dictGet sender [] (takeEvent event eventTimes)).map (fun x ↦ (sender, x)) =
      (dictGet sender [] eventTimes).map (fun x ↦ (sender, x)) ++
        ofSender sender (markers [event]) := by
  obtain ⟨origin, x⟩ := event
  rcases origin with _ | source <;> rcases x with _ | x
  case some.some =>
    by_cases hsender : sender = source
    · subst hsender
      simp [takeEvent, ofSender, PlotterEvent.marker?]
    · have hne : source ≠ sender := fun h ↦ hsender h.symm
      simp [takeEvent, ofSender, PlotterEvent.marker?, dictGet_dictSet_ne hsender, hne]
  all_goals simp [takeEvent, ofSender, PlotterEvent.marker?]

theorem nodup_takeEvent (h : (eventTimes.map Prod.fst).Nodup) :
    ((takeEvent event eventTimes).map Prod.fst).Nodup := by
  simp only [takeEvent]
  split
  · exact nodup_keys_dictSet h
  · exact h

@[simp] theorem ofSender_append (sender : S) (ms ms' : List (S × X)) :
    ofSender sender (ms ++ ms') = ofSender sender ms ++ ofSender sender ms' :=
  List.filter_append ms ms'

theorem ofSender_taken (sender : S) (taken : List (PlotterEvent S X)) :
    ofSender sender (markers (taken ++ [event])) =
      ofSender sender (markers taken) ++ ofSender sender (markers [event]) := by
  rw [markers, List.filterMap_append, ofSender_append]

theorem ofSender_lines (sender senderId : S) (times : List X) :
    ofSender sender (times.map fun x ↦ (senderId, x)) =
      if sender = senderId then times.map fun x ↦ (sender, x) else [] := by
  split
  · rename_i heq
    subst heq
    exact List.filter_eq_self.mpr (by simp)
  · rename_i hne
    apply List.filter_eq_nil_iff.mpr
    simpa using fun _ _ h ↦ hne h.symm

/-- A sender without an entry has no markers, so none of them is missing. -/
theorem Books.count_of_notMem (h : Books eventTimes drawnEventCount drawn taken)
    (hnot : sender ∉ eventTimes.map Prod.fst) :
    dictGet sender 0 drawnEventCount = (ofSender sender (markers taken)).length := by
  have hnone : ofSender sender (markers taken) = [] := by
    rw [← h.times sender, dictGet_of_notMem hnot, List.map_nil]
  have hle := h.count_le sender
  rw [hnone] at hle ⊢
  exact Nat.le_zero.mp hle

theorem Books.take (h : Books eventTimes drawnEventCount drawn taken) :
    Books (takeEvent event eventTimes) drawnEventCount drawn (taken ++ [event]) where
  keys := nodup_takeEvent h.keys
  times sender := by rw [dictGet_takeEvent, h.times sender, ofSender_taken]
  lines sender := by
    rw [ofSender_taken, List.take_append_of_le_length (h.count_le sender)]
    exact h.lines sender
  count_le sender := by
    rw [ofSender_taken, List.length_append]
    exact (h.count_le sender).trans (Nat.le_add_right _ _)

theorem Books.length_times (h : Books eventTimes drawnEventCount drawn taken)
    (hmem : (senderId, times) ∈ eventTimes) :
    times.length = (ofSender senderId (markers taken)).length := by
  rw [← h.times senderId, List.length_map, dictGet_of_mem h.keys hmem]

/-- The lines of one sender catch up with its times; no other sender is touched. -/
theorem Books.draw (h : Books eventTimes drawnEventCount drawn taken)
    (hmem : (senderId, times) ∈ eventTimes) :
    Books eventTimes (dictSet senderId times.length drawnEventCount)
      (drawn ++ (times.drop (dictGet senderId 0 drawnEventCount)).map fun x ↦ (senderId, x))
      taken where
  keys := h.keys
  times := h.times
  lines sender := by
    rw [ofSender_append, ofSender_lines, h.lines sender]
    split
    · rename_i heq
      subst heq
      have htimes := h.times sender
      rw [dictGet_of_mem h.keys hmem] at htimes
      rw [dictGet_dictSet_self, h.length_times hmem, List.take_length, List.map_drop, htimes,
        List.take_append_drop]
    · rename_i hne
      rw [dictGet_dictSet_ne hne, List.append_nil]
  count_le sender := by
    by_cases hsender : sender = senderId
    · subst hsender
      rw [dictGet_dictSet_self]
      exact (h.length_times hmem).le
    · rw [dictGet_dictSet_ne hsender]
      exact h.count_le sender

theorem consistent_start (eventQueue : Option (List (PlotterEvent S X))) :
    Consistent (start eventQueue) where
  fifo := rfl
  books := ⟨List.nodup_nil, fun _ ↦ rfl, fun _ ↦ rfl, fun _ ↦ Nat.zero_le _⟩
  pending := List.suffix_rfl
  done _ _ := rfl
  getting h := by cases h

theorem Consistent.put {queue : List (PlotterEvent S X)} (h : Consistent s)
    (hqueue : s.eventQueue = some queue) :
    Consistent { s with
      eventQueue := some (queue ++ [event]), arrived := s.arrived ++ [event] } where
  fifo := by
    have hfifo := h.fifo
    rw [hqueue, Option.getD_some] at hfifo
    rw [Option.getD_some, hfifo, List.append_assoc]
  books := h.books
  pending := h.pending
  done := h.done
  getting hphase := by
    obtain ⟨first, rest, hfirst⟩ := h.getting hphase
    obtain rfl : queue = first :: rest := Option.some.inj (hqueue.symm.trans hfirst)
    exact ⟨first, rest ++ [event], rfl⟩

/-- At the tests of the first loop every entry is still to come. -/
theorem Consistent.toPhase {phase : Phase S X} (h : Consistent s)
    (hpending : State.pending { s with phase := phase } = s.eventTimes)
    (hgetting : phase = .getting → ∃ event queue, s.eventQueue = some (event :: queue)) :
    Consistent { s with phase := phase } where
  fifo := h.fifo
  books := h.books
  pending := by rw [hpending]
  done sender hnot := by
    rw [hpending] at hnot
    exact h.books.count_of_notMem hnot
  getting := hgetting

theorem Consistent.take {queue : List (PlotterEvent S X)} (h : Consistent s)
    (hqueue : s.eventQueue = some (event :: queue)) :
    Consistent { s with
      eventQueue := some queue
      eventTimes := takeEvent event s.eventTimes
      phase := .testing
      taken := s.taken ++ [event] } where
  fifo := by
    have hfifo := h.fifo
    rw [hqueue, Option.getD_some] at hfifo
    simpa using hfifo
  books := h.books.take
  pending := List.suffix_rfl
  done _ hnot := h.books.take.count_of_notMem hnot
  getting hphase := by cases hphase

theorem Consistent.draw {items : List (S × List X)} (h : Consistent s)
    (hphase : s.phase = .drawing ((senderId, times) :: items)) :
    Consistent { drawSender senderId times s with phase := .drawing items } := by
  have hpending := h.pending
  have hdone := h.done
  rw [State.pending, hphase] at hpending hdone
  have hmem : (senderId, times) ∈ s.eventTimes := hpending.subset List.mem_cons_self
  constructor
  case fifo => exact h.fifo
  case books => exact h.books.draw hmem
  case pending => exact (List.suffix_cons _ _).trans hpending
  case done =>
    intro sender hnot
    by_cases hsender : sender = senderId
    · subst hsender
      simp only [drawSender, dictGet_dictSet_self]
      exact h.books.length_times hmem
    · simp only [drawSender, dictGet_dictSet_ne hsender]
      apply hdone sender
      rw [List.map_cons, List.mem_cons, not_or]
      exact ⟨hsender, hnot⟩
  case getting =>
    intro hgetting
    cases hgetting

/-- Behind the second loop no entry is left to come. -/
theorem Consistent.leave (h : Consistent s) (hphase : s.phase = .drawing []) :
    Consistent { s with phase := .idle } where
  fifo := h.fifo
  books := h.books
  pending := List.nil_suffix
  done sender _ := h.done sender (by simp [State.pending, hphase])
  getting hidle := by cases hidle

theorem consistent_proceed (h : Consistent s) (hstep : proceed s = some t) : Consistent t := by
  simp only [proceed] at hstep
  split at hstep
  case h_1 =>
    cases hstep
    exact h.toPhase rfl (fun hphase ↦ by cases hphase)
  case h_2 hqueue =>
    cases hstep
    exact h.toPhase rfl fun _ ↦ ⟨_, _, hqueue⟩
  case h_3 hqueue =>
    cases hstep
    exact h.take hqueue
  case h_4 hphase =>
    cases hstep
    exact h.leave hphase
  case h_5 hphase =>
    cases hstep
    exact h.draw hphase
  case h_6 => cases hstep

theorem consistent_step {a : Action S X} (h : Consistent s) (hstep : step s a = some t) :
    Consistent t := by
  cases a with
  | put event =>
      obtain ⟨queue, hqueue, rfl⟩ := Option.map_eq_some_iff.mp hstep
      exact h.put hqueue
  | call =>
      simp only [step] at hstep
      split at hstep
      · cases hstep
        exact h
      · cases hstep
        exact h.toPhase rfl (fun hphase ↦ by cases hphase)
      · cases hstep
  | proceed => exact consistent_proceed h hstep

theorem consistent_of_reachable {eventQueue : Option (List (PlotterEvent S X))}
    (h : Reachable step (start eventQueue) s) : Consistent s :=
  h.invariant (consistent_start eventQueue) fun _ _ _ hs _ ↦ consistent_step hs

/-- The `get` behind the test of the first loop never waits: there is no other reader. -/
theorem get_never_waits {eventQueue : Option (List (PlotterEvent S X))}
    (h : Reachable step (start eventQueue) s) (hphase : s.phase = .getting) :
    (step s .proceed).isSome = true := by
  obtain ⟨event, queue, hqueue⟩ := (consistent_of_reachable h).getting hphase
  simp [step, proceed, hphase, hqueue]

end Invariant

/-- Two lists with the same entries under every key, in order, are permutations of each
other. -/
theorem perm_of_ofSender {ms ms' : List (S × X)}
    (h : ∀ sender, ofSender sender ms = ofSender sender ms') : ms.Perm ms' := by
  classical
  refine List.perm_iff_count.mpr fun m ↦ ?_
  have hkey : decide (m.1 = m.1) = true := decide_eq_true rfl
  rw [← List.count_filter (p := fun m' ↦ m'.1 = m.1) hkey,
    ← List.count_filter (l := ms') (p := fun m' ↦ m'.1 = m.1) hkey]
  exact congrArg (List.count m) (h m.1)

/-- Between the calls the lines drawn are the well-formed events taken from the queue,
each once, and those of a sender in the order of their arrival. -/
theorem events_drawn_once (eventQueue : Option (List (PlotterEvent S X))) {s : State S X}
    (h : Reachable step (start eventQueue) s) (hidle : s.phase = .idle) :
    s.drawn.Perm (markers s.taken) ∧
      (∀ sender, ofSender sender s.drawn = ofSender sender (markers s.taken)) ∧
      s.arrived = s.taken ++ s.eventQueue.getD [] := by
  have hs := consistent_of_reachable h
  have hlines : ∀ sender, ofSender sender s.drawn = ofSender sender (markers s.taken) := by
    intro sender
    have hcount := hs.done sender (by simp [State.pending, hidle])
    rw [hs.books.lines sender, hcount, List.take_length]
  exact ⟨perm_of_ofSender hlines, hlines, hs.fifo⟩

/-- Two calls: the first finds an event without a time, and one that came during the call;
one more event comes while the lines are drawn. -/
def twoCalls : List (Action ℕ ℕ) :=
  let proceeds (n : ℕ) : List (Action ℕ ℕ) := List.replicate n .proceed
  .put ⟨some 1, some 10⟩ :: .put ⟨some 1, none⟩ :: .call :: .proceed ::
    .put ⟨some 2, some 20⟩ :: (proceeds 6 ++ .put ⟨some 1, some 11⟩ :: (proceeds 3 ++
      .call :: proceeds 6))

def afterTwoCalls : State ℕ ℕ where
  eventQueue := some []
  eventTimes := [(1, [10, 11]), (2, [20])]
  drawnEventCount := [(1, 2), (2, 1)]
  phase := .idle
  drawn := [(1, 10), (2, 20), (1, 11)]
  arrived := [⟨some 1, some 10⟩, ⟨some 1, none⟩, ⟨some 2, some 20⟩, ⟨some 1, some 11⟩]
  taken := [⟨some 1, some 10⟩, ⟨some 1, none⟩, ⟨some 2, some 20⟩, ⟨some 1, some 11⟩]

theorem exec_twoCalls :
    exec step (fun _ _ ↦ true) (start (some [])) twoCalls = some afterTwoCalls := rfl

theorem events_drawn_once_twoCalls :
    Reachable step (start (some [])) afterTwoCalls ∧
      afterTwoCalls.drawn.Perm (markers afterTwoCalls.taken) ∧
      (∀ sender, ofSender sender afterTwoCalls.drawn =
        ofSender sender (markers afterTwoCalls.taken)) ∧
      afterTwoCalls.arrived = afterTwoCalls.taken ++ afterTwoCalls.eventQueue.getD [] :=
  have hreach := (exec_steps exec_twoCalls).reachable
  ⟨hreach, events_drawn_once (some []) hreach rfl⟩

end PlantNode.Charter.Plotter
