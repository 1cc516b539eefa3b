import Udaf.Lib.Decimal
import Udaf.Lib.Moments
import Udaf.Lib.Run

/-!
The meter of `observability/observability.cpp`, and exports of it that run beside the threads
that count. Each call on a counter, gauge or histogram is one step; an export takes five of them
for each metric. A gauge holds a `double`, which stays abstract.
-/

namespace Udaf

open ByteString Decimal Moments Runs

inductive MetricId where
  | discoveryBroadcastTotal
  | discoveryReceiveTotal
  | handshakeSuccessTotal
  | handshakeFailureTotal
  | channelLatencyMicro
  | nodeLifecycleChangesTotal
  | topologyUpdatesTotal
  | authFailuresTotal
  | activeConnections
  | pendingEvents
  deriving DecidableEq, Repr

namespace MetricId

def all : List MetricId :=
  [discoveryBroadcastTotal, discoveryReceiveTotal, handshakeSuccessTotal, handshakeFailureTotal,
    channelLatencyMicro, nodeLifecycleChangesTotal, topologyUpdatesTotal, authFailuresTotal,
    activeConnections, pendingEvents]

end MetricId

def metricName : MetricId → Bytes
  | .discoveryBroadcastTotal => ascii "discovery_broadcast_total"
  | .discoveryReceiveTotal => ascii "discovery_receive_total"
  | .handshakeSuccessTotal => ascii "handshake_success_total"
  | .handshakeFailureTotal => ascii "handshake_failure_total"
  | .channelLatencyMicro => ascii "channel_latency_micro"
  | .nodeLifecycleChangesTotal => ascii "node_lifecycle_changes_total"
  | .topologyUpdatesTotal => ascii "topology_updates_total"
  | .authFailuresTotal => ascii "auth_failures_total"
  | .activeConnections => ascii "active_connections"
  | .pendingEvents => ascii "pending_events"

def kEdges : List UInt64 := [100, 500, 1000, 5000, 10000, 50000, 100000, 1000000]

structure Histogram where
  buckets : List UInt64 := List.replicate 8 0
  count : UInt64 := 0
  sum : UInt64 := 0
  deriving DecidableEq, Repr

def Histogram.observe (histogram : Histogram) (valueUs : UInt64) : Histogram where
  buckets := List.zipWith (fun edge bucket => if valueUs ≤ edge then bucket + 1 else bucket)
    kEdges histogram.buckets
  count := histogram.count + 1
  sum := histogram.sum + valueUs

namespace Histogram

def total (values : List UInt64) : UInt64 := UInt64.ofNat (values.map UInt64.toNat).sum

theorem total_concat (values : List UInt64) (value : UInt64) :
    total (values ++ [value]) = total values + value := by
  rw [total, total, List.map_append, List.sum_append, List.map_singleton, List.sum_singleton,
    UInt64.ofNat_add, UInt64.ofNat_toNat]

theorem ofNat_succ (number : Nat) : UInt64.ofNat (number + 1) = UInt64.ofNat number + 1 := by
  rw [UInt64.ofNat_add]
  rfl

structure Counts (histogram : Histogram) (values : List UInt64) : Prop where
  buckets : histogram.buckets = kEdges.map fun edge => UInt64.ofNat (values.countP (· ≤ edge))
  count : histogram.count = UInt64.ofNat values.length
  sum : histogram.sum = total values

theorem counts_fresh : Counts {} [] := ⟨rfl, rfl, rfl⟩

theorem Counts.observe {histogram : Histogram} {values : List UInt64}
    (counts : Counts histogram values) (value : UInt64) :
    Counts (histogram.observe value) (values ++ [value]) where
  buckets := by
    rw [Histogram.observe, counts.buckets, List.zipWith_map_right, List.zipWith_self]
    refine List.map_congr_left fun edge _ => ?_
    rw [List.countP_append, List.countP_singleton]
    by_cases below : value ≤ edge
    · simp [below, ofNat_succ]
    · simp [below]
  count := by
    rw [Histogram.observe, counts.count, List.length_append, List.length_singleton, ofNat_succ]
  sum := by rw [Histogram.observe, counts.sum, total_concat]

end Histogram

structure Meter (γ : Type) where
  counters : MetricId → UInt64 := fun _ => 0
  gauges : MetricId → γ
  histograms : MetricId → Histogram := fun _ => {}

namespace Meter

variable {γ : Type}

def incCounter (meter : Meter γ) (m : MetricId) (v : UInt64) : Meter γ :=
  { meter with counters := Function.update meter.counters m (meter.counters m + v) }

def setGauge (meter : Meter γ) (m : MetricId) (v : γ) : Meter γ :=
  { meter with gauges := Function.update meter.gauges m v }

def observeHistogram (meter : Meter γ) (m : MetricId) (valueUs : UInt64) : Meter γ :=
  { meter with
    histograms := Function.update meter.histograms m ((meter.histograms m).observe valueUs) }

inductive Update (γ : Type) where
  | incCounter (m : MetricId) (v : UInt64)
  | setGauge (m : MetricId) (v : γ)
  | observeHistogram (m : MetricId) (valueUs : UInt64)

def apply (meter : Meter γ) : Update γ → Meter γ
  | .incCounter m v => meter.incCounter m v
  | .setGauge m v => meter.setGauge m v
  | .observeHistogram m valueUs => meter.observeHistogram m valueUs

/-- What the export does next with the metric in front; `h` is its snapshot of the buckets. -/
inductive Phase where
  | counter
  | gauge
  | snapshot
  | count (h : List UInt64)
  | sum (h : List UInt64)
  deriving DecidableEq, Repr

structure Export where
  text : Bytes := []
  todo : List MetricId := MetricId.all
  phase : Phase := .counter
  deriving DecidableEq, Repr

def counterText (m : MetricId) (value : UInt64) : Bytes :=
  ascii "# TYPE " ++ metricName m ++ ascii " counter\n" ++
    (metricName m ++ ascii " " ++ decimal value.toNat ++ ascii "\n")

def gaugeText (shown : γ → Bytes) (m : MetricId) (value : γ) : Bytes :=
  ascii "# TYPE " ++ metricName m ++ ascii "_gauge gauge\n" ++
    (metricName m ++ ascii "_gauge " ++ shown value ++ ascii "\n")

def countText (m : MetricId) (value : UInt64) : Bytes :=
  ascii "# TYPE " ++ metricName m ++ ascii "_histogram histogram\n" ++
    (metricName m ++ ascii "_histogram_count " ++ decimal value.toNat ++ ascii "\n")

def sumText (m : MetricId) (value : UInt64) (h : List UInt64) : Bytes :=
  metricName m ++ ascii "_histogram_sum " ++ decimal value.toNat ++ ascii "\n" ++
    (h.mapIdx fun b bucket => metricName m ++ ascii "_histogram_bucket\x7b" ++ decimal b ++
      ascii "\x7d " ++ decimal bucket.toNat ++ ascii "\n").flatten

/-- One look of `export_prometheus` at the meter; `none` when it is done. -/
def exportStep (shown : γ → Bytes) (meter : Meter γ) (state : Export) : Option Export :=
  match state.todo with
  | [] => none
  | m :: rest =>
      match state.phase with
      | .counter => some { state with
          text := state.text ++ counterText m (meter.counters m), phase := .gauge }
      | .gauge => some { state with
          text := state.text ++ gaugeText shown m (meter.gauges m), phase := .snapshot }
      | .snapshot => some { state with phase := .count (meter.histograms m).buckets }
      | .count h => some { state with
          text := state.text ++ countText m (meter.histograms m).count, phase := .sum h }
      | .sum h => some {
          text := state.text ++ sumText m (meter.histograms m).sum h, todo := rest, phase := .counter }

structure System (γ ι : Type) where
  meter : Meter γ
  exports : ι → Option Export := fun _ => none

inductive Event (γ ι : Type) where
  | update (update : Update γ)
  | began (thread : ι)
  | looked (thread : ι)
  | returned (thread : ι) (text : Bytes)

variable {ι : Type}

def Event.Bounds (thread : ι) : Event γ ι → Prop
  | .began other => other = thread
  | .returned other _ => other = thread
  | _ => False

inductive Step [DecidableEq ι] (shown : γ → Bytes) : System γ ι → Event γ ι → System γ ι → Prop where
  | update {system : System γ ι} (update : Update γ) :
      Step shown system (.update update) { system with meter := system.meter.apply update }
  | begin {system : System γ ι} {thread : ι} (idle : system.exports thread = none) :
      Step shown system (.began thread)
        { system with exports := Function.update system.exports thread (some {}) }
  | look {system : System γ ι} {thread : ι} {state after : Export}
      (runs : system.exports thread = some state)
      (looked : exportStep shown system.meter state = some after) :
      Step shown system (.looked thread)
        { system with exports := Function.update system.exports thread (some after) }
  | finish {system : System γ ι} {thread : ι} {state : Export}
      (runs : system.exports thread = some state)
      (ended : exportStep shown system.meter state = none) :
      Step shown system (.returned thread state.text)
        { system with exports := Function.update system.exports thread none }

def updates (events : List (Event γ ι)) : List (Update γ) :=
  events.filterMap fun event =>
    match event with
    | .update update => some update
    | _ => none

def added (m : MetricId) (updates : List (Update γ)) : List UInt64 :=
  updates.filterMap fun update =>
    match update with
    | .incCounter metric v => if metric = m then some v else none
    | _ => none

def observed (m : MetricId) (updates : List (Update γ)) : List UInt64 :=
  updates.filterMap fun update =>
    match update with
    | .observeHistogram metric valueUs => if metric = m then some valueUs else none
    | _ => none

def assigned (m : MetricId) (updates : List (Update γ)) : List γ :=
  updates.filterMap fun update =>
    match update with
    | .setGauge metric v => if metric = m then some v else none
    | _ => none

structure Holds (zero : γ) (updates : List (Update γ)) (meter : Meter γ) : Prop where
  counters : ∀ m, meter.counters m = Histogram.total (added m updates)
  gauges : ∀ m, meter.gauges m = (assigned m updates).getLast?.getD zero
  histograms : ∀ m, Histogram.Counts (meter.histograms m) (observed m updates)

def fresh (zero : γ) : Meter γ := { gauges := fun _ => zero }

theorem holds_after (zero : γ) (updates : List (Update γ)) :
    Holds zero updates (after apply (fresh zero) updates) := by
  induction updates using List.reverseRecOn with
  | nil => exact ⟨fun _ => rfl, fun _ => rfl, fun _ => Histogram.counts_fresh⟩
  | append_singleton updates update ih =>
      rw [after_concat]
      cases update with
      | incCounter metric v =>
          refine ⟨fun m => ?_, fun m => ?_, fun m => ?_⟩
          · by_cases same : metric = m
            · subst same
              simp [apply, incCounter, added, ih.counters metric, ← Histogram.total_concat]
            · simp [apply, incCounter, added, same, Function.update_of_ne (Ne.symm same),
                ih.counters m]
          · simpa [apply, incCounter, assigned] using ih.gauges m
          · simpa [apply, incCounter, observed] using ih.histograms m
      | setGauge metric v =>
          refine ⟨fun m => ?_, fun m => ?_, fun m => ?_⟩
          · simpa [apply, setGauge, added] using ih.counters m
          · by_cases same : metric = m
            · subst same
              simp [apply, setGauge, assigned]
            · simpa [apply, setGauge, assigned, same, Function.update_of_ne (Ne.symm same)]
                using ih.gauges m
          · simpa [apply, setGauge, observed] using ih.histograms m
      | observeHistogram metric valueUs =>
          refine ⟨fun m => ?_, fun m => ?_, fun m => ?_⟩
          · simpa [apply, observeHistogram, added] using ih.counters m
          · simpa [apply, observeHistogram, assigned] using ih.gauges m
          · by_cases same : metric = m
            · subst same
              simpa [apply, observeHistogram, observed] using
                (ih.histograms metric).observe valueUs
            · simpa [apply, observeHistogram, observed, same, Function.update_of_ne (Ne.symm same)]
                using ih.histograms m

structure Sample (γ : Type) where
  counter : UInt64
  gauge : γ
  buckets : List UInt64
  count : UInt64
  sum : UInt64

def sampleText (shown : γ → Bytes) (m : MetricId) (sample : Sample γ) : Bytes :=
  counterText m sample.counter ++ gaugeText shown m sample.gauge ++ countText m sample.count ++
    sumText m sample.sum sample.buckets

def sampleAt (zero : γ) (m : MetricId) (first second third fourth fifth : List (Update γ)) :
    Sample γ where
  counter := (after apply (fresh zero) first).counters m
  gauge := (after apply (fresh zero) second).gauges m
  buckets := ((after apply (fresh zero) third).histograms m).buckets
  count := ((after apply (fresh zero) fourth).histograms m).count
  sum := ((after apply (fresh zero) fifth).histograms m).sum

def Taken (zero : γ) (began updates : List (Update γ)) (m : MetricId) (sample : Sample γ) : Prop :=
  ∃ first second third fourth fifth, Ordered began [first, second, third, fourth, fifth] updates ∧
    sample = sampleAt zero m first second third fourth fifth

def Begun (shown : γ → Bytes) (zero : γ) (began updates : List (Update γ)) (m : MetricId) (text : Bytes) :
    Phase → Prop
  | .counter => began <+: updates ∧ text = []
  | .gauge => ∃ first, Ordered began [first] updates ∧
      text = counterText m ((after apply (fresh zero) first).counters m)
  | .snapshot => ∃ first second, Ordered began [first, second] updates ∧
      text = counterText m ((after apply (fresh zero) first).counters m) ++
        gaugeText shown m ((after apply (fresh zero) second).gauges m)
  | .count h => ∃ first second third, Ordered began [first, second, third] updates ∧
      text = counterText m ((after apply (fresh zero) first).counters m) ++
        gaugeText shown m ((after apply (fresh zero) second).gauges m) ∧
      h = ((after apply (fresh zero) third).histograms m).buckets
  | .sum h => ∃ first second third fourth, Ordered began [first, second, third, fourth] updates ∧
      text = counterText m ((after apply (fresh zero) first).counters m) ++
        gaugeText shown m ((after apply (fresh zero) second).gauges m) ++
          countText m ((after apply (fresh zero) fourth).histograms m).count ∧
      h = ((after apply (fresh zero) third).histograms m).buckets

variable {shown : γ → Bytes} {zero : γ}

theorem Taken.update {began done : List (Update γ)} {m : MetricId} {sample : Sample γ}
    (taken : Taken zero began done m sample) (update : Update γ) :
    Taken zero began (done ++ [update]) m sample := by
  obtain ⟨first, second, third, fourth, fifth, ordered, same⟩ := taken
  exact ⟨first, second, third, fourth, fifth, ordered.update update, same⟩

theorem Begun.update {began done : List (Update γ)} {m : MetricId} {text : Bytes} {phase : Phase}
    (begun : Begun shown zero began done m text phase) (update : Update γ) :
    Begun shown zero began (done ++ [update]) m text phase := by
  cases phase with
  | counter => exact ⟨begun.1.trans (List.prefix_append _ _), begun.2⟩
  | gauge =>
      obtain ⟨first, ordered, same⟩ := begun
      exact ⟨first, ordered.update update, same⟩
  | snapshot =>
      obtain ⟨first, second, ordered, same⟩ := begun
      exact ⟨first, second, ordered.update update, same⟩
  | count h =>
      obtain ⟨first, second, third, ordered, same⟩ := begun
      exact ⟨first, second, third, ordered.update update, same⟩
  | sum h =>
      obtain ⟨first, second, third, fourth, ordered, same⟩ := begun
      exact ⟨first, second, third, fourth, ordered.update update, same⟩

structure Written (shown : γ → Bytes) (zero : γ) (began done : List (Update γ)) (state : Export)
    (samples : List (MetricId × Sample γ)) (part : Bytes) : Prop where
  all : samples.map Prod.fst ++ state.todo = MetricId.all
  text : state.text = (samples.flatMap fun pair => sampleText shown pair.1 pair.2) ++ part
  taken : ∀ pair ∈ samples, Taken zero began done pair.1 pair.2
  reached : began <+: done
  begun : ∀ m rest, state.todo = m :: rest → Begun shown zero began done m part state.phase
  ended : state.todo = [] → part = []

theorem Written.update {began done : List (Update γ)} {state : Export} {samples : List (MetricId × Sample γ)}
    {part : Bytes} (written : Written shown zero began done state samples part) (update : Update γ) :
    Written shown zero began (done ++ [update]) state samples part where
  all := written.all
  text := written.text
  taken pair member := (written.taken pair member).update update
  reached := written.reached.trans (List.prefix_append _ _)
  begun m rest front := (written.begun m rest front).update update
  ended := written.ended

theorem Written.further {began done : List (Update γ)} {state : Export}
    {samples : List (MetricId × Sample γ)} {part more : Bytes}
    (written : Written shown zero began done state samples part) {m : MetricId} {rest : List MetricId}
    (front : state.todo = m :: rest) {phase : Phase}
    (begun : Begun shown zero began done m (part ++ more) phase) :
    Written shown zero began done { state with text := state.text ++ more, phase := phase } samples
      (part ++ more) where
  all := written.all
  text := by rw [written.text, List.append_assoc]
  taken := written.taken
  reached := written.reached
  begun other others same := by
    obtain ⟨rfl, -⟩ := List.cons.inj (front.symm.trans same)
    exact begun
  ended none := by
    rw [front] at none
    cases none

theorem Written.look {began done : List (Update γ)} {state after : Export}
    {samples : List (MetricId × Sample γ)} {part : Bytes}
    (written : Written shown zero began done state samples part)
    (looked : exportStep shown (Moments.after apply (fresh zero) done) state = some after) :
    ∃ samples part, Written shown zero began done after samples part := by
  rw [exportStep] at looked
  split at looked
  · cases looked
  · rename_i m rest front
    have begun := written.begun m rest front
    split at looked
    · rename_i phase
      rw [phase] at begun
      cases looked
      refine ⟨samples, _, written.further front ⟨done, (ordered_nil begun.1).look, ?_⟩⟩
      rw [begun.2, List.nil_append]
    · rename_i phase
      rw [phase] at begun
      obtain ⟨first, ordered, same⟩ := begun
      cases looked
      exact ⟨samples, _, written.further front ⟨first, done, ordered.look, by rw [same]⟩⟩
    · rename_i phase
      rw [phase] at begun
      obtain ⟨first, second, ordered, same⟩ := begun
      cases looked
      have next := @Written.further _ _ _ _ _ _ _ _ [] written m rest front
        (.count ((Moments.after apply (fresh zero) done).histograms m).buckets)
        ⟨first, second, done, ordered.look, by rw [List.append_nil, same], rfl⟩
      rw [List.append_nil] at next
      exact ⟨samples, _, next⟩
    · rename_i h phase
      rw [phase] at begun
      obtain ⟨first, second, third, ordered, same, snapshot⟩ := begun
      cases looked
      exact ⟨samples, _, written.further front
        ⟨first, second, third, done, ordered.look, by rw [same], snapshot⟩⟩
    · rename_i h phase
      rw [phase] at begun
      obtain ⟨first, second, third, fourth, ordered, same, snapshot⟩ := begun
      cases looked
      have all := written.all
      rw [front] at all
      refine ⟨samples ++ [(m, sampleAt zero m first second third fourth done)], [], ?_, ?_, ?_,
        written.reached, fun _ _ _ => ⟨written.reached, rfl⟩, fun _ => rfl⟩
      · rw [← all]
        simp
      · rw [written.text, same, snapshot]
        simp [sampleText, sampleAt]
      · intro pair member
        rcases List.mem_append.mp member with before | last
        · exact written.taken pair before
        · rw [List.mem_singleton.mp last]
          exact ⟨first, second, third, fourth, done, ordered.look, rfl⟩

def start (zero : γ) : System γ ι := { meter := fresh zero }

def Exporting (shown : γ → Bytes) (zero : γ) (thread : ι) (past : List (Event γ ι)) (state : Export) :
    Prop :=
  ∃ early between samples part, past = early ++ .began thread :: between ∧
    (∀ event ∈ between, ¬ event.Bounds thread) ∧
    Written shown zero (updates early) (updates past) state samples part

theorem Exporting.later {thread : ι} {past : List (Event γ ι)} {state after : Export}
    (exporting : Exporting shown zero thread past state) {event : Event γ ι}
    (inside : ¬ event.Bounds thread)
    (turns : ∀ began samples part, Written shown zero began (updates past) state samples part →
      ∃ samples part, Written shown zero began (updates (past ++ [event])) after samples part) :
    Exporting shown zero thread (past ++ [event]) after := by
  obtain ⟨early, between, samples, part, shape, apart, written⟩ := exporting
  obtain ⟨more, rest, further⟩ := turns _ _ _ written
  refine ⟨early, between ++ [event], more, rest, by simp [shape], ?_, further⟩
  intro other member
  rcases List.mem_append.mp member with before | last
  · exact apart other before
  · rw [List.mem_singleton.mp last]
    exact inside

theorem written_fresh (done : List (Update γ)) : Written shown zero done done {} [] [] where
  all := rfl
  text := rfl
  taken := by simp
  reached := List.prefix_refl done
  begun _ _ _ := ⟨List.prefix_refl done, rfl⟩
  ended _ := rfl

structure Consistent (shown : γ → Bytes) (zero : γ) (past : List (Event γ ι)) (system : System γ ι) :
    Prop where
  meter : system.meter = after apply (fresh zero) (updates past)
  exports : ∀ thread state, system.exports thread = some state →
    Exporting shown zero thread past state

variable [DecidableEq ι]

theorem Consistent.turn {past : List (Event γ ι)} {system : System γ ι} {event : Event γ ι}
    {thread : ι} {now : Option Export} (consistent : Consistent shown zero past system)
    (still : updates (past ++ [event]) = updates past)
    (elsewhere : ∀ other, other ≠ thread → ¬ event.Bounds other)
    (own : ∀ state, now = some state → Exporting shown zero thread (past ++ [event]) state) :
    Consistent shown zero (past ++ [event])
      { system with exports := Function.update system.exports thread now } := by
  constructor
  · rw [still]
    exact consistent.meter
  · intro other reached runs
    simp only at runs
    by_cases here : other = thread
    · subst here
      rw [Function.update_self] at runs
      exact own reached runs
    · rw [Function.update_of_ne here] at runs
      refine (consistent.exports other reached runs).later (elsewhere other here)
        fun began samples part written => ?_
      rw [still]
      exact ⟨samples, part, written⟩

theorem step_consistent {past : List (Event γ ι)} {system next : System γ ι} {event : Event γ ι}
    (step : Step shown system event next) (consistent : Consistent shown zero past system) :
    Consistent shown zero (past ++ [event]) next := by
  cases step with
  | update update =>
      have grown : updates (past ++ [Event.update update]) = updates past ++ [update] := by
        simp [updates]
      constructor
      · rw [grown, after_concat, ← consistent.meter]
      · intro thread state runs
        refine (consistent.exports thread state runs).later id fun began samples part written => ?_
        rw [grown]
        exact ⟨samples, part, written.update update⟩
  | @begin thread idle =>
      have same : updates (past ++ [Event.began thread]) = updates past := by simp [updates]
      refine consistent.turn same (fun _ => Ne.symm) ?_
      rintro state runs
      cases runs
      refine ⟨past, [], [], [], rfl, by simp, ?_⟩
      rw [same]
      exact written_fresh _
  | @look thread state after runs looked =>
      have same : updates (past ++ [Event.looked thread]) = updates past := by simp [updates]
      refine consistent.turn same (fun _ _ => id) ?_
      rintro reached now
      cases now
      refine (consistent.exports thread state runs).later id fun began samples part written => ?_
      rw [same]
      rw [consistent.meter] at looked
      exact written.look looked
  | @finish thread state runs ended =>
      have same : updates (past ++ [Event.returned thread state.text]) = updates past := by
        simp [updates]
      refine consistent.turn same (fun _ => Ne.symm) ?_
      rintro reached none
      cases none

/-- The values of a sample, told from the updates until their moments. -/
structure Reports (zero : γ) (began done : List (Update γ)) (m : MetricId) (sample : Sample γ) : Prop where
  values : ∃ first second third fourth fifth, Ordered began [first, second, third, fourth, fifth] done ∧
    sample.counter = Histogram.total (added m first) ∧
    sample.gauge = (assigned m second).getLast?.getD zero ∧
    sample.buckets = (kEdges.map fun edge => UInt64.ofNat ((observed m third).countP (· ≤ edge))) ∧
    sample.count = UInt64.ofNat (observed m fourth).length ∧
    sample.sum = Histogram.total (observed m fifth)
  cumulative : done.length < 2 ^ 64 → (sample.buckets ++ [sample.count]).Pairwise (· ≤ ·)

theorem observed_grows {m : MetricId} {earlier later : List (Update γ)} (before : earlier <+: later) :
    observed m earlier <+: observed m later := by
  obtain ⟨more, rfl⟩ := before
  rw [observed, observed, List.filterMap_append]
  exact List.prefix_append _ _

theorem cumulative_counts {values all : List UInt64} (before : values <+: all)
    (small : all.length < 2 ^ 64) :
    ((kEdges.map fun edge => UInt64.ofNat (values.countP (· ≤ edge))) ++
      [UInt64.ofNat all.length]).Pairwise (· ≤ ·) := by
  have fits := before.length_le
  have ofNat_le : ∀ less more : Nat, less ≤ more → more ≤ all.length →
      UInt64.ofNat less ≤ UInt64.ofNat more := by
    intro less more order bound
    rw [UInt64.le_iff_toNat_le, UInt64.toNat_ofNat', UInt64.toNat_ofNat',
      Nat.mod_eq_of_lt (by omega), Nat.mod_eq_of_lt (by omega)]
    exact order
  refine List.pairwise_append.mpr ⟨?_, List.pairwise_singleton _ _, ?_⟩
  · rw [List.pairwise_map]
    have ascending : kEdges.Pairwise (· ≤ ·) := by decide
    refine ascending.imp fun {low high} order => ?_
    refine ofNat_le _ _ (List.countP_mono_left fun value _ => ?_)
      (List.countP_le_length.trans fits)
    simp only [decide_eq_true_eq]
    exact fun below => UInt64.le_trans below order
  · intro bucket member count same
    obtain ⟨edge, -, rfl⟩ := List.mem_map.mp member
    rw [List.mem_singleton.mp same]
    exact ofNat_le _ _ (List.countP_le_length.trans fits) (Nat.le_refl _)

omit [DecidableEq ι] in
theorem Taken.reports {began done : List (Update γ)} {m : MetricId} {sample : Sample γ}
    (taken : Taken zero began done m sample) : Reports zero began done m sample := by
  obtain ⟨first, second, third, fourth, fifth, ordered, rfl⟩ := taken
  have counts := fun moment => ((holds_after zero moment).histograms m)
  constructor
  · exact ⟨first, second, third, fourth, fifth, ordered, (holds_after zero first).counters m,
      (holds_after zero second).gauges m, (counts third).buckets, (counts fourth).count,
      (counts fifth).sum⟩
  · intro small
    have order : third <+: fourth := by
      have all := ordered
      simp only [Ordered, List.cons_append, List.nil_append, List.pairwise_cons] at all
      exact all.2.2.2.1 fourth (by simp)
    have within : fourth <+: done := ordered.within (by simp)
    have few : (observed m fourth).length ≤ fourth.length := List.length_filterMap_le _ _
    have bound := within.length_le
    have cumulative := cumulative_counts (@observed_grows _ m _ _ order) (by omega)
    rw [sampleAt, (counts third).buckets, (counts fourth).count]
    exact cumulative

/-- An export that returns, whatever is counted and exported in the meantime: the text has one block
for each metric, and its values are those of moments since the export began, in the order of its
looks. -/
theorem export_consistent {events : List (Event γ ι)} {final : System γ ι}
    (run : Run (Step shown) (start zero) events final) {past later : List (Event γ ι)} {thread : ι}
    {text : Bytes} (returned : events = past ++ .returned thread text :: later) :
    ∃ early between, past = early ++ .began thread :: between ∧
      (∀ event ∈ between, ¬ event.Bounds thread) ∧
      ∃ samples : List (MetricId × Sample γ), samples.map Prod.fst = MetricId.all ∧
        text = (samples.flatMap fun pair => sampleText shown pair.1 pair.2) ∧
        ∀ pair ∈ samples, Reports zero (updates early) (updates past) pair.1 pair.2 := by
  subst returned
  obtain ⟨system, next, before, step⟩ := run.before
  have consistent := before.history (fun step past => step_consistent step past)
    (show Consistent shown zero [] (start zero) from ⟨rfl, fun _ _ none => by cases none⟩)
  rw [List.nil_append] at consistent
  cases step with
  | @finish _ state runs ended =>
      obtain ⟨early, between, samples, part, shape, apart, written⟩ :=
        consistent.exports thread state runs
      have done : state.todo = [] := by
        unfold exportStep at ended
        split at ended
        · assumption
        · split at ended <;> cases ended
      refine ⟨early, between, shape, apart, samples, ?_, ?_, fun pair member =>
        (written.taken pair member).reports⟩
      · have all := written.all
        rwa [done, List.append_nil] at all
      · rw [written.text, written.ended done, List.append_nil]

def exportSteps (shown : γ → Bytes) (meter : Meter γ) : Nat → Export → Option Export
  | 0, state => some state
  | count + 1, state => (exportStep shown meter state).bind (exportSteps shown meter count)

theorem run_exportSteps {system : System γ ι} (thread : ι) {state after : Export} {count : Nat}
    (runs : system.exports thread = some state)
    (steps : exportSteps shown system.meter count state = some after) :
    Run (Step shown) system (List.replicate count (.looked thread))
      { system with exports := Function.update system.exports thread (some after) } := by
  induction count generalizing system state with
  | zero =>
      cases steps
      rw [← runs, Function.update_eq_self]
      exact .nil
  | succ count ih =>
      obtain ⟨next, looked, rest⟩ := Option.bind_eq_some_iff.mp steps
      have further := @ih { system with exports := Function.update system.exports thread (some next) }
        next (Function.update_self _ _ _) rest
      rw [Function.update_idem] at further
      exact .cons (.look runs looked) further

def sampleUpdate : Update Unit := .observeHistogram .discoveryBroadcastTotal 300

def sampleEvents : List (Event Unit Unit) :=
  [.update sampleUpdate, .began ()] ++ List.replicate 3 (.looked ()) ++ [.update sampleUpdate] ++
    List.replicate 47 (.looked ())

theorem sampleEvents_run : ∃ (text : Bytes) (final : System Unit Unit),
    Run (Step fun _ => []) (start ()) (sampleEvents ++ [.returned () text]) final := by
  have ends : ((exportSteps (fun _ => []) ((fresh ()).apply sampleUpdate) 3 {}).bind fun middle =>
      exportSteps (fun _ => []) (((fresh ()).apply sampleUpdate).apply sampleUpdate) 47 middle).any
        (fun final => final.todo.isEmpty) = true := by
    decide +kernel
  obtain ⟨final, both, empty⟩ := (Option.any_eq_true _ _).mp ends
  obtain ⟨middle, first, second⟩ := Option.bind_eq_some_iff.mp both
  have opened : Run (Step fun _ => []) (start ()) [.update sampleUpdate, .began ()] _ :=
    .cons (.update sampleUpdate) (.cons (@Step.begin _ _ _ _ _ () rfl) .nil)
  have looks := opened.append (run_exportSteps () rfl first)
  have counts := (looks.append (.cons (.update sampleUpdate) .nil)).append
    (run_exportSteps () rfl second)
  have done : exportStep (fun _ => []) (((fresh ()).apply sampleUpdate).apply sampleUpdate) final = none := by
    rw [exportStep, List.isEmpty_iff.mp empty]
  exact ⟨_, _, counts.append (.cons (.finish rfl done) .nil)⟩

theorem export_consistent_sample : ∃ (early between : List (Event Unit Unit)) (text : Bytes),
    sampleEvents = early ++ .began () :: between ∧ (∀ event ∈ between, ¬ event.Bounds ()) ∧
      ∃ samples : List (MetricId × Sample Unit), samples.map Prod.fst = MetricId.all ∧
        text = (samples.flatMap fun pair => sampleText (fun _ => []) pair.1 pair.2) ∧
        ∀ pair ∈ samples, Reports () (updates early) (updates sampleEvents) pair.1 pair.2 := by
  obtain ⟨text, final, run⟩ := sampleEvents_run
  obtain ⟨early, between, shape, apart, samples⟩ := export_consistent run rfl
  exact ⟨early, between, text, shape, apart, samples⟩

end Meter

end Udaf
