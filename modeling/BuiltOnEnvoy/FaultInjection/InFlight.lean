import BuiltOnEnvoy.FaultInjection.Plugin
import BuiltOnEnvoy.Foundations.Runs

/-!
# The count of requests in flight

Any number of filters share one count. Their callbacks interleave in any way; a
filter gets no callback after it is destroyed. Whether a filter is counted
depends on its own callbacks alone, and the shared count is the number of
filters that are counted.
-/

namespace BuiltOnEnvoy.FaultInjection

open Foundations List

variable {Draw : Type}

inductive Callback (Draw : Type)
  | requestHeaders (headers : Headers) (draw : Draw) (now : ℤ)
  | responseHeaders (rt : Runtime) (headers : Headers) (now : ℤ)
  | streamComplete
  | destroy

/-- The filter and the shared count after a callback. -/
def LatencyFaultFilter.on (f : LatencyFaultFilter Draw) (activeRequests : ℤ) :
    Callback Draw → LatencyFaultFilter Draw × ℤ
  | .requestHeaders headers draw now => f.onRequestHeaders activeRequests headers draw now
  | .responseHeaders _ _ _ => (f, activeRequests)
  | .streamComplete => f.releaseRequest activeRequests
  | .destroy => f.releaseRequest activeRequests

/-- What a callback does on the handle. -/
def LatencyFaultFilter.effects (f : LatencyFaultFilter Draw) : Callback Draw → List Effect
  | .responseHeaders rt headers now => (f.onResponseHeaders rt headers now).2
  | _ => []

def Callback.isDestroy : Callback Draw → Bool
  | destroy => true
  | _ => false

structure Instance (Draw : Type) where
  filter : LatencyFaultFilter Draw
  destroyed : Bool

structure World (Draw : Type) where
  activeRequests : ℤ
  instances : List (Instance Draw)
  effects : List (ℕ × Effect)

def World.init : World Draw := ⟨0, [], []⟩

/-- A stream gets a new filter, or a filter gets a callback. -/
inductive Event (Draw : Type)
  | create (factory : Factory Draw)
  | callback (i : ℕ) (c : Callback Draw)

/-- One step, unless the filter does not exist any more. -/
def World.step (w : World Draw) : Event Draw → Option (World Draw)
  | .create factory =>
    some { w with instances := w.instances ++ [⟨FaultInjection.create factory, false⟩] }
  | .callback i c =>
    match w.instances[i]? with
    | none => none
    | some inst =>
      if inst.destroyed then none
      else
        let next := inst.filter.on w.activeRequests c
        some ⟨next.2, w.instances.set i ⟨next.1, c.isDestroy⟩,
          w.effects ++ (inst.filter.effects c).map fun effect => (i, effect)⟩

def World.run (events : List (Event Draw)) : Option (World Draw) :=
  events.foldlM World.step World.init

/-- A request with these headers is matched, whatever is drawn. -/
def Factory.Matches (f : Factory Draw) (headers : Headers) : Prop :=
  (f.direct = true ∧ (f.sampler.distribution.isSome ∨ f.sampler.loadBased.isSome)) ∨
    ∃ ep, (f.endpoints.find? fun ep =>
        matchRoute ep.route (headers.getOne ":path") headers) = some ep ∧
      (ep.sampler.distribution.isSome ∨ ep.sampler.loadBased.isSome)

/-- A request of the filter was matched. -/
def Matched (factory : Factory Draw) (callbacks : List (Callback Draw)) : Prop :=
  ∃ headers draw now, Callback.requestHeaders headers draw now ∈ callbacks ∧ factory.Matches headers

/-- A completion callback. -/
def Callback.Releases : Callback Draw → Prop
  | streamComplete => True
  | destroy => True
  | _ => False

attribute [local simp] Callback.Releases LatencyFaultFilter.on

/-- The filter was counted for a request and no completion callback came since. -/
def CountedNotReleased (factory : Factory Draw) (callbacks : List (Callback Draw)) : Prop :=
  ∃ front headers draw now back,
    callbacks = front ++ Callback.requestHeaders headers draw now :: back ∧
      Matched factory (front ++ [Callback.requestHeaders headers draw now]) ∧
      ∀ c ∈ back, ¬c.Releases

/-- The callbacks of the filter `i`. -/
def callbacksOf (i : ℕ) (events : List (Event Draw)) : List (Callback Draw) :=
  events.filterMap fun
    | .create _ => none
    | .callback j c => if j = i then some c else none

theorem Sampler.sample_isSome (s : Sampler Draw) (loadValue : ℤ) (draw : Draw) :
    (s.sample loadValue draw).isSome ↔ s.distribution.isSome ∨ s.loadBased.isSome := by
  unfold sample
  cases s.distribution <;> cases s.loadBased <;> simp

theorem Factory.sample_isSome (f : Factory Draw) (loadValue : ℤ) (draw : Draw) :
    (f.sample loadValue draw).isSome ↔
      f.direct = true ∧ (f.sampler.distribution.isSome ∨ f.sampler.loadBased.isSome) := by
  rw [← f.sampler.sample_isSome loadValue draw, Factory.sample]
  cases f.direct <;> simp

theorem Factory.sampleEndpoint_isSome (f : Factory Draw) (headers : Headers) (loadValue : ℤ)
    (draw : Draw) :
    (f.sampleEndpoint headers loadValue draw).isSome ↔
      ∃ ep, (f.endpoints.find? fun ep =>
          matchRoute ep.route (headers.getOne ":path") headers) = some ep ∧
        (ep.sampler.distribution.isSome ∨ ep.sampler.loadBased.isSome) := by
  unfold sampleEndpoint
  cases f.endpoints.find? fun ep => matchRoute ep.route (headers.getOne ":path") headers with
  | none => simp
  | some ep => simp [ep.sampler.sample_isSome loadValue draw]

theorem Factory.sampleFor_isSome (f : Factory Draw) (headers : Headers) (loadValue : ℤ)
    (draw : Draw) : (f.sampleFor headers loadValue draw).isSome ↔ f.Matches headers := by
  rw [Factory.Matches, ← f.sample_isSome loadValue draw,
    ← f.sampleEndpoint_isSome headers loadValue draw, sampleFor]
  cases f.sample loadValue draw <;> simp

namespace LatencyFaultFilter

variable (f : LatencyFaultFilter Draw) (activeRequests : ℤ)

/-- What a callback does to a filter and to the shared count. -/
structure Moves (f f' : LatencyFaultFilter Draw) (activeRequests activeRequests' : ℤ)
    (matched counted : Prop) : Prop where
  factory : f'.factory = f.factory
  matched : f'.matched = true ↔ matched
  counted : f'.counted = true ↔ counted
  active : activeRequests' - activeRequests = f'.counted.toInt - f.counted.toInt

theorem releaseRequest_moves :
    Moves f (f.releaseRequest activeRequests).1 activeRequests (f.releaseRequest activeRequests).2
      (f.matched = true) False := by
  unfold releaseRequest
  cases hcounted : f.counted <;> constructor <;> simp [hcounted]

theorem startRequest_moves :
    Moves f (f.startRequest activeRequests).1 activeRequests (f.startRequest activeRequests).2
      (f.matched = true) True := by
  unfold startRequest
  cases hcounted : f.counted <;> constructor <;> simp [hcounted]

theorem onRequestHeaders_moves (headers : Headers) (draw : Draw) (now : ℤ) :
    Moves f (f.onRequestHeaders activeRequests headers draw now).1 activeRequests
      (f.onRequestHeaders activeRequests headers draw now).2
      (f.matched = true ∨ f.factory.Matches headers)
      (f.counted = true ∨ f.matched = true ∨ f.factory.Matches headers) := by
  have hsome := f.factory.sampleFor_isSome headers activeRequests draw
  simp only [onRequestHeaders]
  cases hsample : f.factory.sampleFor headers activeRequests draw with
  | some sample =>
    have hmatches : f.factory.Matches headers := hsome.mp (by simp [hsample])
    have hmoves := startRequest_moves
      { f with
        sample := sample, matched := true, requestEntryInFlight := activeRequests,
        requestStart := now } activeRequests
    exact ⟨hmoves.factory, hmoves.matched.trans (by simp [hmatches]),
      hmoves.counted.trans (by simp [hmatches]), hmoves.active⟩
  | none =>
    have hmatches : ¬f.factory.Matches headers := fun h => by simpa [hsample] using hsome.mpr h
    dsimp only
    by_cases hmatched : f.matched = true
    · rw [if_pos hmatched]
      have hmoves := startRequest_moves
        { f with requestEntryInFlight := activeRequests, requestStart := now } activeRequests
      exact ⟨hmoves.factory, hmoves.matched.trans (by simp [hmatches]),
        hmoves.counted.trans (by simp [hmatched]), hmoves.active⟩
    · rw [if_neg hmatched]
      exact ⟨rfl, by simp [hmatches], by simp [hmatches, hmatched], by simp⟩

end LatencyFaultFilter

variable {factory : Factory Draw} {callbacks : List (Callback Draw)}

theorem matched_append {c : Callback Draw} :
    Matched factory (callbacks ++ [c]) ↔ Matched factory callbacks ∨
      ∃ headers draw now, c = .requestHeaders headers draw now ∧ factory.Matches headers := by
  constructor
  · rintro ⟨headers, draw, now, hmem, hmatches⟩
    rcases mem_append.mp hmem with hmem | hmem
    · exact .inl ⟨headers, draw, now, hmem, hmatches⟩
    · exact .inr ⟨headers, draw, now, (mem_singleton.mp hmem).symm, hmatches⟩
  · rintro (⟨headers, draw, now, hmem, hmatches⟩ | ⟨headers, draw, now, rfl, hmatches⟩)
    · exact ⟨headers, draw, now, mem_append_left _ hmem, hmatches⟩
    · exact ⟨headers, draw, now, by simp, hmatches⟩

theorem countedNotReleased_append {c : Callback Draw} :
    CountedNotReleased factory (callbacks ++ [c]) ↔
      (CountedNotReleased factory callbacks ∧ ¬c.Releases) ∨
        (Matched factory (callbacks ++ [c]) ∧
          ∃ headers draw now, c = .requestHeaders headers draw now) := by
  constructor
  · rintro ⟨front, headers, draw, now, back, hsplit, hmatched, hback⟩
    rcases concat_eq_append_cons.mp hsplit with ⟨rfl, rfl, -⟩ | ⟨between, rfl, rfl⟩
    · exact .inr ⟨hmatched, headers, draw, now, rfl⟩
    · exact .inl ⟨⟨front, headers, draw, now, between, rfl, hmatched,
        fun x hx => hback x (by simp [hx])⟩, hback c (by simp)⟩
  · rintro (⟨⟨front, headers, draw, now, back, rfl, hmatched, hback⟩, hc⟩ |
      ⟨hmatched, headers, draw, now, rfl⟩)
    · refine ⟨front, headers, draw, now, back ++ [c], by simp, hmatched, ?_⟩
      intro x hx
      rcases mem_append.mp hx with hx | hx
      · exact hback x hx
      · rwa [mem_singleton.mp hx]
    · exact ⟨callbacks, headers, draw, now, [], rfl, hmatched, by simp⟩

/-- The flags of a filter tell what its callbacks were. -/
structure Tracks (factory : Factory Draw) (callbacks : List (Callback Draw))
    (f : LatencyFaultFilter Draw) : Prop where
  created : f.factory = factory
  matched : f.matched = true ↔ Matched factory callbacks
  counted : f.counted = true ↔ CountedNotReleased factory callbacks

theorem tracks_create (factory : Factory Draw) : Tracks factory [] (create factory) := by
  constructor <;> simp [create, Matched, CountedNotReleased]

theorem Tracks.on {f : LatencyFaultFilter Draw} (h : Tracks factory callbacks f)
    (activeRequests : ℤ) (c : Callback Draw) :
    Tracks factory (callbacks ++ [c]) (f.on activeRequests c).1 ∧
      (f.on activeRequests c).2 - activeRequests =
        (f.on activeRequests c).1.counted.toInt - f.counted.toInt := by
  cases c with
  | requestHeaders headers draw now =>
    have hmoves := f.onRequestHeaders_moves activeRequests headers draw now
    have hmatched : (f.on activeRequests (.requestHeaders headers draw now)).1.matched = true ↔
        Matched factory (callbacks ++ [.requestHeaders headers draw now]) := by
      rw [matched_append, ← h.matched]
      refine hmoves.matched.trans ?_
      simp [h.created]
    refine ⟨⟨hmoves.factory.trans h.created, hmatched, ?_⟩, hmoves.active⟩
    rw [countedNotReleased_append, ← h.counted, ← hmatched]
    refine hmoves.counted.trans ?_
    rw [show (f.on activeRequests (.requestHeaders headers draw now)).1.matched = true ↔ _
      from hmoves.matched]
    simp
  | responseHeaders rt headers now =>
    refine ⟨⟨h.created, ?_, ?_⟩, by simp⟩
    · rw [matched_append, ← h.matched]
      simp
    · rw [countedNotReleased_append, ← h.counted]
      simp
  | streamComplete | destroy =>
    have hmoves := f.releaseRequest_moves activeRequests
    refine ⟨⟨hmoves.factory.trans h.created, ?_, ?_⟩, hmoves.active⟩
    · rw [matched_append, ← h.matched]
      refine hmoves.matched.trans ?_
      simp
    · rw [countedNotReleased_append]
      refine hmoves.counted.trans ?_
      simp

/-- How many of the filters are counted. -/
def World.countedInstances (w : World Draw) : ℕ :=
  w.instances.countP fun inst => inst.filter.counted

/-- A world after these events. -/
structure Exact (events : List (Event Draw)) (w : World Draw) : Prop where
  tracks : ∀ i inst, w.instances[i]? = some inst →
    Tracks inst.filter.factory (callbacksOf i events) inst.filter
  destroyed : ∀ i inst, w.instances[i]? = some inst →
    (inst.destroyed = true ↔ Callback.destroy ∈ callbacksOf i events)
  released : ∀ inst ∈ w.instances, inst.destroyed = true → inst.filter.counted = false
  fresh : ∀ i, w.instances.length ≤ i → callbacksOf i events = []
  active : w.activeRequests = w.countedInstances

theorem exact_init : Exact ([] : List (Event Draw)) World.init := by
  constructor <;> simp [World.init, callbacksOf, World.countedInstances]

theorem callbacksOf_create (i : ℕ) (events : List (Event Draw)) (factory : Factory Draw) :
    callbacksOf i (events ++ [.create factory]) = callbacksOf i events := by
  simp [callbacksOf]

theorem callbacksOf_self (i : ℕ) (events : List (Event Draw)) (c : Callback Draw) :
    callbacksOf i (events ++ [.callback i c]) = callbacksOf i events ++ [c] := by
  simp [callbacksOf]

theorem callbacksOf_ne {i j : ℕ} (h : j ≠ i) (events : List (Event Draw)) (c : Callback Draw) :
    callbacksOf i (events ++ [.callback j c]) = callbacksOf i events := by
  simp [callbacksOf, h]

theorem countP_set_toInt {α : Type*} (p : α → Bool) {l : List α} {i : ℕ} {a b : α}
    (h : l[i]? = some a) :
    ((l.set i b).countP p : ℤ) = l.countP p + ((p b).toInt - (p a).toInt) := by
  obtain ⟨hi, rfl⟩ := List.getElem?_eq_some_iff.mp h
  have hpos : p l[i] = true → 0 < l.countP p := fun hp =>
    countP_pos_iff.mpr ⟨l[i], getElem_mem hi, hp⟩
  rw [List.countP_set hi]
  grind

variable {events : List (Event Draw)}

theorem Exact.create {w : World Draw} (h : Exact events w) (factory : Factory Draw) :
    Exact (events ++ [.create factory])
      { w with instances := w.instances ++ [⟨FaultInjection.create factory, false⟩] } := by
  have hcases : ∀ i inst,
      (w.instances ++ [⟨FaultInjection.create factory, false⟩])[i]? = some inst →
      w.instances[i]? = some inst ∨
        (i = w.instances.length ∧ inst = ⟨FaultInjection.create factory, false⟩) := by
    intro i inst hi
    rcases Nat.lt_trichotomy i w.instances.length with hlt | rfl | hgt
    · exact .inl (by rwa [getElem?_append_left hlt] at hi)
    · exact .inr ⟨rfl, by simpa using hi.symm⟩
    · rw [getElem?_eq_none (by simpa using hgt)] at hi
      cases hi
  constructor
  · intro i inst hi
    rw [callbacksOf_create]
    rcases hcases i inst hi with hold | ⟨rfl, rfl⟩
    · exact h.tracks i inst hold
    · rw [h.fresh _ le_rfl]
      exact tracks_create factory
  · intro i inst hi
    rw [callbacksOf_create]
    rcases hcases i inst hi with hold | ⟨rfl, rfl⟩
    · exact h.destroyed i inst hold
    · rw [h.fresh _ le_rfl]
      simp
  · intro inst hmem hdestroyed
    rcases mem_append.mp hmem with hmem | hmem
    · exact h.released inst hmem hdestroyed
    · rw [mem_singleton.mp hmem] at hdestroyed
      cases hdestroyed
  · intro i hi
    rw [callbacksOf_create]
    refine h.fresh i ?_
    rw [length_append, length_singleton] at hi
    omega
  · rw [h.active]
    simp [World.countedInstances, FaultInjection.create]

theorem Exact.callback {w : World Draw} (h : Exact events w) {i : ℕ} {inst : Instance Draw}
    (hi : w.instances[i]? = some inst) (hlive : inst.destroyed = false) (c : Callback Draw)
    (effects : List (ℕ × Effect)) :
    Exact (events ++ [.callback i c])
      ⟨(inst.filter.on w.activeRequests c).2,
        w.instances.set i ⟨(inst.filter.on w.activeRequests c).1, c.isDestroy⟩, effects⟩ := by
  obtain ⟨htracks, hactive⟩ := (h.tracks i inst hi).on w.activeRequests c
  have hlt : i < w.instances.length := (List.getElem?_eq_some_iff.mp hi).1
  have hcases : ∀ j inst', (w.instances.set i
      ⟨(inst.filter.on w.activeRequests c).1, c.isDestroy⟩)[j]? = some inst' →
      (j = i ∧ inst' = ⟨(inst.filter.on w.activeRequests c).1, c.isDestroy⟩) ∨
        (i ≠ j ∧ w.instances[j]? = some inst') := by
    intro j inst' hj
    by_cases hij : i = j
    · subst hij
      exact .inl ⟨rfl, by simpa [hlt] using hj.symm⟩
    · exact .inr ⟨hij, by rwa [getElem?_set_ne hij] at hj⟩
  constructor
  · intro j inst' hj
    rcases hcases j inst' hj with ⟨rfl, rfl⟩ | ⟨hne, hold⟩
    · rw [callbacksOf_self, htracks.created]
      exact htracks
    · rw [callbacksOf_ne hne]
      exact h.tracks j inst' hold
  · intro j inst' hj
    rcases hcases j inst' hj with ⟨rfl, rfl⟩ | ⟨hne, hold⟩
    · have hbefore : Callback.destroy ∉ callbacksOf j events := by
        rw [← h.destroyed j inst hi, hlive]
        simp
      rw [callbacksOf_self]
      cases c <;> simp [Callback.isDestroy, hbefore]
    · rw [callbacksOf_ne hne]
      exact h.destroyed j inst' hold
  · intro inst' hmem hdestroyed
    obtain ⟨j, hj⟩ := mem_iff_getElem?.mp hmem
    rcases hcases j inst' hj with ⟨-, rfl⟩ | ⟨-, hold⟩
    · -- the callback was `destroy`, which releases
      cases c with
      | destroy =>
        have hcounted := (inst.filter.releaseRequest_moves w.activeRequests).counted
        simpa using hcounted
      | requestHeaders | responseHeaders | streamComplete => cases hdestroyed
    · exact h.released inst' (mem_of_getElem? hold) hdestroyed
  · intro j hj
    rw [length_set] at hj
    rw [callbacksOf_ne (by omega)]
    exact h.fresh j hj
  · have hcount := countP_set_toInt (fun inst : Instance Draw => inst.filter.counted)
      (b := ⟨(inst.filter.on w.activeRequests c).1, c.isDestroy⟩) hi
    have hbefore := h.active
    simp only [World.countedInstances] at hbefore hcount ⊢
    omega

theorem Exact.step {w w' : World Draw} (h : Exact events w) (e : Event Draw)
    (hstep : w.step e = some w') : Exact (events ++ [e]) w' := by
  cases e with
  | create factory =>
    cases hstep
    exact h.create factory
  | callback i c =>
    rw [World.step] at hstep
    cases hi : w.instances[i]? with
    | none => simp [hi] at hstep
    | some inst =>
      simp only [hi] at hstep
      split_ifs at hstep with hdestroyed
      cases hstep
      exact h.callback hi (by simpa using hdestroyed) c _

theorem exact_run {w : World Draw} (h : World.run events = some w) :
    Exact events w :=
  run_induction exact_init (fun _ _ e _ _ ih hstep => ih.step e hstep) h

theorem countP_range {α : Type*} {p : α → Bool} {q : ℕ → Bool} {l : List α}
    (h : ∀ i a, l[i]? = some a → q i = p a) : (List.range l.length).countP q = l.countP p := by
  induction l using List.reverseRecOn with
  | nil => rfl
  | append_singleton l a ih =>
    have hfront : ∀ i b, l[i]? = some b → q i = p b := by
      intro i b hb
      have hlt := (List.getElem?_eq_some_iff.mp hb).1
      exact h i b (by rwa [getElem?_append_left hlt])
    have hlast : q l.length = p a := h l.length a (by simp)
    rw [length_append, length_singleton, range_succ, countP_append,
      countP_append, ih hfront]
    simp [countP_cons, hlast]

/-- The filter `i` of the world was counted and is not yet released. -/
def InFlight (events : List (Event Draw)) (w : World Draw) (i : ℕ) : Prop :=
  ∃ inst, w.instances[i]? = some inst ∧
    CountedNotReleased inst.filter.factory (callbacksOf i events)

open Classical in
/-- After any interleaving the shared count is the number of filters in flight, and zero when
every filter is destroyed. -/
theorem inFlight_count_exact (events : List (Event Draw)) (w : World Draw)
    (h : World.run events = some w) :
    w.activeRequests = (List.range w.instances.length).countP (fun i => InFlight events w i) ∧
      0 ≤ w.activeRequests ∧
      ((∀ i, i < w.instances.length → Callback.destroy ∈ callbacksOf i events) →
        w.activeRequests = 0) := by
  have hexact := exact_run h
  have hcount : (List.range w.instances.length).countP (fun i => InFlight events w i) =
      w.countedInstances := by
    refine countP_range fun i inst hi => ?_
    rw [Bool.eq_iff_iff, decide_eq_true_iff, (hexact.tracks i inst hi).counted, InFlight, hi]
    simp
  refine ⟨by rw [hcount, hexact.active], by rw [hexact.active]; omega, fun hdestroyed => ?_⟩
  have hnone : w.countedInstances = 0 := by
    refine countP_eq_zero.mpr fun inst hmem => ?_
    obtain ⟨i, hi⟩ := mem_iff_getElem?.mp hmem
    have hlt := (List.getElem?_eq_some_iff.mp hi).1
    have hdone := (hexact.destroyed i inst hi).mpr (hdestroyed i hlt)
    simp [hexact.released inst hmem hdone]
  rw [hexact.active, hnone]
  rfl

/-- A factory that always answers 503 after a second. -/
def abortFactory : Factory Unit :=
  ⟨[], ⟨some fun _ => ⟨503, 1000000000, none⟩, none⟩, true, false⟩

/-- Two streams, the first of which ends with both completion callbacks. -/
def twoStreams : List (Event Unit) :=
  [.create abortFactory, .create abortFactory,
    .callback 0 (.requestHeaders [(":path", "/")] () 0),
    .callback 1 (.requestHeaders [(":path", "/")] () 5),
    .callback 0 .streamComplete, .callback 0 .destroy]

theorem two_streams_counted :
    ∃ w, World.run twoStreams = some w ∧ w.activeRequests = 1 ∧ 0 ≤ w.activeRequests := by
  obtain ⟨w, hw, hactive⟩ : ∃ w, World.run twoStreams = some w ∧ w.activeRequests = 1 :=
    ⟨_, rfl, rfl⟩
  exact ⟨w, hw, hactive, (inFlight_count_exact _ w hw).2.1⟩

end BuiltOnEnvoy.FaultInjection
