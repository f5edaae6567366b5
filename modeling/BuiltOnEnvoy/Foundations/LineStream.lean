import BuiltOnEnvoy.Foundations.Bytes

/-!
# Line readers

A reader keeps a buffer and a state. Every piece of input is appended to the
buffer, and the complete lines are then taken off it one by one and given to a
step function, which goes on, ends the loop, or fails. Once the state is done,
further pieces are dropped. The question is whether the way a stream is cut
into pieces can be seen in the result.
-/

namespace BuiltOnEnvoy.Foundations

open List

def newline : UInt8 := 0x0A

/-- The first complete line and what follows its line break. -/
def cutLine : Bytes → Option (Bytes × Bytes)
  | [] => none
  | b :: rest =>
    if b = newline then some ([], rest)
    else (cutLine rest).map fun p => (b :: p.1, p.2)

theorem cutLine_length {buf line rest : Bytes} (h : cutLine buf = some (line, rest)) :
    rest.length < buf.length := by
  induction buf generalizing line with
  | nil => simp [cutLine] at h
  | cons b buf ih =>
    simp only [cutLine] at h
    split_ifs at h with hb
    · cases h
      simp
    · simp only [Option.map_eq_some_iff, Prod.mk.injEq] at h
      obtain ⟨⟨line', rest'⟩, hcut, -, rfl⟩ := h
      have hlt : rest'.length < buf.length := ih hcut
      simp only [length_cons]
      omega

/-- The complete lines of a stream that continues the unfinished line `carry`,
and the unfinished line at its end. -/
def splitLines (carry : Bytes) : Bytes → List Bytes × Bytes
  | [] => ([], carry)
  | b :: rest =>
    if b = newline then
      let r := splitLines [] rest
      (carry :: r.1, r.2)
    else splitLines (carry ++ [b]) rest

def lines (stream : Bytes) : List Bytes := (splitLines [] stream).1

theorem splitLines_append (carry a b : Bytes) :
    splitLines carry (a ++ b) =
      ((splitLines carry a).1 ++ (splitLines (splitLines carry a).2 b).1,
        (splitLines (splitLines carry a).2 b).2) := by
  induction a generalizing carry with
  | nil => rfl
  | cons x a ih =>
    simp only [cons_append, splitLines]
    split_ifs with hx
    · rw [ih]
      rfl
    · exact ih _

theorem newline_notMem_splitLines {carry : Bytes} (hcarry : newline ∉ carry) (bs : Bytes) :
    newline ∉ (splitLines carry bs).2 := by
  induction bs generalizing carry with
  | nil => exact hcarry
  | cons b bs ih =>
    simp only [splitLines]
    split_ifs with hb
    · exact ih not_mem_nil
    · apply ih
      intro hmem
      rcases mem_append.mp hmem with hold | hnew
      · exact hcarry hold
      · exact hb (mem_singleton.mp hnew).symm

/-- Reading on from an unfinished line is reading it again with what follows. -/
theorem splitLines_carry {carry : Bytes} (hcarry : newline ∉ carry) (done bs : Bytes) :
    splitLines done (carry ++ bs) = splitLines (done ++ carry) bs := by
  induction carry generalizing done with
  | nil => simp
  | cons c carry ih =>
    have hc : c ≠ newline := fun h => hcarry (h ▸ mem_cons_self)
    simp only [cons_append, splitLines, if_neg hc]
    rw [ih (fun h => hcarry (mem_cons_of_mem _ h))]
    simp

theorem lines_cons {line : Bytes} (hline : newline ∉ line) (rest : Bytes) :
    lines (line ++ newline :: rest) = line :: lines rest := by
  rw [lines, splitLines_carry hline, nil_append, splitLines, if_pos rfl]
  rfl

theorem exists_cut {carry bs : Bytes} {front back : List Bytes}
    (hsplit : (splitLines carry bs).1 = front ++ back) (hfront : front ≠ [] ∨ carry = []) :
    ∃ p q, bs = p ++ q ∧ splitLines carry p = (front, []) := by
  induction bs generalizing carry front with
  | nil =>
    have hnil : front = [] := by
      simp only [splitLines, nil_eq, append_eq_nil_iff] at hsplit
      exact hsplit.1
    obtain rfl := hfront.resolve_left (not_not.mpr hnil)
    exact ⟨[], [], rfl, by rw [hnil]; rfl⟩
  | cons b bs ih =>
    cases front with
    | nil =>
      obtain rfl := hfront.resolve_left (not_not.mpr rfl)
      exact ⟨[], b :: bs, rfl, rfl⟩
    | cons line front =>
      simp only [splitLines] at hsplit
      split_ifs at hsplit with hb
      · simp only [cons_append, List.cons.injEq] at hsplit
        obtain ⟨hline, hrest⟩ := hsplit
        obtain ⟨p, q, hpq, hp⟩ := ih hrest (Or.inr rfl)
        refine ⟨b :: p, q, by rw [hpq]; rfl, ?_⟩
        simp [splitLines, hb, hp, hline]
      · obtain ⟨p, q, hpq, hp⟩ := ih hsplit (Or.inl (cons_ne_nil _ _))
        refine ⟨b :: p, q, by rw [hpq]; rfl, ?_⟩
        simp [splitLines, hb, hp]

theorem cutLine_eq (carry bs : Bytes) :
    match cutLine bs with
    | none => splitLines carry bs = ([], carry ++ bs)
    | some (line, rest) =>
      splitLines carry bs =
        ((carry ++ line) :: (splitLines [] rest).1, (splitLines [] rest).2) := by
  induction bs generalizing carry with
  | nil => simp [cutLine, splitLines]
  | cons b bs ih =>
    simp only [cutLine]
    split_ifs with hb
    · simp [splitLines, hb]
    · have hrest := ih (carry ++ [b])
      cases hcut : cutLine bs with
      | none =>
        rw [hcut] at hrest
        simpa [splitLines, hb] using hrest
      | some p =>
        rw [hcut] at hrest
        simpa [splitLines, hb] using hrest

/-- What one line does: go on, end the loop, or fail. -/
inductive Verdict (σ ε : Type*)
  | next (s : σ)
  | halt (s : σ)
  | fail (e : ε) (s : σ)

/-- The error, if any, and the state at the end. -/
def Verdict.ending {σ ε : Type*} : Verdict σ ε → Option ε × σ
  | next s => (none, s)
  | halt s => (none, s)
  | fail e s => (some e, s)

/-- A reader's step on one line, and when its state is done. The loop is ended
only by a step that makes the state done. -/
structure LineMachine (σ ε : Type*) where
  step : σ → Bytes → Verdict σ ε
  done : σ → Bool
  halt_done : ∀ {s line s'}, step s line = .halt s' → done s' = true

structure LineReader (σ : Type*) where
  buf : Bytes
  state : σ

namespace LineMachine

variable {σ ε ω : Type*} (m : LineMachine σ ε)

/-- Take lines off the buffer until there is none, or the step ends the loop. -/
def parse (s : σ) (buf : Bytes) : Option ε × LineReader σ :=
  match h : cutLine buf with
  | none => (none, ⟨buf, s⟩)
  | some (line, rest) =>
    match m.step s line with
    | .next s' => parse s' rest
    | .halt s' => (none, ⟨rest, s'⟩)
    | .fail e s' => (some e, ⟨rest, s'⟩)
  termination_by buf.length
  decreasing_by exact cutLine_length h

theorem parse_none {m : LineMachine σ ε} {buf : Bytes} (hcut : cutLine buf = none) (s : σ) :
    m.parse s buf = (none, ⟨buf, s⟩) := by
  fun_cases parse m s buf <;> simp_all

variable {s s' : σ}

theorem parse_next {m : LineMachine σ ε} {buf line rest : Bytes}
    (hcut : cutLine buf = some (line, rest)) (hstep : m.step s line = .next s') :
    m.parse s buf = m.parse s' rest := by
  fun_cases parse m s buf <;> simp_all

def feed (r : LineReader σ) (data : Bytes) : Option ε × LineReader σ :=
  if m.done r.state then (none, r) else m.parse r.state (r.buf ++ data)

/-- Feed pieces until one of them fails. -/
def feedAll : LineReader σ → List Bytes → Option ε × LineReader σ
  | r, [] => (none, r)
  | r, data :: rest =>
    match m.feed r data with
    | (none, r') => feedAll r' rest
    | (some e, r') => (some e, r')

/-- The error and the state after a stream that arrives in these pieces. -/
def result (s : σ) (pieces : List Bytes) : Option ε × σ :=
  let r := m.feedAll ⟨[], s⟩ pieces
  (r.1, r.2.state)

/-- The steps on a list of lines. -/
def runLines : σ → List Bytes → Verdict σ ε
  | s, [] => .next s
  | s, line :: rest =>
    match m.step s line with
    | .next s' => runLines s' rest
    | .halt s' => .halt s'
    | .fail e s' => .fail e s'

attribute [local simp] lines runLines Verdict.ending feed

variable {m}

theorem runLines_next {s s' : σ} {line : Bytes} (hstep : m.step s line = .next s')
    (rest : List Bytes) : m.runLines s (line :: rest) = m.runLines s' rest := by
  rw [runLines, hstep]

theorem runLines_fail {s s' : σ} {e : ε} {line : Bytes} (hstep : m.step s line = .fail e s')
    (rest : List Bytes) : m.runLines s (line :: rest) = .fail e s' := by
  rw [runLines, hstep]

theorem runLines_append (s : σ) (front back : List Bytes) :
    m.runLines s (front ++ back) =
      match m.runLines s front with
      | .next s' => m.runLines s' back
      | verdict => verdict := by
  induction front generalizing s with
  | nil => rfl
  | cons line front ih =>
    simp only [cons_append, runLines]
    cases m.step s line with
    | next s₁ => exact ih s₁
    | halt s₁ | fail e s₁ => rfl

theorem runLines_append_next {front : List Bytes} (hfront : m.runLines s front = .next s')
    (back : List Bytes) :
    m.runLines s (front ++ back) = m.runLines s' back := by
  rw [runLines_append, hfront]

theorem runLines_append_stop {s : σ} {front : List Bytes}
    (hfront : ∀ s', m.runLines s front ≠ .next s') (back : List Bytes) :
    m.runLines s (front ++ back) = m.runLines s front := by
  rw [runLines_append]
  cases hrun : m.runLines s front with
  | next s' => exact absurd hrun (hfront s')
  | halt s' | fail e s' => rfl

theorem runLines_halt_done {ls : List Bytes} (h : m.runLines s ls = .halt s') :
    m.done s' = true := by
  induction ls generalizing s with
  | nil => cases h
  | cons line ls ih =>
    simp only [runLines] at h
    cases hstep : m.step s line with
    | next s₁ =>
      simp only [hstep] at h
      exact ih h
    | halt s₁ =>
      simp only [hstep, Verdict.halt.injEq] at h
      subst h
      exact m.halt_done hstep
    | fail e s₁ => simp [hstep] at h

/-- The loop runs the steps on the lines of the buffer. When they all go on,
the buffer keeps the unfinished line. -/
theorem parse_spec (s : σ) (buf : Bytes) :
    ∃ rest, m.parse s buf = ((m.runLines s (lines buf)).ending.1,
        ⟨rest, (m.runLines s (lines buf)).ending.2⟩) ∧
      ∀ s', m.runLines s (lines buf) = .next s' → rest = (splitLines [] buf).2 := by
  have hsplit := cutLine_eq [] buf
  fun_induction parse m s buf with
  | case1 s buf hcut => exact ⟨buf, by simp_all⟩
  | case2 s buf line rest hcut s₁ hstep ih =>
    rw [hcut] at hsplit
    simpa [hstep, hsplit] using ih (cutLine_eq [] rest)
  | case3 s buf line rest hcut s₁ hstep => exact ⟨rest, by simp_all⟩
  | case4 s buf line rest hcut e s₁ hstep => exact ⟨rest, by simp_all⟩

theorem feedAll_done {r : LineReader σ} (hdone : m.done r.state = true) (pieces : List Bytes) :
    m.feedAll r pieces = (none, r) := by
  induction pieces with
  | nil => rfl
  | cons data pieces ih => simp [feedAll, hdone, ih]

theorem feedAll_append (r : LineReader σ) (p q : List Bytes) :
    m.feedAll r (p ++ q) =
      match m.feedAll r p with
      | (none, r') => m.feedAll r' q
      | (some e, r') => (some e, r') := by
  induction p generalizing r with
  | nil => rfl
  | cons data p ih =>
    simp only [cons_append, feedAll]
    rcases m.feed r data with ⟨_ | e, r'⟩
    · exact ih r'
    · rfl

/-- The pieces are read as a front part of the lines: all of them, or up to a
line after which the state is done. -/
theorem feedAll_spec {carry : Bytes} (hcarry : newline ∉ carry) (s : σ) (pieces : List Bytes) :
    ∃ front back, (splitLines carry pieces.flatten).1 = front ++ back ∧
      ((m.feedAll ⟨carry, s⟩ pieces).1, (m.feedAll ⟨carry, s⟩ pieces).2.state) =
        (m.runLines s front).ending ∧
      (back = [] ∨ ∃ s', m.runLines s front = .next s' ∧ m.done s' = true) := by
  induction pieces generalizing carry s with
  | nil => exact ⟨[], [], rfl, rfl, Or.inl rfl⟩
  | cons data pieces ih =>
    by_cases hdone : m.done s = true
    · refine ⟨[], _, rfl, ?_, Or.inr ⟨s, rfl, hdone⟩⟩
      rw [feedAll_done hdone]
      rfl
    · have hfeed : m.feed ⟨carry, s⟩ data = m.parse s (carry ++ data) := by
        simp [hdone]
      have hsplit : splitLines [] (carry ++ data) = splitLines carry data :=
        splitLines_carry hcarry [] data
      obtain ⟨rest, hparse, hrest⟩ := parse_spec (m := m) s (carry ++ data)
      simp only [lines, hsplit] at hparse hrest
      have hall : (splitLines carry (data :: pieces).flatten).1 =
          (splitLines carry data).1 ++
            (splitLines (splitLines carry data).2 pieces.flatten).1 := by
        rw [flatten_cons, splitLines_append]
      cases hrun : m.runLines s (splitLines carry data).1 with
      | next s' =>
        obtain rfl := hrest s' hrun
        obtain ⟨front, back, hlines, hresult, hback⟩ :=
          ih (newline_notMem_splitLines hcarry data) s'
        refine ⟨(splitLines carry data).1 ++ front, back, ?_, ?_, ?_⟩
        · rw [hall, hlines, append_assoc]
        · rw [runLines_append_next hrun]
          simpa only [feedAll, hfeed, hparse, hrun, Verdict.ending] using hresult
        · rw [runLines_append_next hrun]
          exact hback
      | halt s' =>
        -- the rest of the pieces is dropped, as are the lines after the halt
        refine ⟨_, [], by rw [append_nil], ?_, Or.inl rfl⟩
        rw [hall, runLines_append_stop (by simp [hrun]), hrun]
        simp only [feedAll, hfeed, hparse, hrun, Verdict.ending]
        rw [feedAll_done (runLines_halt_done hrun)]
      | fail e s' =>
        refine ⟨_, [], by rw [append_nil], ?_, Or.inl rfl⟩
        rw [hall, runLines_append_stop (by simp [hrun]), hrun]
        simp only [feedAll, hfeed, hparse, hrun, Verdict.ending]

theorem result_spec (s : σ) (pieces : List Bytes) :
    ∃ front back, lines pieces.flatten = front ++ back ∧
      m.result s pieces = (m.runLines s front).ending ∧
      (back = [] ∨ ∃ s', m.runLines s front = .next s' ∧ m.done s' = true) :=
  feedAll_spec not_mem_nil s pieces

theorem result_whole {s : σ} (hs : m.done s = false) (stream : Bytes) :
    m.result s [stream] = (m.runLines s (lines stream)).ending := by
  obtain ⟨rest, hparse, -⟩ := parse_spec (m := m) s stream
  cases hrun : m.runLines s (lines stream) <;> simp_all [result, feedAll]

theorem result_pair (hs : m.done s = false) {p : Bytes}
    (hread : m.runLines s (lines p) = .next s') (hdone : m.done s' = true) (q : Bytes) :
    m.result s [p, q] = (none, s') := by
  obtain ⟨rest, hparse, -⟩ := parse_spec (m := m) s p
  rw [hread] at hparse
  simp [result, feedAll, hs, hparse, hdone]

theorem result_cut (hs : m.done s = false) {stream : Bytes} {front back : List Bytes}
    (hlines : lines stream = front ++ back) (hfront : m.runLines s front = .next s')
    (hdone : m.done s' = true) :
    ∃ p q, p ++ q = stream ∧ m.result s [p, q] = (none, s') := by
  obtain ⟨p, q, hpq, hp⟩ := exists_cut hlines (Or.inr rfl)
  refine ⟨p, q, hpq.symm, result_pair hs ?_ hdone q⟩
  rw [lines, hp]
  exact hfront

/-- However the stream is cut into pieces, the same is observed. -/
def ChunkingInvariant (m : LineMachine σ ε) (observe : Option ε × σ → ω) (s : σ)
    (stream : Bytes) : Prop :=
  ∀ p q : List Bytes, p.flatten = stream → q.flatten = stream →
    observe (m.result s p) = observe (m.result s q)

/-- The result at any line after which the state is done has to be the result
at the end. -/
theorem chunkingInvariant_iff (observe : Option ε × σ → ω) {s : σ} (hs : m.done s = false)
    (stream : Bytes) :
    m.ChunkingInvariant observe s stream ↔
      ∀ front back s', lines stream = front ++ back → m.runLines s front = .next s' →
        m.done s' = true →
        observe (none, s') = observe (m.runLines s (lines stream)).ending := by
  constructor
  · intro hinv front back s' hlines hfront hdone
    obtain ⟨p, q, hpq, hcut⟩ := result_cut hs hlines hfront hdone
    have hsame := hinv [p, q] [stream] (by simpa using hpq) (by simp)
    rwa [hcut, result_whole hs] at hsame
  · intro hall
    have hone : ∀ p : List Bytes, p.flatten = stream →
        observe (m.result s p) = observe (m.runLines s (lines stream)).ending := by
      rintro p rfl
      obtain ⟨front, back, hlines, hresult, hback⟩ := result_spec (m := m) s p
      rw [hresult]
      rcases hback with rfl | ⟨s', hrun, hdone⟩
      · rw [hlines, append_nil]
      · rw [hrun]
        exact hall front back s' hlines hrun hdone
    intro p q hp hq
    rw [hone p hp, hone q hq]

/-- A machine that ends the loop as soon as it is done does not show the cuts. -/
theorem chunkingInvariant_of_halts (observe : Option ε × σ → ω) {s : σ} (hs : m.done s = false)
    (hhalts : ∀ s line s', m.done s = false → m.step s line = .next s' → m.done s' = false)
    (stream : Bytes) : m.ChunkingInvariant observe s stream := by
  have hrunning : ∀ (front : List Bytes) (s s' : σ), m.done s = false →
      m.runLines s front = .next s' → m.done s' = false := by
    intro front
    induction front with
    | nil =>
      intro s s' hs hrun
      cases hrun
      exact hs
    | cons line front ih =>
      intro s s' hs hrun
      simp only [runLines] at hrun
      cases hstep : m.step s line with
      | next s₁ =>
        simp only [hstep] at hrun
        exact ih s₁ s' (hhalts s line s₁ hs hstep) hrun
      | halt s₁ | fail e s₁ => simp [hstep] at hrun
  rw [chunkingInvariant_iff observe hs]
  intro front back s' _ hrun hdone
  rw [hrunning front s s' hs hrun] at hdone
  cases hdone

/-- Every line that is read in a done state is a quiet one. -/
def Settled (m : LineMachine σ ε) (quiet : σ → Bytes → Prop) : σ → List Bytes → Prop
  | _, [] => True
  | s, line :: rest =>
    (m.done s = true → quiet s line) ∧
      ∀ s', m.step s line = .next s' → m.Settled quiet s' rest

section

variable {quiet : σ → Bytes → Prop} {observe : Option ε × σ → ω}

theorem Settled.of_append {s s' : σ} {front back : List Bytes}
    (h : m.Settled quiet s (front ++ back)) (hfront : m.runLines s front = .next s') :
    m.Settled quiet s' back := by
  induction front generalizing s with
  | nil =>
    cases hfront
    exact h
  | cons line front ih =>
    simp only [runLines] at hfront
    cases hstep : m.step s line with
    | next s₁ =>
      simp only [hstep] at hfront
      exact ih (h.2 s₁ hstep) hfront
    | halt s₁ | fail e s₁ => simp [hstep] at hfront

variable
  (hlasts : ∀ s line s', m.done s = true → m.step s line = .next s' → m.done s' = true)
  (hquiet : ∀ s line, m.done s = true →
    (quiet s line ↔ observe (m.step s line).ending = observe (none, s)))
include hlasts hquiet

theorem Settled.observe_eq {s : σ} (hdone : m.done s = true) {ls : List Bytes}
    (h : m.Settled quiet s ls) :
    observe (m.runLines s ls).ending = observe (none, s) := by
  induction ls generalizing s with
  | nil => rfl
  | cons line ls ih =>
    have hsame := (hquiet s line hdone).mp (h.1 hdone)
    simp only [runLines]
    cases hstep : m.step s line with
    | next s₁ =>
      rw [hstep] at hsame
      exact (ih (hlasts s line s₁ hdone hstep) (h.2 s₁ hstep)).trans hsame
    | halt s₁ | fail e s₁ => rwa [hstep] at hsame

/-- A machine that reads on after it is done does not show the cuts exactly
when the lines it would then read are quiet ones. -/
theorem chunkingInvariant_iff_settled {s : σ} (hs : m.done s = false) (stream : Bytes) :
    m.ChunkingInvariant observe s stream ↔ m.Settled quiet s (lines stream) := by
  rw [chunkingInvariant_iff observe hs]
  constructor
  · intro hall
    have hsettled : ∀ back front s', lines stream = front ++ back →
        m.runLines s front = .next s' → m.Settled quiet s' back := by
      intro back
      induction back with
      | nil =>
        intro front s' _ _
        trivial
      | cons line back ih =>
        intro front s' hlines hfront
        have hnext : lines stream = (front ++ [line]) ++ back := by simpa using hlines
        refine ⟨fun hdone => ?_, fun s₁ hstep => ?_⟩
        · rw [hquiet s' line hdone, hall front _ s' hlines hfront hdone, hlines,
            runLines_append_next hfront]
          cases hstep : m.step s' line with
          | next s₁ =>
            have hone : m.runLines s (front ++ [line]) = .next s₁ := by
              rw [runLines_append_next hfront]
              simp [hstep]
            have hsame := hall _ _ s₁ hnext hone (hlasts s' line s₁ hdone hstep)
            rw [hlines, runLines_append_next hfront] at hsame
            exact hsame
          | halt s₁ | fail e s₁ => simp [hstep]
        · apply ih (front ++ [line]) s₁ hnext
          rw [runLines_append_next hfront]
          simp [hstep]
    exact hsettled _ [] s rfl rfl
  · intro h front back s' hlines hfront hdone
    rw [hlines] at h ⊢
    rw [runLines_append_next hfront]
    exact ((h.of_append hfront).observe_eq hlasts hquiet hdone).symm

end

section

variable {τ ε' : Type*} {w : LineMachine τ ε'} {R : σ → τ → Prop} {bad : τ → Prop}

/-- A second reader of the same lines that goes on where the first one fails
and remembers that it did. -/
structure Watches (m : LineMachine σ ε) (w : LineMachine τ ε') (R : σ → τ → Prop)
    (bad : τ → Prop) : Prop where
  done : ∀ {s t}, R s t → m.done s = w.done t
  good : ∀ {s t}, R s t → ¬bad t
  step : ∀ {s t}, R s t → ∀ line, ∃ t', w.step t line = .next t' ∧
    ((∃ s', m.step s line = .next s' ∧ R s' t') ∨ (∃ e s', m.step s line = .fail e s') ∧ bad t')
  stays : ∀ {t}, bad t → ∀ line, ∃ t', w.step t line = .next t' ∧ bad t'

variable (h : Watches m w R bad)

include h

theorem Watches.parse_bad {t : τ} (ht : bad t) (buf : Bytes) :
    ∃ r, w.parse t buf = (none, r) ∧ bad r.state := by
  fun_induction parse w t buf with
  | case1 t buf hcut => exact ⟨_, rfl, ht⟩
  | case2 t buf line rest hcut t₁ hstep ih =>
    obtain ⟨t', ⟨⟩, hbad⟩ := hstep ▸ h.stays ht line
    exact ih hbad
  | case3 t buf line rest hcut t₁ hstep => obtain ⟨_, ⟨⟩, -⟩ := hstep ▸ h.stays ht line
  | case4 t buf line rest hcut e t₁ hstep => obtain ⟨_, ⟨⟩, -⟩ := hstep ▸ h.stays ht line

theorem Watches.feedAll_bad {r : LineReader τ} (hr : bad r.state) (pieces : List Bytes) :
    bad (w.feedAll r pieces).2.state := by
  induction pieces generalizing r with
  | nil => exact hr
  | cons data pieces ih =>
    by_cases hdone : w.done r.state = true
    · rw [feedAll_done hdone]
      exact hr
    · obtain ⟨r', hparse, hbad⟩ := h.parse_bad hr (r.buf ++ data)
      simp only [feedAll, feed, hdone, hparse]
      exact ih hbad

theorem Watches.parse {s : σ} {t : τ} (hst : R s t) (buf : Bytes) :
    (∃ rest s' t', m.parse s buf = (none, ⟨rest, s'⟩) ∧ w.parse t buf = (none, ⟨rest, t'⟩) ∧
        R s' t') ∨
      (∃ e r, m.parse s buf = (some e, r)) ∧ ∃ r, w.parse t buf = (none, r) ∧ bad r.state := by
  fun_induction LineMachine.parse m s buf generalizing t with
  | case1 s buf hcut => exact Or.inl ⟨buf, s, t, rfl, parse_none hcut t, hst⟩
  | case2 s buf line rest hcut s₁ hstep ih =>
    have hm := hstep ▸ h.step hst line
    obtain ⟨t', hnext, ⟨_, ⟨⟩, hst'⟩ | ⟨⟨_, _, ⟨⟩⟩, -⟩⟩ := hm
    rw [parse_next hcut hnext]
    exact ih hst'
  | case3 s buf line rest hcut s₁ hstep =>
    have hm := hstep ▸ h.step hst line
    obtain ⟨-, -, ⟨_, ⟨⟩, -⟩ | ⟨⟨_, _, ⟨⟩⟩, -⟩⟩ := hm
  | case4 s buf line rest hcut e s₁ hstep =>
    have hm := hstep ▸ h.step hst line
    obtain ⟨t', hnext, ⟨_, ⟨⟩, -⟩ | ⟨-, hbad⟩⟩ := hm
    refine .inr ⟨⟨e, _, rfl⟩, ?_⟩
    rw [parse_next hcut hnext]
    exact h.parse_bad hbad rest

theorem Watches.feedAll {s : σ} {t : τ} (hst : R s t) (buf : Bytes) (pieces : List Bytes) :
    (m.feedAll ⟨buf, s⟩ pieces).1 = none ↔ ¬bad (w.feedAll ⟨buf, t⟩ pieces).2.state := by
  induction pieces generalizing s t buf with
  | nil => simpa [LineMachine.feedAll] using h.good hst
  | cons data pieces ih =>
    have hdone := h.done hst
    by_cases hm : m.done s = true
    · rw [feedAll_done (m := m) hm, feedAll_done (m := w) (hdone.symm.trans hm)]
      simpa using h.good hst
    · have hw : ¬w.done t = true := by rwa [← hdone]
      rcases h.parse hst (buf ++ data) with
        ⟨rest, s', t', hs', ht', hst'⟩ | ⟨⟨e, r, hfail⟩, r', ht', hbad⟩
      · simp only [LineMachine.feedAll, feed, hm, hw, hs', ht']
        exact ih hst' rest
      · simp only [LineMachine.feedAll, feed, hm, hw, hfail, ht']
        simpa using h.feedAll_bad hbad pieces

end

end LineMachine

end BuiltOnEnvoy.Foundations
