import Mathlib.Tactic

/-!
# Programs that emit events

An act reads and writes a state, returns a value and emits events. A triple
speaks of the state and of the events emitted so far; the rules follow the
structure of a program.
-/

namespace BuiltOnEnvoy.Foundations

open List

def Act (σ ε α : Type) := σ → α × σ × List ε

namespace Act

variable {σ ε α β : Type}

instance : Monad (Act σ ε) where
  pure a := fun s => (a, s, [])
  bind x f := fun s =>
    let r := x s
    let q := f r.1 r.2.1
    (q.1, q.2.1, r.2.2 ++ q.2.2)

def get : Act σ ε σ := fun s => (s, s, [])

def modify (f : σ → σ) : Act σ ε Unit := fun s => ((), f s, [])

def emit (events : List ε) : Act σ ε Unit := fun s => ((), s, events)

theorem pure_apply (a : α) (s : σ) : (Pure.pure a : Act σ ε α) s = (a, s, []) := rfl

theorem bind_apply (x : Act σ ε α) (f : α → Act σ ε β) (s : σ) :
    (x >>= f) s = ((f (x s).1 (x s).2.1).1, (f (x s).1 (x s).2.1).2.1,
      (x s).2.2 ++ (f (x s).1 (x s).2.1).2.2) := rfl

/-- From a state and events so far in `P`, the act leads into `Q`. -/
def Triple (P : σ → List ε → Prop) (x : Act σ ε α) (Q : α → σ → List ε → Prop) : Prop :=
  ∀ s log, P s log → Q (x s).1 (x s).2.1 (log ++ (x s).2.2)

namespace Triple

variable {P P' : σ → List ε → Prop} {Q Q' : α → σ → List ε → Prop} {x : Act σ ε α}

theorem pure {a : α} (h : ∀ s log, P s log → Q a s log) : Triple P (Pure.pure a) Q := by
  intro s log hP
  rw [pure_apply, append_nil]
  exact h s log hP

theorem bind {f : α → Act σ ε β} {R : β → σ → List ε → Prop} (hx : Triple P x Q)
    (hf : ∀ a, Triple (Q a) (f a) R) : Triple P (x >>= f) R := by
  intro s log hP
  rw [bind_apply, ← append_assoc]
  exact hf _ _ _ (hx s log hP)

theorem conseq (hx : Triple P x Q) (hP : ∀ s log, P' s log → P s log)
    (hQ : ∀ a s log, Q a s log → Q' a s log) : Triple P' x Q' := by
  intro s log h
  exact hQ _ _ _ (hx s log (hP s log h))

theorem weaken (hx : Triple P x Q) (hQ : ∀ a s log, Q a s log → Q' a s log) : Triple P x Q' :=
  hx.conseq (fun _ _ h => h) hQ

theorem modify {f : σ → σ} {R : Unit → σ → List ε → Prop}
    (h : ∀ s log, P s log → R () (f s) log) : Triple P (Act.modify f) R := by
  intro s log hP
  have hrun : (Act.modify f : Act σ ε Unit) s = ((), f s, []) := rfl
  rw [hrun, append_nil]
  exact h s log hP

theorem emit {events : List ε} {R : Unit → σ → List ε → Prop}
    (h : ∀ s log, P s log → R () s (log ++ events)) : Triple P (Act.emit events) R := by
  intro s log hP
  exact h s log hP

theorem ite {c : Prop} [Decidable c] {x y : Act σ ε α} (hx : c → Triple P x Q)
    (hy : ¬c → Triple P y Q) : Triple P (if c then x else y) Q := by
  split_ifs with hc
  · exact hx hc
  · exact hy hc

end Triple

end Act

end BuiltOnEnvoy.Foundations
