import Warrant.Event

/-!
# Calls on a state

A call takes a state, answers or fails, leaves the next state and emits events. A failure keeps
both the state and the events as they are at that point; nothing is undone.
-/

namespace Warrant

structure Outcome (σ ε α : Type) where
  answer : Except ε α
  state : σ
  /-- What it emitted, the oldest first. -/
  events : List Event

/-- A call on a state of type `σ` that answers an `α` or fails with an `ε`. -/
def Call (σ ε α : Type) : Type := σ → Outcome σ ε α

namespace Call

variable {σ τ ε ε' α β : Type}

def run (c : Call σ ε α) (s : σ) : Outcome σ ε α := c s

def ret (a : α) : Call σ ε α := fun s => ⟨.ok a, s, []⟩

/-- Goes on with the answer of the first call; its failure is that of the whole. -/
def andThen (c : Call σ ε α) (f : α → Call σ ε β) : Call σ ε β := fun s =>
  match c s with
  | ⟨.error e, s', events⟩ => ⟨.error e, s', events⟩
  | ⟨.ok a, s', events⟩ =>
    let next := f a s'
    ⟨next.answer, next.state, events ++ next.events⟩

instance : Monad (Call σ ε) where
  pure := ret
  bind := andThen

@[simp] theorem pure_apply (a : α) (s : σ) : (pure a : Call σ ε α) s = ⟨.ok a, s, []⟩ := rfl

theorem bind_apply (c : Call σ ε α) (f : α → Call σ ε β) (s : σ) :
    (c >>= f) s = match c s with
      | ⟨.error e, s', events⟩ => ⟨.error e, s', events⟩
      | ⟨.ok a, s', events⟩ => ⟨(f a s').answer, (f a s').state, events ++ (f a s').events⟩ := rfl

theorem bind_of_ok {c : Call σ ε α} {f : α → Call σ ε β} {s s' : σ} {a : α} {events : List Event}
    (h : c s = ⟨.ok a, s', events⟩) :
    (c >>= f) s = ⟨(f a s').answer, (f a s').state, events ++ (f a s').events⟩ := by
  rw [bind_apply, h]

theorem bind_of_error {c : Call σ ε α} {f : α → Call σ ε β} {s s' : σ} {e : ε}
    {events : List Event} (h : c s = ⟨.error e, s', events⟩) :
    (c >>= f) s = ⟨.error e, s', events⟩ := by
  rw [bind_apply, h]

def fail (e : ε) : Call σ ε α := fun s => ⟨.error e, s, []⟩

@[simp] theorem fail_apply (e : ε) (s : σ) : (fail e : Call σ ε α) s = ⟨.error e, s, []⟩ := rfl

def emit (events : List Event) : Call σ ε Unit := fun s => ⟨.ok (), s, events⟩

@[simp] theorem emit_apply (events : List Event) (s : σ) :
    (emit events : Call σ ε Unit) s = ⟨.ok (), s, events⟩ := rfl

def read (f : σ → α) : Call σ ε α := fun s => ⟨.ok (f s), s, []⟩

@[simp] theorem read_apply (f : σ → α) (s : σ) :
    (read f : Call σ ε α) s = ⟨.ok (f s), s, []⟩ := rfl

def change (f : σ → α × σ) : Call σ ε α := fun s => ⟨.ok (f s).1, (f s).2, []⟩

@[simp] theorem change_apply (f : σ → α × σ) (s : σ) :
    (change f : Call σ ε α) s = ⟨.ok (f s).1, (f s).2, []⟩ := rfl

/-- Carries out a call on a part of the state, its failures renamed. -/
def onPart (get : τ → σ) (set : τ → σ → τ) (rename : ε → ε') (c : Call σ ε α) : Call τ ε' α :=
  fun t =>
    let part := c (get t)
    ⟨part.answer.mapError rename, set t part.state, part.events⟩

end Call

end Warrant
