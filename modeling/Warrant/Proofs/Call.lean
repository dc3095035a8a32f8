import Warrant.Call

/-!
# Reasoning about calls

`Call.Ends` says how one call ends, in an answer or in a failure; `Call.Keeps` says what it leaves
as it is; `Call.Simulates` says that two calls on related states answer alike and leave related
states. All three follow the way a call is put together, so a call is described without looking
into its parts. Events are left aside.
-/

namespace Warrant.Call

variable {σ τ ε ε' α β : Type}

/-! ### How a call ends -/

/-- The call answers as `ok` says, or fails as `err` says, each about the state that it leaves. -/
def Ends (c : Call σ ε α) (s : σ) (ok : α → σ → Prop) (err : ε → σ → Prop) : Prop :=
  match (c s).answer with
  | .ok a => ok a (c s).state
  | .error e => err e (c s).state

variable {c : Call σ ε α} {s : σ} {ok ok' : α → σ → Prop} {err err' : ε → σ → Prop}

theorem ends_congr {d : Call σ ε α} (h : c s = d s) : c.Ends s ok err ↔ d.Ends s ok err := by
  unfold Ends
  rw [h]

theorem Ends.of_ok {a : α} (h : c.Ends s ok err) (ha : (c s).answer = .ok a) :
    ok a (c s).state := by
  unfold Ends at h
  rw [ha] at h
  exact h

theorem Ends.of_error {e : ε} (h : c.Ends s ok err) (he : (c s).answer = .error e) :
    err e (c s).state := by
  unfold Ends at h
  rw [he] at h
  exact h

theorem Ends.answers (h : c.Ends s ok err) (hnever : ∀ e t, ¬ err e t) :
    ∃ a, (c s).answer = .ok a ∧ ok a (c s).state := by
  unfold Ends at h
  split at h
  · rename_i a ha; exact ⟨a, ha, h⟩
  · exact absurd h (hnever _ _)

theorem Ends.fails (h : c.Ends s ok err) (hnever : ∀ a t, ¬ ok a t) :
    ∃ e, (c s).answer = .error e ∧ err e (c s).state := by
  unfold Ends at h
  split at h
  · exact absurd h (hnever _ _)
  · rename_i e he; exact ⟨e, he, h⟩

theorem Ends.state {P : σ → Prop} (h : c.Ends s (fun _ => P) (fun _ => P)) : P (c s).state := by
  unfold Ends at h
  split at h
  · exact h
  · exact h

def Answers (c : Call σ ε α) (s : σ) (a : α) (t : σ) : Prop :=
  (c s).answer = .ok a ∧ t = (c s).state

theorem ends_self (c : Call σ ε α) (s : σ) :
    c.Ends s (fun a t => c.Answers s a t)
      (fun e t => (c s).answer = .error e ∧ t = (c s).state) := by
  unfold Ends
  split
  · rename_i a ha; exact ⟨ha, rfl⟩
  · rename_i e he; exact ⟨he, rfl⟩

theorem Ends.mono (h : c.Ends s ok err) (hok : ∀ a t, ok a t → ok' a t)
    (herr : ∀ e t, err e t → err' e t) : c.Ends s ok' err' := by
  unfold Ends at h ⊢
  split at h
  · exact hok _ _ h
  · exact herr _ _ h

theorem Ends.and (h : c.Ends s ok err) (h' : c.Ends s ok' err') :
    c.Ends s (fun a t => ok a t ∧ ok' a t) (fun e t => err e t ∧ err' e t) := by
  unfold Ends at *
  split at h
  · rename_i ha
    rw [ha] at h'
    exact ⟨h, h'⟩
  · rename_i he
    rw [he] at h'
    exact ⟨h, h'⟩

theorem Ends.bind {f : α → Call σ ε β} {next : β → σ → Prop} (h : c.Ends s ok err)
    (hf : ∀ a t, ok a t → (f a).Ends t next err) : (c >>= f).Ends s next err := by
  unfold Ends at h
  unfold Ends
  rw [bind_apply]
  generalize c s = out at h
  obtain ⟨answer, t, events⟩ := out
  cases answer with
  | error e => exact h
  | ok a => exact hf a t h

theorem Ends.dropped {P : σ → Prop} (h : c.Ends s (fun _ => P) err) :
    (do let _ ← c).Ends s (fun _ => P) err :=
  h.bind fun _ _ => id

/-- After a first call whose outcome is known, the rest decides. -/
theorem ends_bind_of_ok {f : α → Call σ ε β} {next : β → σ → Prop} {a : α} {t : σ}
    {events : List Event} (h : c s = ⟨.ok a, t, events⟩) :
    (c >>= f).Ends s next err ↔ (f a).Ends t next err := by
  unfold Ends
  rw [bind_of_ok h]

/-- A call that answers and emits nothing leaves the rest to the next one. -/
theorem bind_of_silent {f : α → Call σ ε β} {a : α} {t : σ} (h : c s = ⟨.ok a, t, []⟩) :
    (c >>= f) s = f a t :=
  bind_of_ok h

theorem ends_pure {a : α} : (pure a : Call σ ε α).Ends s ok err ↔ ok a s := Iff.rfl

theorem ends_fail {e : ε} : (fail e : Call σ ε α).Ends s ok err ↔ err e s := Iff.rfl

theorem ends_emit {events : List Event} {ok : Unit → σ → Prop} :
    (emit events : Call σ ε Unit).Ends s ok err ↔ ok () s := Iff.rfl

theorem ends_emit_bind {events : List Event} {f : Unit → Call σ ε α} :
    (emit events >>= f).Ends s ok err ↔ (f ()).Ends s ok err := Iff.rfl

theorem ends_read_bind {f : σ → α} {g : α → Call σ ε β} {ok : β → σ → Prop} :
    (read f >>= g).Ends s ok err ↔ (g (f s)).Ends s ok err := Iff.rfl

theorem Ends.onPart {get : τ → σ} {set : τ → σ → τ} {rename : ε → ε'} {t : τ}
    (h : c.Ends (get t) ok err) :
    (c.onPart get set rename).Ends t (fun a t' => ∃ s', ok a s' ∧ t' = set t s')
      (fun e' t' => ∃ e s', err e s' ∧ e' = rename e ∧ t' = set t s') := by
  unfold Ends at h
  unfold Ends Call.onPart
  dsimp only
  cases hc : (c (get t)).answer with
  | ok a => rw [hc] at h; exact ⟨_, h, rfl⟩
  | error e => rw [hc] at h; exact ⟨e, _, h, rfl, rfl⟩

theorem onPart_bind {get : τ → σ} {set : τ → σ → τ} {rename : ε → ε'} {f : α → Call σ ε β}
    (hget : ∀ t s, get (set t s) = s) (hset : ∀ t s s', set (set t s) s' = set t s') :
    (c >>= f).onPart get set rename =
      c.onPart get set rename >>= fun a => (f a).onPart get set rename := by
  funext t
  rw [bind_apply]
  unfold Call.onPart
  dsimp only
  rw [bind_apply]
  generalize c (get t) = out
  obtain ⟨answer, s, events⟩ := out
  cases answer with
  | error e => rfl
  | ok a =>
    show Outcome.mk _ _ _ = Outcome.mk _ _ _
    rw [hget, hset]

theorem answer_bind_pure {f : α → β} :
    ((c >>= fun a => pure (f a)) s).answer = (c s).answer.map f := by
  rw [bind_apply]
  generalize c s = out
  obtain ⟨answer, t, events⟩ := out
  cases answer <;> rfl

theorem state_bind_pure {f : α → β} : ((c >>= fun a => pure (f a)) s).state = (c s).state := by
  rw [bind_apply]
  generalize c s = out
  obtain ⟨answer, t, events⟩ := out
  cases answer <;> rfl

/-! ### What a call leaves alone -/

/-- However the call ends, `view` of the state is as it was. -/
def Keeps {γ : Type} (view : σ → γ) (c : Call σ ε α) : Prop := ∀ s, view (c s).state = view s

section Keeps

variable {γ : Type} {view : σ → γ}

theorem Keeps.bind {f : α → Call σ ε β} (h : Keeps view c) (hf : ∀ a, Keeps view (f a)) :
    Keeps view (c >>= f) := by
  intro s
  have hs := h s
  rw [bind_apply]
  generalize c s = out at hs
  obtain ⟨answer, t, events⟩ := out
  cases answer with
  | error e => exact hs
  | ok a => exact (hf a t).trans hs

theorem Keeps.ends (h : Keeps view c) (s : σ) :
    c.Ends s (fun _ t => view t = view s) (fun _ t => view t = view s) := by
  unfold Ends
  split
  · exact h s
  · exact h s

theorem keeps_pure (a : α) : Keeps view (pure a : Call σ ε α) := fun _ => rfl

theorem keeps_fail (e : ε) : Keeps view (fail e : Call σ ε α) := fun _ => rfl

theorem keeps_emit (events : List Event) : Keeps view (emit events : Call σ ε Unit) := fun _ => rfl

theorem keeps_read (f : σ → α) : Keeps view (read f : Call σ ε α) := fun _ => rfl

end Keeps

/-! ### Two calls side by side -/

/-- From states in relation, both calls answer alike and leave states in relation. -/
def Simulates (R : σ → τ → Prop) (c : Call σ ε α) (d : Call τ ε α) : Prop :=
  ∀ s t, R s t → (c s).answer = (d t).answer ∧ R (c s).state (d t).state

variable {R : σ → τ → Prop} {d : Call τ ε α}

theorem Simulates.bind {f : α → Call σ ε β} {g : α → Call τ ε β} (h : Simulates R c d)
    (hf : ∀ a, Simulates R (f a) (g a)) : Simulates R (c >>= f) (d >>= g) := by
  intro s t hst
  obtain ⟨ha, hR⟩ := h s t hst
  rw [bind_apply, bind_apply]
  generalize c s = out at ha hR
  generalize d t = out' at ha hR
  obtain ⟨answer, s', events⟩ := out
  obtain ⟨_, t', events'⟩ := out'
  cases ha
  cases answer with
  | error e => exact ⟨rfl, hR⟩
  | ok a => exact hf a s' t' hR

theorem simulates_pure (a : α) : Simulates R (pure a : Call σ ε α) (pure a) :=
  fun _ _ h => ⟨rfl, h⟩

theorem simulates_fail (e : ε) : Simulates R (fail e : Call σ ε α) (fail e) :=
  fun _ _ h => ⟨rfl, h⟩

theorem simulates_emit (events events' : List Event) :
    Simulates R (emit events : Call σ ε Unit) (emit events') :=
  fun _ _ h => ⟨rfl, h⟩

theorem simulates_read {f : σ → α} {g : τ → α} (h : ∀ s t, R s t → f s = g t) :
    Simulates R (read f : Call σ ε α) (read g) :=
  fun s t hst => ⟨congrArg Except.ok (h s t hst), hst⟩

end Warrant.Call
