import TowerOfHanoi.Log.Event

/-!
# Sessions

A computation that changes a state, tells events and may fail, as a function. Neither the state
nor the events are lost by a failure: what happened before it has happened. Events are kept as they
were told; deciding which of them anyone sees is not part of a session, so no session can depend
on it.
-/

namespace TowerOfHanoi

/-- What came of a session: a result, the last state, and the events in the order they were told. -/
structure Trace (σ ε α : Type) where
  result : Except ε α
  state : σ
  events : List Log.Event

/-- A computation with result `α`, failures `ε` and state `σ`. -/
def Session (σ ε α : Type) : Type := σ → Trace σ ε α

namespace Session

variable {σ ε α β : Type}

/-- Carries the session out from a first state. -/
def run (x : Session σ ε α) (s : σ) : Trace σ ε α := x s

/-- Changes nothing and gives `a`. -/
@[inline]
protected def pure (a : α) : Session σ ε α := fun s => ⟨.ok a, s, []⟩

/-- Goes on with `f` unless `x` fails. -/
@[inline]
protected def bind (x : Session σ ε α) (f : α → Session σ ε β) : Session σ ε β := fun s =>
  match x s with
  | ⟨.error e, s, events⟩ => ⟨.error e, s, events⟩
  | ⟨.ok a, s, events⟩ =>
    match f a s with
    | ⟨r, s, later⟩ => ⟨r, s, events ++ later⟩

instance : Monad (Session σ ε) where
  pure := Session.pure
  bind := Session.bind

/-- Fails. -/
@[inline]
protected def throw (e : ε) : Session σ ε α := fun s => ⟨.error e, s, []⟩

/-- Goes on with `handle` if `x` fails. -/
@[inline]
protected def tryCatch (x : Session σ ε α) (handle : ε → Session σ ε α) : Session σ ε α := fun s =>
  match x s with
  | ⟨.ok a, s, events⟩ => ⟨.ok a, s, events⟩
  | ⟨.error e, s, events⟩ =>
    match handle e s with
    | ⟨r, s, later⟩ => ⟨r, s, events ++ later⟩

instance : MonadExcept ε (Session σ ε) where
  throw := Session.throw
  tryCatch := Session.tryCatch

instance : Log.Logger (Session σ ε) where
  log event := fun s => ⟨.ok (), s, [event]⟩

/-- A step on the state that gives a value. -/
@[inline]
def step (f : σ → α × σ) : Session σ ε α := fun s =>
  match f s with
  | (a, s) => ⟨.ok a, s, []⟩

/-! ## What each operation does -/

@[simp]
theorem run_pure (a : α) (s : σ) : (pure a : Session σ ε α).run s = ⟨.ok a, s, []⟩ := rfl

@[simp]
theorem run_throw (e : ε) (s : σ) : (throw e : Session σ ε α).run s = ⟨.error e, s, []⟩ := rfl

@[simp]
theorem run_log (event : Log.Event) (s : σ) :
    (Log.log event : Session σ ε Unit).run s = ⟨.ok (), s, [event]⟩ := rfl

@[simp]
theorem run_step (f : σ → α × σ) (s : σ) :
    (step f : Session σ ε α).run s = ⟨.ok (f s).1, (f s).2, []⟩ := rfl

theorem run_bind (x : Session σ ε α) (f : α → Session σ ε β) (s : σ) :
    (x >>= f).run s =
      match x.run s with
      | ⟨.error e, s, events⟩ => ⟨.error e, s, events⟩
      | ⟨.ok a, s, events⟩ => ⟨((f a).run s).result, ((f a).run s).state, events ++ ((f a).run s).events⟩ :=
  rfl

theorem run_bind_ok {x : Session σ ε α} {f : α → Session σ ε β} {s t : σ} {a : α}
    {events : List Log.Event} (h : x.run s = ⟨.ok a, t, events⟩) :
    (x >>= f).run s =
      ⟨((f a).run t).result, ((f a).run t).state, events ++ ((f a).run t).events⟩ := by
  rw [run_bind, h]

theorem run_bind_error {x : Session σ ε α} {f : α → Session σ ε β} {s t : σ} {e : ε}
    {events : List Log.Event} (h : x.run s = ⟨.error e, t, events⟩) :
    (x >>= f).run s = ⟨.error e, t, events⟩ := by
  rw [run_bind, h]

/-! ## The laws of a monad -/

private theorem bind_pure_eq (x : Session σ ε α) : (x >>= fun a => pure a) = x := by
  funext s
  change (x >>= fun a => pure a).run s = x.run s
  rw [run_bind]
  match x.run s with
  | ⟨.ok _, _, _⟩ => simp
  | ⟨.error _, _, _⟩ => rfl

private theorem bind_bind_eq {γ : Type} (x : Session σ ε α) (f : α → Session σ ε β)
    (g : β → Session σ ε γ) : ((x >>= f) >>= g) = (x >>= fun a => f a >>= g) := by
  funext s
  change ((x >>= f) >>= g).run s = (x >>= fun a => f a >>= g).run s
  match hx : x.run s with
  | ⟨.error _, _, _⟩ => rw [run_bind_error hx, run_bind_error (run_bind_error hx)]
  | ⟨.ok a, t, _⟩ =>
    have h := run_bind_ok (f := f) hx
    rw [run_bind_ok hx]
    match hf : (f a).run t with
    | ⟨.error _, _, _⟩ =>
      rw [hf] at h
      rw [run_bind_error h, run_bind_error hf]
    | ⟨.ok _, _, _⟩ =>
      rw [hf] at h
      rw [run_bind_ok h, run_bind_ok hf]
      simp

instance : LawfulMonad (Session σ ε) :=
  LawfulMonad.mk' _ (fun x => bind_pure_eq x) (fun _ _ => rfl) fun x f g => bind_bind_eq x f g

end Session

end TowerOfHanoi
