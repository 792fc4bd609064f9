import Mathlib.Tactic

/-! Programs over a store. A run ends in a value, in an error its caller may catch, or
in a panic; the store a run leaves behind survives a caught error unless the run stood
under a savepoint, and what a run has published is never taken back. -/
namespace Txn

/-- The end of a run. -/
inductive Outcome (ε α : Type) where
  | ok (value : α)
  | err (error : ε)
  | panic (message : String)

namespace Outcome
variable {ε α β : Type}

def bind : Outcome ε α → (α → Outcome ε β) → Outcome ε β
  | ok a, f => f a
  | err e, _ => err e
  | panic m, _ => panic m

instance : Monad (Outcome ε) where
  pure := ok
  bind := bind

/-- `?` on a plain result. -/
def ofExcept : Except ε α → Outcome ε α
  | .ok a => ok a
  | .error e => err e

/-- `ok_or` followed by `?`. -/
def okOr (error : ε) : Option α → Outcome ε α
  | some a => ok a
  | none => err error

/-- Return early with an error unless a condition holds. -/
def ensure (c : Prop) [Decidable c] (error : ε) : Outcome ε Unit :=
  if c then ok () else err error

def mapError {ε' : Type} (f : ε → ε') : Outcome ε α → Outcome ε' α
  | ok a => ok a
  | err e => err (f e)
  | panic m => panic m

/-- `unwrap`/`expect` on an option. -/
def unwrap (message : String) : Option α → Outcome ε α
  | some a => ok a
  | none => panic message

def isOk : Outcome ε α → Bool
  | ok _ => true
  | _ => false

theorem isOk_iff (x : Outcome ε α) : x.isOk = true ↔ ∃ a, x = ok a := by
  cases x <;> simp [isOk]

@[simp] theorem pure_eq_ok (a b : α) : (pure a : Outcome ε α) = ok b ↔ b = a := by
  change ok a = ok b ↔ _
  simp [eq_comm]

@[simp] theorem bind_eq_ok (x : Outcome ε α) (f : α → Outcome ε β) (b : β) :
    (x >>= f) = ok b ↔ ∃ a, x = ok a ∧ f a = ok b := by
  change bind x f = ok b ↔ _
  cases x <;> simp [bind]

@[simp] theorem ofExcept_eq_ok (x : Except ε α) (a : α) :
    ofExcept x = ok a ↔ x = .ok a := by
  cases x <;> simp [ofExcept]

theorem except_bind_eq_ok {α β : Type} (x : Except ε α) (f : α → Except ε β) (b : β) :
    (x >>= f) = .ok b ↔ ∃ a, x = .ok a ∧ f a = .ok b := by
  cases x <;> simp [Bind.bind, Except.bind]

theorem except_map_eq_ok {α β : Type} (f : α → β) (x : Except ε α) (b : β) :
    f <$> x = .ok b ↔ ∃ a, x = .ok a ∧ f a = b := by
  cases x <;> simp [Functor.map, Except.map]

theorem except_toOption_eq_some (x : Except ε α) (a : α) : x.toOption = some a ↔ x = .ok a := by
  cases x <;> simp [Except.toOption]

@[simp] theorem except_mapError_eq_ok {ε' : Type} (f : ε → ε') (x : Except ε α) (a : α) :
    x.mapError f = .ok a ↔ x = .ok a := by
  cases x <;> simp [Except.mapError]

@[simp] theorem except_mapError_eq_error {ε' : Type} (f : ε → ε') (x : Except ε α) (e : ε') :
    x.mapError f = .error e ↔ ∃ e', x = .error e' ∧ f e' = e := by
  cases x <;> simp [Except.mapError]

@[simp] theorem okOr_eq_ok (e : ε) (x : Option α) (a : α) :
    okOr e x = ok a ↔ x = some a := by
  cases x <;> simp [okOr]

@[simp] theorem ensure_eq_ok (c : Prop) [Decidable c] (e : ε) (u : Unit) :
    ensure c e = ok u ↔ c := by
  unfold ensure
  split <;> simp [*]

@[simp] theorem mapError_eq_ok {ε' : Type} (f : ε → ε') (x : Outcome ε α) (a : α) :
    mapError f x = ok a ↔ x = ok a := by
  cases x <;> simp [mapError]

@[simp] theorem mapError_eq_err {ε' : Type} (f : ε → ε') (x : Outcome ε α) (e : ε') :
    mapError f x = err e ↔ ∃ e', x = err e' ∧ f e' = e := by
  cases x <;> simp [mapError]

@[simp] theorem unwrap_eq_ok (m : String) (x : Option α) (a : α) :
    (unwrap m x : Outcome ε α) = ok a ↔ x = some a := by
  cases x <;> simp [unwrap]

@[simp] theorem ok_bind (a : α) (f : α → Outcome ε β) : (ok a >>= f) = f a := rfl

@[simp] theorem bind_eq_err (x : Outcome ε α) (f : α → Outcome ε β) (e : ε) :
    (x >>= f) = err e ↔ x = err e ∨ ∃ a, x = ok a ∧ f a = err e := by
  change bind x f = err e ↔ _
  cases x <;> simp [bind]

@[simp] theorem pure_ne_err (a : α) (e : ε) : (pure a : Outcome ε α) ≠ err e := nofun

@[simp] theorem okOr_eq_err (e e' : ε) (x : Option α) : okOr e x = err e' ↔ x = none ∧ e = e' := by
  cases x <;> simp [okOr]

@[simp] theorem unwrap_ne_err (m : String) (x : Option α) (e : ε) : unwrap m x ≠ err e := by
  cases x <;> simp [unwrap]

@[simp] theorem bind_eq_panic (x : Outcome ε α) (f : α → Outcome ε β) (m : String) :
    (x >>= f) = panic m ↔ x = panic m ∨ ∃ a, x = ok a ∧ f a = panic m := by
  change bind x f = panic m ↔ _
  cases x <;> simp [bind]

@[simp] theorem pure_ne_panic (a : α) (m : String) : (pure a : Outcome ε α) ≠ panic m :=
  nofun

@[simp] theorem okOr_ne_panic (e : ε) (x : Option α) (m : String) : okOr e x ≠ panic m := by
  cases x <;> simp [okOr]

@[simp] theorem ensure_ne_panic (c : Prop) [Decidable c] (e : ε) (m : String) :
    ensure c e ≠ panic m := by
  unfold ensure
  split <;> simp

@[simp] theorem unwrap_eq_panic (m m' : String) (x : Option α) :
    (unwrap m x : Outcome ε α) = panic m' ↔ x = none ∧ m = m' := by
  cases x <;> simp [unwrap]

@[simp] theorem okOr_some (e : ε) (a : α) : okOr e (some a) = ok a := rfl

@[simp] theorem unwrap_some (m : String) (a : α) : (unwrap m (some a) : Outcome ε α) = ok a := rfl

theorem ensure_of {c : Prop} [Decidable c] (h : c) (e : ε) : ensure c e = ok () := if_pos h

/-- The run does not end in an error: it has a value, or it panics. -/
def NoErr (x : Outcome ε α) : Prop := ∀ e, x ≠ err e

theorem exists_err_iff (x : Outcome ε α) : (∃ e, x = err e) ↔ ¬x.NoErr := by
  simp [NoErr]

@[simp] theorem noErr_bind (x : Outcome ε α) (f : α → Outcome ε β) :
    (x >>= f).NoErr ↔ (∃ m, x = panic m) ∨ ∃ a, x = ok a ∧ (f a).NoErr := by
  change (bind x f).NoErr ↔ _
  cases x <;> simp [bind, NoErr]

theorem not_panic_iff (x : Outcome ε α) : (∀ m, x ≠ panic m) ↔ (x.NoErr → ∃ a, x = ok a) := by
  cases x <;> simp [NoErr]

theorem noErr_ok (a : α) : (ok a : Outcome ε α).NoErr := nofun

theorem noErr_panic (m : String) : (panic m : Outcome ε α).NoErr := nofun

theorem noErr_unwrap (m : String) (x : Option α) : (unwrap m x : Outcome ε α).NoErr := by
  cases x
  · exact noErr_panic m
  · exact noErr_ok _

theorem NoErr.bind {x : Outcome ε α} {f : α → Outcome ε β} (hx : x.NoErr)
    (hf : ∀ a, (f a).NoErr) : (x >>= f).NoErr := by
  cases x with
  | ok a => exact hf a
  | err e => exact absurd rfl (hx e)
  | panic m => exact noErr_panic m

end Outcome

/-- What a run leaves: its end, the store, and what it published. -/
structure Result (σ ω ε α : Type) where
  outcome : Outcome ε α
  state : σ
  log : List ω

/-- A program over the store `σ` that publishes values of type `ω`. -/
def Program (σ ω ε α : Type) : Type := σ → Result σ ω ε α

namespace Program
variable {σ ω ε α β : Type}

protected def pure (a : α) : Program σ ω ε α := fun s => ⟨.ok a, s, []⟩

protected def bind (x : Program σ ω ε α) (f : α → Program σ ω ε β) : Program σ ω ε β := fun s =>
  let r := x s
  match r.outcome with
  | .ok a => let r' := f a r.state; ⟨r'.outcome, r'.state, r.log ++ r'.log⟩
  | .err e => ⟨.err e, r.state, r.log⟩
  | .panic m => ⟨.panic m, r.state, r.log⟩

instance : Monad (Program σ ω ε) where
  pure := Program.pure
  bind := Program.bind

/-- Return early with an error. -/
def fail (e : ε) : Program σ ω ε α := fun s => ⟨.err e, s, []⟩

def ofOutcome (o : Outcome ε α) : Program σ ω ε α := fun s => ⟨o, s, []⟩

def ofExcept (r : Except ε α) : Program σ ω ε α := ofOutcome (.ofExcept r)

/-- Read the store. -/
def query (f : σ → α) : Program σ ω ε α := fun s => ⟨.ok (f s), s, []⟩

/-- Write the store. -/
def update (g : σ → σ) : Program σ ω ε Unit := fun s => ⟨.ok (), g s, []⟩

/-- A statement that the store may refuse. A refused statement changes nothing. -/
def tryUpdate (g : σ → Except ε (α × σ)) : Program σ ω ε α := fun s =>
  match g s with
  | .ok (a,s') => ⟨.ok a, s', []⟩
  | .error e => ⟨.err e, s, []⟩

/-- Publish a value outside of the store. -/
def publish (w : ω) : Program σ ω ε Unit := fun s => ⟨.ok (), s, [w]⟩

/-- Hand a failure to the caller as a value. The store is kept as the failure left it. -/
def attempt (x : Program σ ω ε α) : Program σ ω ε (Except ε α) := fun s =>
  let r := x s
  match r.outcome with
  | .ok a => ⟨.ok (.ok a), r.state, r.log⟩
  | .err e => ⟨.ok (.error e), r.state, r.log⟩
  | .panic m => ⟨.panic m, r.state, r.log⟩

/-- Commit on success; any other end puts the store back. -/
def savepoint (x : Program σ ω ε α) : Program σ ω ε α := fun s =>
  let r := x s
  match r.outcome with
  | .ok a => ⟨.ok a, r.state, r.log⟩
  | .err e => ⟨.err e, s, r.log⟩
  | .panic m => ⟨.panic m, s, r.log⟩

/-- `expect`: a failure becomes a panic. -/
def expect (message : String) (x : Program σ ω ε α) : Program σ ω ε α := fun s =>
  let r := x s
  match r.outcome with
  | .err _ => ⟨.panic message, r.state, r.log⟩
  | o => ⟨o, r.state, r.log⟩

/-- Run the body on each element in turn. -/
def forEach : List α → (α → Program σ ω ε Unit) → Program σ ω ε Unit
  | [], _ => pure ()
  | a :: as, f => do f a; forEach as f

/-- Run the body on each element in turn, handing on an accumulator, and collect the
values. -/
def accumEach {γ : Type} (f : β → α → Program σ ω ε (β × γ)) :
    β → List α → Program σ ω ε (β × List γ)
  | b, [] => pure (b,[])
  | b, a :: as => do
    let p ← f b a
    let q ← accumEach f p.1 as
    pure (q.1,p.2 :: q.2)

/-- Run a program only under a condition. -/
def when (c : Prop) [Decidable c] (x : Program σ ω ε Unit) : Program σ ω ε Unit :=
  if c then x else pure ()

/-! ### Runs as judgements -/

/-- From `s` the program returns `a` and leaves `s'`. -/
def Returns (x : Program σ ω ε α) (s : σ) (a : α) (s' : σ) : Prop :=
  (x s).outcome = .ok a ∧ (x s).state = s'

/-- From `s` the program fails with `e` and leaves `s'`. -/
def Fails (x : Program σ ω ε α) (s : σ) (e : ε) (s' : σ) : Prop :=
  (x s).outcome = .err e ∧ (x s).state = s'

/-- From `s` the program panics. -/
def Panics (x : Program σ ω ε α) (s : σ) : Prop := ∃ m, (x s).outcome = .panic m

theorem returns_or_fails_or_panics (x : Program σ ω ε α) (s : σ) :
    (∃ a, x.Returns s a (x s).state) ∨ (∃ e, x.Fails s e (x s).state) ∨ x.Panics s := by
  cases h : (x s).outcome with
  | ok a => exact Or.inl ⟨a,h,rfl⟩
  | err e => exact Or.inr (Or.inl ⟨e,h,rfl⟩)
  | panic m => exact Or.inr (Or.inr ⟨m,h⟩)

theorem Returns.unique {x : Program σ ω ε α} {s : σ} {a b : α} {s' t' : σ}
    (h : x.Returns s a s') (h' : x.Returns s b t') : a = b ∧ s' = t' := by
  refine ⟨?_, h.2.symm.trans h'.2⟩
  have he := h.1.symm.trans h'.1
  injection he

theorem Returns.not_fails {x : Program σ ω ε α} {s : σ} {a : α} {e : ε} {s' t' : σ}
    (h : x.Returns s a s') (h' : x.Fails s e t') : False := by
  have he := h.1.symm.trans h'.1
  simp at he

theorem not_panics_of_isOk {x : Program σ ω ε α} {s : σ} (h : (x s).outcome.isOk = true) :
    ¬x.Panics s := by
  rintro ⟨m,hm⟩
  rw [hm] at h
  exact absurd h (by simp [Outcome.isOk])

theorem returns_of_isOk {x : Program σ ω ε Unit} {s : σ} (h : (x s).outcome.isOk = true) :
    x.Returns s () (x s).state := by
  obtain ⟨u,hu⟩ := (Outcome.isOk_iff _).mp h
  exact ⟨hu,rfl⟩

@[simp] theorem returns_pure (a b : α) (s s' : σ) :
    (pure a : Program σ ω ε α).Returns s b s' ↔ b = a ∧ s' = s := by
  change (Outcome.ok a = Outcome.ok b ∧ s = s') ↔ _
  simp [eq_comm]

@[simp] theorem fails_pure (a : α) (e : ε) (s s' : σ) :
    ¬(pure a : Program σ ω ε α).Fails s e s' := by
  rintro ⟨h,_⟩
  change Outcome.ok a = Outcome.err e at h
  simp at h

theorem bind_run (x : Program σ ω ε α) (f : α → Program σ ω ε β) (s : σ) :
    (x >>= f) s = Program.bind x f s := rfl

@[simp] theorem returns_bind (x : Program σ ω ε α) (f : α → Program σ ω ε β)
    (s : σ) (b : β) (s'' : σ) :
    (x >>= f).Returns s b s'' ↔ ∃ a s', x.Returns s a s' ∧ (f a).Returns s' b s'' := by
  simp only [Returns, bind_run, Program.bind]
  cases h : (x s).outcome <;> simp

@[simp] theorem fails_bind (x : Program σ ω ε α) (f : α → Program σ ω ε β)
    (s : σ) (e : ε) (s'' : σ) :
    (x >>= f).Fails s e s'' ↔
      x.Fails s e s'' ∨ ∃ a s', x.Returns s a s' ∧ (f a).Fails s' e s'' := by
  simp only [Returns, Fails, bind_run, Program.bind]
  cases h : (x s).outcome <;> simp

@[simp] theorem returns_fail (e : ε) (s s' : σ) (a : α) :
    ¬(fail e : Program σ ω ε α).Returns s a s' := by
  rintro ⟨h,_⟩
  simp [fail] at h

@[simp] theorem fails_fail (e e' : ε) (s s' : σ) :
    (fail e : Program σ ω ε α).Fails s e' s' ↔ e' = e ∧ s' = s := by
  simp [fail, Fails, eq_comm]

@[simp] theorem returns_ofOutcome (o : Outcome ε α) (s s' : σ) (a : α) :
    (ofOutcome o : Program σ ω ε α).Returns s a s' ↔ o = .ok a ∧ s' = s := by
  simp [ofOutcome, Returns, eq_comm]

@[simp] theorem fails_ofOutcome (o : Outcome ε α) (s s' : σ) (e : ε) :
    (ofOutcome o : Program σ ω ε α).Fails s e s' ↔ o = .err e ∧ s' = s := by
  simp [ofOutcome, Fails, eq_comm]

/-- To attempt a value is to take it as it is. -/
theorem attempt_ofOutcome_bind (o : Outcome ε α) (f : Except ε α → Program σ ω ε β) :
    (attempt (ofOutcome o) >>= f) = match o with
      | .ok a => f (.ok a)
      | .err e => f (.error e)
      | .panic m => ofOutcome (.panic m) := by
  funext s
  cases o with
  | ok a => simp [bind_run, Program.bind, attempt, ofOutcome]
  | err e => simp [bind_run, Program.bind, attempt, ofOutcome]
  | panic m => simp [bind_run, Program.bind, attempt, ofOutcome]

@[simp] theorem returns_ofExcept (r : Except ε α) (s s' : σ) (a : α) :
    (ofExcept r : Program σ ω ε α).Returns s a s' ↔ r = .ok a ∧ s' = s := by
  simp [ofExcept]

@[simp] theorem fails_ofExcept (r : Except ε α) (s s' : σ) (e : ε) :
    (ofExcept r : Program σ ω ε α).Fails s e s' ↔ r = .error e ∧ s' = s := by
  cases r <;> simp [ofExcept, Outcome.ofExcept]

@[simp] theorem returns_query (f : σ → α) (s s' : σ) (a : α) :
    (query f : Program σ ω ε α).Returns s a s' ↔ a = f s ∧ s' = s := by
  simp [query, Returns, eq_comm]

@[simp] theorem fails_query (f : σ → α) (s s' : σ) (e : ε) :
    ¬(query f : Program σ ω ε α).Fails s e s' := by
  rintro ⟨h,_⟩
  simp [query] at h

@[simp] theorem returns_update (g : σ → σ) (s s' : σ) (u : Unit) :
    (update g : Program σ ω ε Unit).Returns s u s' ↔ s' = g s := by
  simp [update, Returns, eq_comm]

@[simp] theorem fails_update (g : σ → σ) (s s' : σ) (e : ε) :
    ¬(update g : Program σ ω ε Unit).Fails s e s' := by
  rintro ⟨h,_⟩
  simp [update] at h

@[simp] theorem returns_tryUpdate (g : σ → Except ε (α × σ)) (s s' : σ) (a : α) :
    (tryUpdate g : Program σ ω ε α).Returns s a s' ↔ g s = .ok (a,s') := by
  simp only [tryUpdate, Returns]
  cases h : g s <;> simp [Prod.ext_iff]

@[simp] theorem fails_tryUpdate (g : σ → Except ε (α × σ)) (s s' : σ) (e : ε) :
    (tryUpdate g : Program σ ω ε α).Fails s e s' ↔ g s = .error e ∧ s' = s := by
  simp only [tryUpdate, Fails]
  cases h : g s <;> simp [eq_comm]

@[simp] theorem returns_publish (w : ω) (s s' : σ) (u : Unit) :
    (publish w : Program σ ω ε Unit).Returns s u s' ↔ s' = s := by
  simp [publish, Returns, eq_comm]

@[simp] theorem fails_publish (w : ω) (s s' : σ) (e : ε) :
    ¬(publish w : Program σ ω ε Unit).Fails s e s' := by
  rintro ⟨h,_⟩
  simp [publish] at h

@[simp] theorem returns_attempt_ok (x : Program σ ω ε α) (s s' : σ) (a : α) :
    x.attempt.Returns s (.ok a) s' ↔ x.Returns s a s' := by
  simp only [attempt, Returns]
  cases h : (x s).outcome <;> simp

@[simp] theorem returns_attempt_error (x : Program σ ω ε α) (s s' : σ) (e : ε) :
    x.attempt.Returns s (.error e) s' ↔ x.Fails s e s' := by
  simp only [attempt, Returns, Fails]
  cases h : (x s).outcome <;> simp

@[simp] theorem fails_attempt (x : Program σ ω ε α) (s s' : σ) (e : ε) :
    ¬x.attempt.Fails s e s' := by
  rintro ⟨h,_⟩
  cases hx : (x s).outcome <;> simp [attempt, hx] at h

@[simp] theorem returns_savepoint (x : Program σ ω ε α) (s s' : σ) (a : α) :
    x.savepoint.Returns s a s' ↔ x.Returns s a s' := by
  simp only [savepoint, Returns]
  cases h : (x s).outcome <;> simp

@[simp] theorem fails_savepoint (x : Program σ ω ε α) (s s' : σ) (e : ε) :
    x.savepoint.Fails s e s' ↔ s' = s ∧ ∃ t, x.Fails s e t := by
  simp only [savepoint, Fails]
  cases h : (x s).outcome <;> simp [eq_comm, and_comm]

@[simp] theorem returns_expect (m : String) (x : Program σ ω ε α) (s s' : σ) (a : α) :
    (x.expect m).Returns s a s' ↔ x.Returns s a s' := by
  simp only [expect, Returns]
  cases h : (x s).outcome <;> simp

@[simp] theorem fails_expect (m : String) (x : Program σ ω ε α) (s s' : σ) (e : ε) :
    ¬(x.expect m).Fails s e s' := by
  rintro ⟨h,_⟩
  cases hx : (x s).outcome <;> simp [expect, hx] at h

theorem expect_state (m : String) (x : Program σ ω ε α) (s : σ) :
    (x.expect m s).state = (x s).state := by
  simp only [expect]
  cases h : (x s).outcome <;> rfl

/-- Every end of a savepoint other than a return leaves the store as it was. -/
theorem savepoint_state (x : Program σ ω ε α) (s : σ) :
    (∃ a, x.Returns s a (x.savepoint s).state) ∨ (x.savepoint s).state = s := by
  simp only [savepoint, Returns]
  cases h : (x s).outcome with
  | ok a => exact Or.inl ⟨a,rfl,rfl⟩
  | err e => exact Or.inr rfl
  | panic m => exact Or.inr rfl

@[simp] theorem returns_ite (c : Prop) [Decidable c] (x y : Program σ ω ε α)
    (s s' : σ) (a : α) : (if c then x else y).Returns s a s' ↔
      (c ∧ x.Returns s a s') ∨ (¬c ∧ y.Returns s a s') := by
  split <;> simp [*]

@[simp] theorem fails_ite (c : Prop) [Decidable c] (x y : Program σ ω ε α)
    (s s' : σ) (e : ε) : (if c then x else y).Fails s e s' ↔
      (c ∧ x.Fails s e s') ∨ (¬c ∧ y.Fails s e s') := by
  split <;> simp [*]

@[simp] theorem returns_forEach_nil (f : α → Program σ ω ε Unit) (s s' : σ) (u : Unit) :
    (forEach [] f).Returns s u s' ↔ s' = s := by
  simp [forEach]

theorem returns_forEach_cons (a : α) (as : List α) (f : α → Program σ ω ε Unit)
    (s s'' : σ) (u : Unit) : (forEach (a :: as) f).Returns s u s'' ↔
      ∃ s', (f a).Returns s () s' ∧ (forEach as f).Returns s' u s'' := by
  simp only [forEach, returns_bind]
  exact ⟨fun ⟨_,s',ha,hs⟩ => ⟨s',ha,hs⟩, fun ⟨s',ha,hs⟩ => ⟨(),s',ha,hs⟩⟩

@[simp] theorem fails_forEach_nil (f : α → Program σ ω ε Unit) (s s' : σ) (e : ε) :
    ¬(forEach [] f).Fails s e s' := by
  simp [forEach]

theorem fails_forEach_cons (a : α) (as : List α) (f : α → Program σ ω ε Unit)
    (s s'' : σ) (e : ε) : (forEach (a :: as) f).Fails s e s'' ↔ (f a).Fails s e s'' ∨
      ∃ s', (f a).Returns s () s' ∧ (forEach as f).Fails s' e s'' := by
  simp only [forEach, fails_bind]
  exact or_congr_right ⟨fun ⟨_,s',ha,hs⟩ => ⟨s',ha,hs⟩, fun ⟨s',ha,hs⟩ => ⟨(),s',ha,hs⟩⟩

theorem returns_forEach_append (as bs : List α) (f : α → Program σ ω ε Unit) (s s'' : σ)
    (u : Unit) : (forEach (as ++ bs) f).Returns s u s'' ↔
      ∃ s', (forEach as f).Returns s () s' ∧ (forEach bs f).Returns s' u s'' := by
  induction as generalizing s with
  | nil => simp
  | cons a as ih =>
    simp only [List.cons_append, returns_forEach_cons, ih]
    constructor
    · rintro ⟨s₁,ha,s₂,has,hbs⟩
      exact ⟨s₂,⟨s₁,ha,has⟩,hbs⟩
    · rintro ⟨s₂,⟨s₁,ha,has⟩,hbs⟩
      exact ⟨s₁,ha,s₂,has,hbs⟩

theorem returns_accumEach_nil {γ : Type} (f : β → α → Program σ ω ε (β × γ)) (b : β)
    (s s' : σ) (q : β × List γ) : (accumEach f b []).Returns s q s' ↔ q = (b,[]) ∧ s' = s := by
  simp [accumEach]

theorem returns_accumEach_cons {γ : Type} (f : β → α → Program σ ω ε (β × γ)) (b : β) (a : α)
    (as : List α) (s s'' : σ) (q : β × List γ) : (accumEach f b (a :: as)).Returns s q s'' ↔
      ∃ p r s', (f b a).Returns s p s' ∧ (accumEach f p.1 as).Returns s' r s'' ∧
        q = (r.1,p.2 :: r.2) := by
  simp only [accumEach, returns_bind, returns_pure]
  constructor
  · rintro ⟨p,s',hp,r,t,hr,rfl,rfl⟩
    exact ⟨p,r,s',hp,hr,rfl⟩
  · rintro ⟨p,r,s',hp,hr,rfl⟩
    exact ⟨p,s',hp,r,s'',hr,rfl,rfl⟩

/-- The accumulator and the results, where the list is cut. -/
theorem returns_accumEach_append {γ : Type} (f : β → α → Program σ ω ε (β × γ)) (b : β)
    (as as' : List α) (s s'' : σ) (q : β × List γ) :
    (accumEach f b (as ++ as')).Returns s q s'' ↔ ∃ p r s', (accumEach f b as).Returns s p s' ∧
      (accumEach f p.1 as').Returns s' r s'' ∧ q = (r.1,p.2 ++ r.2) := by
  induction as generalizing b s q with
  | nil =>
    simp only [List.nil_append, returns_accumEach_nil]
    constructor
    · intro h
      exact ⟨_,q,s,⟨rfl,rfl⟩,h,rfl⟩
    · rintro ⟨_,r,s',⟨rfl,rfl⟩,h,rfl⟩
      exact h
  | cons a as ih =>
    simp only [List.cons_append, returns_accumEach_cons, ih]
    constructor
    · rintro ⟨p,_,s₁,ha,⟨p',r,s',has,hrest,rfl⟩,rfl⟩
      exact ⟨_,r,s',⟨p,p',s₁,ha,has,rfl⟩,hrest,rfl⟩
    · rintro ⟨_,r,s',⟨p,p',s₁,ha,has,rfl⟩,hrest,rfl⟩
      exact ⟨p,_,s₁,ha,⟨p',r,s',has,hrest,rfl⟩,rfl⟩

@[simp] theorem returns_when (c : Prop) [Decidable c] (x : Program σ ω ε Unit) (s s' : σ)
    (u : Unit) : (when c x).Returns s u s' ↔ (c ∧ x.Returns s () s') ∨ (¬c ∧ s' = s) := by
  simp [when]

@[simp] theorem fails_when (c : Prop) [Decidable c] (x : Program σ ω ε Unit) (s s' : σ) (e : ε) :
    (when c x).Fails s e s' ↔ c ∧ x.Fails s e s' := by
  simp [when]

/-! ### Runs that panic -/

@[simp] theorem not_panics_pure (a : α) (s : σ) : ¬(pure a : Program σ ω ε α).Panics s := by
  rintro ⟨m,h⟩
  change Outcome.ok a = Outcome.panic m at h
  simp at h

@[simp] theorem panics_bind (x : Program σ ω ε α) (f : α → Program σ ω ε β) (s : σ) :
    (x >>= f).Panics s ↔ x.Panics s ∨ ∃ a s', x.Returns s a s' ∧ (f a).Panics s' := by
  simp only [Returns, Panics, bind_run, Program.bind]
  cases h : (x s).outcome <;> simp

@[simp] theorem not_panics_fail (e : ε) (s : σ) : ¬(fail e : Program σ ω ε α).Panics s := by
  simp [fail, Panics]

@[simp] theorem panics_ofOutcome (o : Outcome ε α) (s : σ) :
    (ofOutcome o : Program σ ω ε α).Panics s ↔ ∃ m, o = .panic m := by
  simp [ofOutcome, Panics]

@[simp] theorem not_panics_ofExcept (r : Except ε α) (s : σ) :
    ¬(ofExcept r : Program σ ω ε α).Panics s := by
  cases r <;> simp [ofExcept, Outcome.ofExcept]

@[simp] theorem not_panics_query (f : σ → α) (s : σ) : ¬(query f : Program σ ω ε α).Panics s := by
  simp [query, Panics]

@[simp] theorem not_panics_update (g : σ → σ) (s : σ) :
    ¬(update g : Program σ ω ε Unit).Panics s := by
  simp [update, Panics]

@[simp] theorem not_panics_tryUpdate (g : σ → Except ε (α × σ)) (s : σ) :
    ¬(tryUpdate g : Program σ ω ε α).Panics s := by
  simp only [tryUpdate, Panics]
  cases g s <;> simp

@[simp] theorem not_panics_publish (w : ω) (s : σ) :
    ¬(publish w : Program σ ω ε Unit).Panics s := by
  simp [publish, Panics]

@[simp] theorem panics_attempt (x : Program σ ω ε α) (s : σ) :
    x.attempt.Panics s ↔ x.Panics s := by
  simp only [attempt, Panics]
  cases h : (x s).outcome <;> simp

@[simp] theorem panics_savepoint (x : Program σ ω ε α) (s : σ) :
    x.savepoint.Panics s ↔ x.Panics s := by
  simp only [savepoint, Panics]
  cases h : (x s).outcome <;> simp

@[simp] theorem panics_when (c : Prop) [Decidable c] (x : Program σ ω ε Unit) (s : σ) :
    (when c x).Panics s ↔ c ∧ x.Panics s := by
  by_cases h : c <;> simp [when, h]

/-- A loop whose body never panics does not panic. -/
theorem not_panics_forEach {f : α → Program σ ω ε Unit} (as : List α)
    (hf : ∀ a s, ¬(f a).Panics s) (s : σ) : ¬(forEach as f).Panics s := by
  induction as generalizing s with
  | nil => exact not_panics_pure () s
  | cons a as ih => simp [forEach, hf, ih]

theorem not_panics_accumEach {γ : Type} {f : β → α → Program σ ω ε (β × γ)} (as : List α)
    (hf : ∀ b a s, ¬(f b a).Panics s) (b : β) (s : σ) : ¬(accumEach f b as).Panics s := by
  induction as generalizing b s with
  | nil => exact not_panics_pure _ s
  | cons a as ih => simp [accumEach, hf, ih]

/-- What does not panic returns, if it is attempted. -/
theorem attempt_returns {x : Program σ ω ε α} {s : σ} (h : ¬x.Panics s) :
    ∃ r s', x.attempt.Returns s r s' := by
  rcases returns_or_fails_or_panics x s with ⟨a,ha⟩ | ⟨e,he⟩ | hp
  · exact ⟨.ok a,_,(returns_attempt_ok x s _ a).mpr ha⟩
  · exact ⟨.error e,_,(returns_attempt_error x s _ e).mpr he⟩
  · exact (h hp).elim

/-! ### Loops that return -/

/-- A loop returns when each turn returns from a store that has what the elements to come need. -/
theorem forEach_returns {f : α → Program σ ω ε Unit} {I : List α → σ → Prop}
    (hstep : ∀ a as s, I (a :: as) s → ∃ s', (f a).Returns s () s' ∧ I as s') (as : List α) {s : σ}
    (h : I as s) : ∃ s', (forEach as f).Returns s () s' := by
  induction as generalizing s with
  | nil => exact ⟨s,(returns_forEach_nil f s s ()).mpr rfl⟩
  | cons a as ih =>
    obtain ⟨s₁,ha,hI⟩ := hstep a as s h
    obtain ⟨s',has⟩ := ih hI
    exact ⟨s',(returns_forEach_cons a as f s s' ()).mpr ⟨s₁,ha,has⟩⟩

theorem accumEach_returns {γ : Type} {f : β → α → Program σ ω ε (β × γ)} {I : List α → σ → Prop}
    (hstep : ∀ b a as s, I (a :: as) s → ∃ p s', (f b a).Returns s p s' ∧ I as s') (as : List α)
    {b : β} {s : σ} (h : I as s) : ∃ q s', (accumEach f b as).Returns s q s' := by
  induction as generalizing b s with
  | nil => exact ⟨_,s,(returns_accumEach_nil f b s s _).mpr ⟨rfl,rfl⟩⟩
  | cons a as ih =>
    obtain ⟨p,s₁,ha,hI⟩ := hstep b a as s h
    obtain ⟨q,s',has⟩ := ih (b := p.1) hI
    exact ⟨_,s',(returns_accumEach_cons f b a as s s' _).mpr ⟨p,q,s₁,ha,has,rfl⟩⟩

/-! ### Runs from related stores -/

/-- From stores that `R` relates the program ends in the same way, in stores that `R` relates. -/
def Respects (R : σ → σ → Prop) (x : Program σ ω ε α) : Prop :=
  ∀ s t, R s t → (x s).outcome = (x t).outcome ∧ R (x s).state (x t).state

section Respects
variable {R : σ → σ → Prop}

theorem Respects.returns {x : Program σ ω ε α} (hx : Respects R x) {s t s' : σ} {a : α}
    (hR : R s t) (h : x.Returns s a s') : ∃ t', x.Returns t a t' ∧ R s' t' := by
  obtain ⟨ho,hs⟩ := hx s t hR
  exact ⟨_,⟨ho ▸ h.1,rfl⟩,h.2 ▸ hs⟩

theorem respects_pure (a : α) : Respects R (pure a : Program σ ω ε α) := fun _ _ h => ⟨rfl,h⟩

theorem respects_fail (e : ε) : Respects R (fail e : Program σ ω ε α) := fun _ _ h => ⟨rfl,h⟩

theorem respects_ofOutcome (o : Outcome ε α) : Respects R (ofOutcome o : Program σ ω ε α) :=
  fun _ _ h => ⟨rfl,h⟩

theorem respects_query {f : σ → α} (hf : ∀ s t, R s t → f s = f t) :
    Respects R (query f : Program σ ω ε α) := fun s t h => ⟨congrArg Outcome.ok (hf s t h),h⟩

theorem respects_update {g : σ → σ} (hg : ∀ s t, R s t → R (g s) (g t)) :
    Respects R (update g : Program σ ω ε Unit) := fun s t h => ⟨rfl,hg s t h⟩

/-- A statement must be refused for the same reason, or accepted with the same value. -/
theorem respects_tryUpdate {g : σ → Except ε (α × σ)} (hg : ∀ s t, R s t →
      (∃ e, g s = .error e ∧ g t = .error e) ∨
      ∃ a s' t', g s = .ok (a,s') ∧ g t = .ok (a,t') ∧ R s' t') :
    Respects R (tryUpdate g : Program σ ω ε α) := by
  intro s t h
  rcases hg s t h with ⟨e,hs,ht⟩ | ⟨a,s',t',hs,ht,hR⟩
  · simpa only [tryUpdate, hs, ht, true_and] using h
  · simpa only [tryUpdate, hs, ht, true_and] using hR

theorem respects_bind {x : Program σ ω ε α} {f : α → Program σ ω ε β} (hx : Respects R x)
    (hf : ∀ a, Respects R (f a)) : Respects R (x >>= f) := by
  intro s t h
  obtain ⟨ho,hs⟩ := hx s t h
  simp only [bind_run, Program.bind, ← ho]
  cases (x s).outcome with
  | ok a => exact hf a _ _ hs
  | err e => exact ⟨rfl,hs⟩
  | panic m => exact ⟨rfl,hs⟩

theorem respects_savepoint {x : Program σ ω ε α} (hx : Respects R x) :
    Respects R x.savepoint := by
  intro s t h
  obtain ⟨ho,hs⟩ := hx s t h
  simp only [savepoint, ← ho]
  cases (x s).outcome with
  | ok a => exact ⟨rfl,hs⟩
  | err e => exact ⟨rfl,h⟩
  | panic m => exact ⟨rfl,h⟩

theorem respects_attempt {x : Program σ ω ε α} (hx : Respects R x) : Respects R x.attempt := by
  intro s t h
  obtain ⟨ho,hs⟩ := hx s t h
  simp only [attempt, ← ho]
  cases (x s).outcome <;> exact ⟨rfl,hs⟩

theorem respects_expect {x : Program σ ω ε α} (m : String) (hx : Respects R x) :
    Respects R (x.expect m) := by
  intro s t h
  obtain ⟨ho,hs⟩ := hx s t h
  simp only [expect, ← ho]
  cases (x s).outcome <;> exact ⟨rfl,hs⟩

theorem respects_when {c : Prop} [Decidable c] {x : Program σ ω ε Unit} (hx : Respects R x) :
    Respects R (when c x) := by
  unfold when
  split
  · exact hx
  · exact respects_pure ()

theorem respects_forEach {f : α → Program σ ω ε Unit} (hf : ∀ a, Respects R (f a))
    (as : List α) : Respects R (forEach as f) := by
  induction as with
  | nil => exact respects_pure ()
  | cons a as ih => exact respects_bind (hf a) fun _ => ih

theorem respects_accumEach {γ : Type} {f : β → α → Program σ ω ε (β × γ)}
    (hf : ∀ b a, Respects R (f b a)) (as : List α) (b : β) : Respects R (accumEach f b as) := by
  induction as generalizing b with
  | nil => exact respects_pure _
  | cons a as ih => exact respects_bind (hf b a) fun p => respects_bind (ih p.1) fun _ => respects_pure _

end Respects

end Program
end Txn
