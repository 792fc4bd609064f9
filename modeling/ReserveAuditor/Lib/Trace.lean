import ReserveAuditor.Lib.Program

/-! What a program does, said of the store that it finds, of what it publishes and of the store
that it leaves. -/
namespace Txn

/-- Holds of doing nothing, and of doing one thing after the other. -/
class IsTrace {σ ω : Type} (P : σ → List ω → σ → Prop) : Prop where
  nil : ∀ s, P s [] s
  append : ∀ {s s' s'' l l'}, P s l s' → P s' l' s'' → P s (l ++ l') s''

/-- A relation between stores says nothing of what is published. -/
instance {σ ω : Type} (R : σ → σ → Prop) [IsPreorder σ R] :
    IsTrace (fun s (_ : List ω) s' => R s s') where
  nil := refl_of R
  append := trans_of R

namespace Program
variable {σ ω ε α β : Type} {P : σ → List ω → σ → Prop}

/-- However the program ends, this holds of what it did. -/
def Leaves (P : σ → List ω → σ → Prop) (x : Program σ ω ε α) : Prop := ∀ s, P s (x s).log (x s).state

theorem leaves_attempt {x : Program σ ω ε α} (hx : Leaves P x) : Leaves P x.attempt := by
  intro s
  have hs := hx s
  simp only [attempt]
  cases (x s).outcome <;> exact hs

theorem leaves_update {g : σ → σ} (hg : ∀ s, P s [] (g s)) :
    Leaves P (update g : Program σ ω ε Unit) := hg

/-- A transaction leaves what its body does, where that holds of what is published by a body that is
rolled back, too. -/
theorem leaves_savepoint {x : Program σ ω ε α} (hx : Leaves P x)
    (hback : ∀ s, (x s).outcome.isOk = false → P s (x s).log s) : Leaves P x.savepoint := by
  intro s
  have hs := hx s
  have hb := hback s
  simp only [savepoint]
  cases h : (x s).outcome with
  | ok a => exact hs
  -- the store is put back, but not what was published
  | err e => exact hb (by rw [h]; rfl)
  | panic m => exact hb (by rw [h]; rfl)

section IsTrace
variable [IsTrace P]

theorem leaves_pure (a : α) : Leaves P (pure a : Program σ ω ε α) := IsTrace.nil

theorem leaves_fail (e : ε) : Leaves P (fail e : Program σ ω ε α) := IsTrace.nil

theorem leaves_ofOutcome (o : Outcome ε α) : Leaves P (ofOutcome o : Program σ ω ε α) := IsTrace.nil

theorem leaves_query (f : σ → α) : Leaves P (query f : Program σ ω ε α) := IsTrace.nil

theorem leaves_tryUpdate {g : σ → Except ε (α × σ)}
    (hg : ∀ s a s', g s = .ok (a,s') → P s [] s') :
    Leaves P (tryUpdate g : Program σ ω ε α) := by
  intro s
  simp only [tryUpdate]
  cases h : g s with
  | ok p => exact hg s p.1 p.2 h
  | error e => exact IsTrace.nil s

theorem leaves_bind {x : Program σ ω ε α} {f : α → Program σ ω ε β} (hx : Leaves P x)
    (hf : ∀ a, Leaves P (f a)) : Leaves P (x >>= f) := by
  intro s
  have hs := hx s
  simp only [bind_run, Program.bind]
  cases (x s).outcome with
  | ok a => exact IsTrace.append hs (hf a _)
  | err e => exact hs
  | panic m => exact hs

theorem leaves_when {c : Prop} [Decidable c] {x : Program σ ω ε Unit} (hx : Leaves P x) :
    Leaves P (when c x) := by
  unfold when
  split
  · exact hx
  · exact leaves_pure ()

theorem leaves_forEach {f : α → Program σ ω ε Unit} (hf : ∀ a, Leaves P (f a)) (as : List α) :
    Leaves P (forEach as f) := by
  induction as with
  | nil => exact leaves_pure ()
  | cons a as ih => exact leaves_bind (hf a) fun _ => ih

theorem leaves_accumEach {γ : Type} {f : β → α → Program σ ω ε (β × γ)}
    (hf : ∀ b a, Leaves P (f b a)) (as : List α) (b : β) : Leaves P (accumEach f b as) := by
  induction as generalizing b with
  | nil => exact leaves_pure _
  | cons a as ih => exact leaves_bind (hf b a) fun p => leaves_bind (ih p.1) fun _ => leaves_pure _

end IsTrace

/-! ### What a program may do to the store -/

/-- However the program ends, the store that it leaves is related to the one that it found. -/
def Within (R : σ → σ → Prop) (x : Program σ ω ε α) : Prop := ∀ s, R s (x s).state

section Within
variable {R : σ → σ → Prop}

theorem Within.returns {x : Program σ ω ε α} (hx : Within R x) {s s' : σ} {a : α}
    (h : x.Returns s a s') : R s s' := h.2 ▸ hx s

/-- What a program that does not panic does, by how it ends. -/
theorem within_of_ends {x : Program σ ω ε α} (hpanics : ∀ s, ¬x.Panics s)
    (hreturns : ∀ s a s', x.Returns s a s' → R s s')
    (hfails : ∀ s e s', x.Fails s e s' → R s s') : Within R x := by
  intro s
  rcases returns_or_fails_or_panics x s with ⟨a,h⟩ | ⟨e,h⟩ | h
  · exact hreturns s a _ h
  · exact hfails s e _ h
  · exact (hpanics s h).elim

theorem within_update {g : σ → σ} (hg : ∀ s, R s (g s)) :
    Within R (update g : Program σ ω ε Unit) := hg

theorem within_attempt {x : Program σ ω ε α} (hx : Within R x) : Within R x.attempt :=
  leaves_attempt (P := fun s _ s' => R s s') hx

theorem within_expect {x : Program σ ω ε α} (m : String) (hx : Within R x) :
    Within R (x.expect m) := by
  intro s
  rw [expect_state]
  exact hx s

variable [IsPreorder σ R]

theorem within_pure (a : α) : Within R (pure a : Program σ ω ε α) := refl_of R

theorem within_ofOutcome (o : Outcome ε α) : Within R (ofOutcome o : Program σ ω ε α) := refl_of R

theorem within_ofExcept (r : Except ε α) : Within R (ofExcept r : Program σ ω ε α) := refl_of R

theorem within_bind {x : Program σ ω ε α} {f : α → Program σ ω ε β} (hx : Within R x)
    (hf : ∀ a, Within R (f a)) : Within R (x >>= f) :=
  leaves_bind (P := fun s _ s' => R s s') hx hf

/-- A body that is rolled back does nothing to the store. -/
theorem within_savepoint {x : Program σ ω ε α} (hx : Within R x) : Within R x.savepoint :=
  leaves_savepoint (P := fun s _ s' => R s s') hx fun s _ => refl_of R s

theorem within_forEach {f : α → Program σ ω ε Unit} (hf : ∀ a, Within R (f a)) (as : List α) :
    Within R (forEach as f) := leaves_forEach (P := fun s _ s' => R s s') hf as

/-- A program that is only tried returns, and does what the stores need not agree on. -/
theorem respects_ignore [Std.Symm R] {x : Program σ ω ε α} (hpanics : ∀ s, ¬x.Panics s)
    (hx : Within R x) : Respects R (x.attempt >>= fun _ => pure ()) := by
  have hrun (s : σ) : ∃ s', (x.attempt >>= fun _ => pure ()).Returns s () s' ∧ R s s' := by
    obtain ⟨r,s',hr⟩ := attempt_returns (hpanics s)
    exact ⟨s',(returns_bind _ _ _ _ _).mpr ⟨r,s',hr,(returns_pure _ _ _ _).mpr ⟨rfl,rfl⟩⟩,
      (within_attempt hx).returns hr⟩
  intro s t h
  obtain ⟨s',⟨hs,rfl⟩,hss'⟩ := hrun s
  obtain ⟨t',⟨ht,rfl⟩,htt'⟩ := hrun t
  exact ⟨hs.trans ht.symm,trans_of R (symm_of R hss') (trans_of R h htt')⟩

end Within

end Program
end Txn
