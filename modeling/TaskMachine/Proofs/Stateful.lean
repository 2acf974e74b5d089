/-!
# Inverting computations with a state and a failure

The instructions of the machine and the work of the assembler are computations
that end in a value or a failure, and in a state either way. The lemmas below
take a successful sequence of such computations apart into its parts. A
computation commutes with a change of the state when running it before or after
the change makes no difference, so that it neither sees the change nor undoes it.
It ensures a relation when every run that ends well relates its first state to
its last, and keeps a relation when the runs that fail do so too. Two computations
go together when from related states both end well, in related values and states, or
both fail.
-/

namespace TaskMachine.Stateful

variable {ε σ τ α β : Type}

/-- A sequence ends well exactly when both parts do, the second from where the first ended. -/
theorem bind_eq_ok {x : EStateM ε σ α} {f : α → EStateM ε σ β} {s t : σ} {b : β} :
    (x >>= f) s = .ok b t ↔ ∃ a u, x s = .ok a u ∧ f a u = .ok b t := by
  change EStateM.bind x f s = _ ↔ _
  cases h : x s with
  | ok a u =>
    simp only [EStateM.bind, h]
    constructor
    · intro hf
      exact ⟨a, u, rfl, hf⟩
    · rintro ⟨a', u', he, hf⟩
      cases he
      exact hf
  | error e u => simp [EStateM.bind, h]

/-- A sequence fails in its first part, or in its second from where the first ended. -/
theorem bind_eq_error {x : EStateM ε σ α} {f : α → EStateM ε σ β} {s t : σ} {e : ε}
    (h : (x >>= f) s = .error e t) :
    x s = .error e t ∨ ∃ a u, x s = .ok a u ∧ f a u = .error e t := by
  change EStateM.bind x f s = _ at h
  cases hx : x s with
  | ok a u =>
    simp only [EStateM.bind, hx] at h
    exact .inr ⟨a, u, rfl, h⟩
  | error e' u =>
    simp only [EStateM.bind, hx] at h
    cases h
    exact .inl rfl

theorem bind_of_ok {x : EStateM ε σ α} {s t : σ} {a : α} (h : x s = .ok a t)
    (f : α → EStateM ε σ β) : (x >>= f) s = f a t := by
  change EStateM.bind x f s = _
  simp only [EStateM.bind, h]

theorem bind_of_error {x : EStateM ε σ α} {s t : σ} {e : ε} (h : x s = .error e t)
    (f : α → EStateM ε σ β) : (x >>= f) s = .error e t := by
  change EStateM.bind x f s = _
  simp only [EStateM.bind, h]

theorem get_bind_apply (f : σ → EStateM ε σ β) (s : σ) : (get >>= f) s = f s s := rfl

/-- What comes after sees only where the first part ended. -/
theorem bind_apply_congr {x y : EStateM ε σ α} {s t : σ} (h : x s = y t)
    (f : α → EStateM ε σ β) : (x >>= f) s = (y >>= f) t := by
  change EStateM.bind x f s = EStateM.bind y f t
  simp only [EStateM.bind, h]

theorem pure_eq_ok {a b : α} {s t : σ} :
    (pure a : EStateM ε σ α) s = .ok b t ↔ b = a ∧ t = s := by
  change EStateM.Result.ok a s = _ ↔ _
  constructor
  · intro h
    cases h
    exact ⟨rfl, rfl⟩
  · rintro ⟨rfl, rfl⟩
    rfl

theorem throw_eq_ok {e : ε} {b : α} {s t : σ} :
    (throw e : EStateM ε σ α) s = .ok b t ↔ False := by
  change EStateM.Result.error e s = _ ↔ _
  simp

/-- A refusal under a condition lets only those states pass where the condition fails. -/
theorem refuse_eq_ok {c : Prop} [Decidable c] {e : ε} {a b : α} {s t : σ} :
    (if c then throw e else pure a : EStateM ε σ α) s = .ok b t ↔ ¬ c ∧ b = a ∧ t = s := by
  split
  · rename_i h
    rw [throw_eq_ok]
    exact ⟨False.elim, fun hok => hok.1 h⟩
  · rename_i h
    rw [pure_eq_ok]
    exact ⟨fun hok => ⟨h, hok⟩, fun hok => hok.2⟩

theorem refuse_eq_error {c : Prop} [Decidable c] {e e' : ε} {a : α} {s t : σ}
    (h : (if c then throw e else pure a : EStateM ε σ α) s = .error e' t) : c ∧ e' = e := by
  split at h
  · rename_i hc
    cases h
    exact ⟨hc, rfl⟩
  · cases h

/-- A check lets only those states pass where its condition holds. -/
theorem require_eq_ok {c : Prop} [Decidable c] {e : ε} {a b : α} {s t : σ} :
    (if c then pure a else throw e : EStateM ε σ α) s = .ok b t ↔ c ∧ b = a ∧ t = s := by
  split
  · rename_i h
    rw [pure_eq_ok]
    exact ⟨fun hok => ⟨h, hok⟩, fun hok => hok.2⟩
  · rename_i h
    rw [throw_eq_ok]
    exact ⟨False.elim, fun hok => h hok.1⟩

theorem get_eq_ok {b s t : σ} : (get : EStateM ε σ σ) s = .ok b t ↔ b = s ∧ t = s := by
  change EStateM.Result.ok s s = _ ↔ _
  constructor
  · intro h
    cases h
    exact ⟨rfl, rfl⟩
  · rintro ⟨rfl, rfl⟩
    rfl

theorem modify_eq_ok {f : σ → σ} {u : PUnit} {s t : σ} :
    (modify f : EStateM ε σ PUnit) s = .ok u t ↔ t = f s := by
  change EStateM.Result.ok PUnit.unit (f s) = _ ↔ _
  constructor
  · intro h
    cases h
    rfl
  · rintro rfl
    rfl

/-- Whether a computation ended well. -/
def isOk : EStateM.Result ε σ α → Bool
  | .ok _ _ => true
  | .error _ _ => false

theorem eq_ok_of_isOk {r : EStateM.Result ε σ α} (h : isOk r = true) : ∃ a s, r = .ok a s := by
  cases r with
  | ok a s => exact ⟨a, s, rfl⟩
  | error e s => cases h

theorem eq_error_of_not_isOk {r : EStateM.Result ε σ α} (h : isOk r = false) :
    ∃ e s, r = .error e s := by
  cases r with
  | ok a s => cases h
  | error e s => exact ⟨e, s, rfl⟩

/-- The result with its state changed, whether it is a value or a failure. -/
def onState (f : σ → τ) : EStateM.Result ε σ α → EStateM.Result ε τ α
  | .ok a s => .ok a (f s)
  | .error e s => .error e (f s)

/-- The state in which a computation ended. -/
def endState : EStateM.Result ε σ α → σ
  | .ok _ s => s
  | .error _ s => s

/-- Running a computation and changing the state can be swapped. -/
def Commutes (f : σ → σ) (x : EStateM ε σ α) : Prop := ∀ s, x (f s) = onState f (x s)

namespace Commutes

variable {f : σ → σ}

/-- From a state that a change leaves as it is, a computation ends in such a state again. -/
theorem endState_fixed {x : EStateM ε σ α} (h : Commutes f x) {s : σ} (hs : f s = s) :
    f (endState (x s)) = endState (x s) := by
  have hx := h s
  rw [hs] at hx
  cases hr : x s with
  | ok a t =>
    rw [hr] at hx
    exact (EStateM.Result.ok.inj hx).2.symm
  | error e t =>
    rw [hr] at hx
    exact (EStateM.Result.error.inj hx).2.symm

theorem pure (a : α) : Commutes f (Pure.pure a : EStateM ε σ α) := fun _ => rfl

theorem throw (e : ε) : Commutes f (MonadExcept.throw e : EStateM ε σ α) := fun _ => rfl

theorem bind {x : EStateM ε σ α} {g : α → EStateM ε σ β} (hx : Commutes f x)
    (hg : ∀ a, Commutes f (g a)) : Commutes f (x >>= g) := by
  intro s
  cases h : x s with
  | ok a t =>
    have hf : x (f s) = .ok a (f t) := by rw [hx s, h]; rfl
    rw [bind_of_ok hf, bind_of_ok h, hg a t]
  | error e t =>
    have hf : x (f s) = .error e (f t) := by rw [hx s, h]; rfl
    rw [bind_of_error hf, bind_of_error h]
    rfl

theorem ite {x y : EStateM ε σ α} {c : Prop} [Decidable c] (hx : Commutes f x)
    (hy : Commutes f y) : Commutes f (if c then x else y) := by
  split
  · exact hx
  · exact hy

theorem modify {g : σ → σ} (hg : ∀ s, g (f s) = f (g s)) :
    Commutes f (modify g : EStateM ε σ PUnit) :=
  fun s => congrArg (EStateM.Result.ok PUnit.unit) (hg s)

/-- What goes on from the state without a look at the change. -/
theorem get_bind {g : σ → EStateM ε σ α} (hsame : ∀ s, g (f s) = g s)
    (hg : ∀ s, Commutes f (g s)) : Commutes f (get >>= g) := by
  intro s
  rw [get_bind_apply, get_bind_apply, hsame s, hg s s]

end Commutes

/-- Whenever the computation ends well, the states around it are related. -/
def Ensures (R : σ → σ → Prop) (x : EStateM ε σ α) : Prop := ∀ s a t, x s = .ok a t → R s t

namespace Ensures

variable {R : σ → σ → Prop}

theorem pure (hrefl : ∀ s, R s s) (a : α) : Ensures R (Pure.pure a : EStateM ε σ α) := by
  intro s b t h
  obtain ⟨-, rfl⟩ := pure_eq_ok.mp h
  exact hrefl t

theorem throw (e : ε) : Ensures R (MonadExcept.throw e : EStateM ε σ α) := by
  intro s b t h
  exact (throw_eq_ok.mp h).elim

theorem throw_bind (e : ε) (g : α → EStateM ε σ β) :
    Ensures R ((MonadExcept.throw e : EStateM ε σ α) >>= g) := by
  intro s b t h
  obtain ⟨a, u, hu, -⟩ := bind_eq_ok.mp h
  exact (throw_eq_ok.mp hu).elim

theorem get (hrefl : ∀ s, R s s) : Ensures R (MonadState.get : EStateM ε σ σ) := by
  intro s b t h
  obtain ⟨-, rfl⟩ := get_eq_ok.mp h
  exact hrefl t

theorem modify {f : σ → σ} (hf : ∀ s, R s (f s)) :
    Ensures R (modify f : EStateM ε σ PUnit) := by
  intro s b t h
  rw [modify_eq_ok.mp h]
  exact hf s

theorem bind (htrans : ∀ {s t u}, R s t → R t u → R s u) {x : EStateM ε σ α}
    {g : α → EStateM ε σ β} (hx : Ensures R x) (hg : ∀ a, Ensures R (g a)) :
    Ensures R (x >>= g) := by
  intro s b u h
  obtain ⟨a, t, ht, hu⟩ := bind_eq_ok.mp h
  exact htrans (hx s a t ht) (hg a t b u hu)

theorem ite {x y : EStateM ε σ α} {c : Prop} [Decidable c] (hx : Ensures R x)
    (hy : Ensures R y) : Ensures R (if c then x else y) := by
  split
  · exact hx
  · exact hy

end Ensures

/-- Whichever way the computation ends, the states around it are related. -/
def Keeps (R : σ → σ → Prop) (x : EStateM ε σ α) : Prop := ∀ s, R s (endState (x s))

namespace Keeps

variable {R : σ → σ → Prop}

theorem pure (hrefl : ∀ s, R s s) (a : α) : Keeps R (Pure.pure a : EStateM ε σ α) := hrefl

theorem throw (hrefl : ∀ s, R s s) (e : ε) : Keeps R (MonadExcept.throw e : EStateM ε σ α) := hrefl

theorem bind (htrans : ∀ {s t u}, R s t → R t u → R s u) {x : EStateM ε σ α}
    {g : α → EStateM ε σ β} (hx : Keeps R x) (hg : ∀ a, Keeps R (g a)) : Keeps R (x >>= g) := by
  intro s
  have hs := hx s
  cases h : x s with
  | ok a t =>
    rw [bind_of_ok h]
    rw [h] at hs
    exact htrans hs (hg a t)
  | error e t =>
    rw [bind_of_error h]
    rw [h] at hs
    exact hs

theorem ite {x y : EStateM ε σ α} {c : Prop} [Decidable c] (hx : Keeps R x) (hy : Keeps R y) :
    Keeps R (if c then x else y) := by
  split
  · exact hx
  · exact hy

end Keeps

/-- A computation that only looks at the state. -/
def Reads (x : EStateM ε σ α) : Prop := Ensures (fun s t => t = s) x

namespace Reads

theorem pure (a : α) : Reads (Pure.pure a : EStateM ε σ α) :=
  Ensures.pure (R := fun s t => t = s) (fun _ => rfl) a

theorem throw (e : ε) : Reads (MonadExcept.throw e : EStateM ε σ α) := Ensures.throw e

theorem bind {x : EStateM ε σ α} {g : α → EStateM ε σ β} (hx : Reads x) (hg : ∀ a, Reads (g a)) :
    Reads (x >>= g) :=
  Ensures.bind (fun ht hu => hu.trans ht) hx hg

theorem ite {x y : EStateM ε σ α} {c : Prop} [Decidable c] (hx : Reads x) (hy : Reads y) :
    Reads (if c then x else y) :=
  Ensures.ite hx hy

theorem ensures {x : EStateM ε σ α} (hx : Reads x) {R : σ → σ → Prop} (hrefl : ∀ s, R s s) :
    Ensures R x := by
  intro s a t h
  rw [hx s a t h]
  exact hrefl s

theorem bind_eq_ok {x : EStateM ε σ α} {f : α → EStateM ε σ β} {s t : σ} {b : β}
    (hx : Reads x) (h : (x >>= f) s = .ok b t) : ∃ a, f a s = .ok b t := by
  obtain ⟨a, u, hu, hf⟩ := Stateful.bind_eq_ok.mp h
  have hsame := hx s a u hu
  subst hsame
  exact ⟨a, hf⟩

end Reads

/-! ## Two computations -/

section Two

variable {α' β' : Type} {V : α → α' → Prop} {W : β → β' → Prop} {R : σ → τ → Prop}

/-- Both ended well, with values and in states that are related, or both failed. -/
inductive Agree (V : α → α' → Prop) (R : σ → τ → Prop) :
    EStateM.Result ε σ α → EStateM.Result ε τ α' → Prop
  | ok {a : α} {b : α'} {s : σ} {t : τ} (value : V a b) (state : R s t) :
    Agree V R (.ok a s) (.ok b t)
  | error (e e' : ε) (s : σ) (t : τ) : Agree V R (.error e s) (.error e' t)

theorem Agree.bind {R' : σ → τ → Prop} {x : EStateM ε σ α} {y : EStateM ε τ α'}
    {f : α → EStateM ε σ β} {g : α' → EStateM ε τ β'} {s : σ} {t : τ} (h : Agree V R (x s) (y t))
    (hf : ∀ a b s' t', x s = .ok a s' → V a b → R s' t' → Agree W R' (f a s') (g b t')) :
    Agree W R' ((x >>= f) s) ((y >>= g) t) := by
  generalize hx : x s = r at h
  generalize hy : y t = r' at h
  cases h with
  | ok value state =>
    rw [bind_of_ok hx, bind_of_ok hy]
    exact hf _ _ _ _ hx value state
  | error e e' s' t' =>
    rw [bind_of_error hx, bind_of_error hy]
    exact .error e e' s' t'

/-- Started in related states, the computations agree. -/
def Together (V : α → α' → Prop) (R : σ → τ → Prop) (x : EStateM ε σ α) (y : EStateM ε τ α') :
    Prop :=
  ∀ s t, R s t → Agree V R (x s) (y t)

namespace Together

theorem pure {a : α} {b : α'} (h : V a b) :
    Together V R (Pure.pure a : EStateM ε σ α) (Pure.pure b) :=
  fun _ _ hR => .ok h hR

theorem throw (e e' : ε) :
    Together V R (MonadExcept.throw e : EStateM ε σ α) (MonadExcept.throw e') :=
  fun s t _ => .error e e' s t

theorem bind {x : EStateM ε σ α} {y : EStateM ε τ α'} {f : α → EStateM ε σ β}
    {g : α' → EStateM ε τ β'} (hx : Together V R x y)
    (hf : ∀ a b, V a b → Together W R (f a) (g b)) : Together W R (x >>= f) (y >>= g) :=
  fun s t hR => (hx s t hR).bind fun a b s' t' _ hV => hf a b hV s' t'

/-- Nothing is done after a failure. -/
theorem throw_bind (e e' : ε) (f : α → EStateM ε σ β) (g : α' → EStateM ε τ β') :
    Together W R ((MonadExcept.throw e : EStateM ε σ α) >>= f)
      ((MonadExcept.throw e' : EStateM ε τ α') >>= g) :=
  bind (throw (V := fun _ _ => False) e e') fun _ _ h => h.elim

/-- Both go on from one value. -/
theorem bind_eq {x : EStateM ε σ α} {y : EStateM ε τ α} {f : α → EStateM ε σ β}
    {g : α → EStateM ε τ β'} (hx : Together Eq R x y) (hf : ∀ a, Together W R (f a) (g a)) :
    Together W R (x >>= f) (y >>= g) :=
  bind hx fun a b hab => by
    subst hab
    exact hf a

theorem ite {x x' : EStateM ε σ α} {y y' : EStateM ε τ α'} {c : Prop} [Decidable c]
    (hx : Together V R x y) (hx' : Together V R x' y') :
    Together V R (if c then x else x') (if c then y else y') := by
  split
  · exact hx
  · exact hx'

theorem modify {f : σ → σ} {g : τ → τ} (h : ∀ s t, R s t → R (f s) (g t)) :
    Together Eq R (modify f : EStateM ε σ PUnit) (modify g) :=
  fun s t hR => .ok rfl (h s t hR)

theorem get_bind {g : σ → EStateM ε σ α} {g' : τ → EStateM ε τ α'}
    (h : ∀ s t, R s t → Together V R (g s) (g' t)) : Together V R (get >>= g) (get >>= g') := by
  intro s t hR
  rw [bind_of_ok (show (get : EStateM ε σ σ) s = .ok s s from rfl),
    bind_of_ok (show (get : EStateM ε τ τ) t = .ok t t from rfl)]
  exact h s t hR s t hR

end Together

end Two

end TaskMachine.Stateful
