import Mathlib

namespace Reddish
namespace Library

/-!
# Computations that throw and keep their state

Code with mutable members and exceptions is read as a function from a state to
an outcome and a later state.  Throwing does not undo anything: whatever was
written before the throw is still there in the state the handler sees.  This
is what makes a statement about failure atomicity worth proving, so the state
is returned on both outcomes.

Reasoning goes through weakest preconditions.  A program is never unfolded
past its first call; each callee contributes one lemma about its weakest
precondition, and `Cmd.wp_step` hands its conclusion to the rest.
-/

/-- A computation over the state `σ` that returns an `α` or throws an `ε`.  An
exception carries the state of the moment it was thrown: nothing is taken back.
-/
def Cmd (ε σ α : Type) : Type :=
  σ -> Except ε α × σ

namespace Cmd

variable {ε σ τ α β ι : Type}

/-- Return a value and leave the state alone. -/
protected def pure (value : α) : Cmd ε σ α :=
  fun s => (.ok value, s)

/-- Run the rest only when the first part returned. -/
protected def bind (first : Cmd ε σ α) (rest : α -> Cmd ε σ β) : Cmd ε σ β :=
  fun s =>
    match first s with
    | (.ok value, t) => rest value t
    | (.error thrown, t) => (.error thrown, t)

instance : Monad (Cmd ε σ) where
  pure := Cmd.pure
  bind := Cmd.bind

theorem bind_ok {first : Cmd ε σ α} {rest : α -> Cmd ε σ β} {s t : σ} {value : α}
    (ran : first s = (.ok value, t)) : (first >>= rest) s = rest value t := by
  change Cmd.bind first rest s = _
  unfold Cmd.bind
  rw [ran]

theorem bind_error {first : Cmd ε σ α} {rest : α -> Cmd ε σ β} {s t : σ} {thrown : ε}
    (ran : first s = (.error thrown, t)) : (first >>= rest) s = (.error thrown, t) := by
  change Cmd.bind first rest s = _
  unfold Cmd.bind
  rw [ran]

/-- Throw, keeping every write made so far. -/
def raise (thrown : ε) : Cmd ε σ α :=
  fun s => (.error thrown, s)

/-- Run a handler in the state the failed computation left behind. -/
def handle (body : Cmd ε σ α) (handler : ε -> Cmd ε σ α) : Cmd ε σ α :=
  fun s =>
    match body s with
    | (.ok value, t) => (.ok value, t)
    | (.error thrown, t) => handler thrown t

def read : Cmd ε σ σ :=
  fun s => (.ok s, s)

/-- Replace the state by a function of itself. -/
def update (change : σ -> σ) : Cmd ε σ Unit :=
  fun s => (.ok (), change s)

/-- Run a computation on a component of the state. -/
def zoom (view : σ -> τ) (store : τ -> σ -> σ) (body : Cmd ε τ α) : Cmd ε σ α :=
  fun s =>
    match body (view s) with
    | (outcome, t) => (outcome, store t s)

/-- Run a command under a condition. -/
def onlyIf (condition : Prop) [Decidable condition] (body : Cmd ε σ Unit) : Cmd ε σ Unit :=
  if condition then body else pure ()

def require (condition : Prop) [Decidable condition] (thrown : ε) : Cmd ε σ Unit :=
  if condition then pure () else raise thrown

/-- Return or throw what a function without effects computed. -/
def lift (outcome : Except ε α) : Cmd ε σ α :=
  fun s => (outcome, s)

/-- Run a command for each element of a list, from left to right. -/
def forEach : List ι -> (ι -> Cmd ε σ Unit) -> Cmd ε σ Unit
  | [], _ => pure ()
  | head :: tail, body => do
      body head
      forEach tail body

/-! ## Weakest preconditions -/

/-- The states from which `body` ends in `Q` when it returns and in `E` when
it throws.  A computation is total, so one of the two always applies. -/
def wp (body : Cmd ε σ α) (Q : α -> σ -> Prop) (E : ε -> σ -> Prop) (s : σ) : Prop :=
  match body s with
  | (.ok value, t) => Q value t
  | (.error thrown, t) => E thrown t

section Rules

variable {Q : α -> σ -> Prop} {E : ε -> σ -> Prop} {s t : σ}

theorem wp_mono {body : Cmd ε σ α} {Q' : α -> σ -> Prop} {E' : ε -> σ -> Prop}
    (holds : body.wp Q E s)
    (returned : forall value later, Q value later -> Q' value later)
    (threw : forall thrown later, E thrown later -> E' thrown later) :
    body.wp Q' E' s := by
  unfold wp at holds ⊢
  rcases outcome : body s with ⟨value | thrown, later⟩
  · rw [outcome] at holds
    exact threw _ _ holds
  · rw [outcome] at holds
    exact returned _ _ holds

/-- What holds of every outcome holds after any command. -/
theorem wp_of_forall {body : Cmd ε σ α} (returned : forall value later, Q value later)
    (threw : forall thrown later, E thrown later) : body.wp Q E s := by
  unfold wp
  rcases body s with ⟨thrown | value, later⟩
  · exact threw thrown later
  · exact returned value later

@[simp] theorem wp_pure (value : α) :
    (pure value : Cmd ε σ α).wp Q E s <-> Q value s :=
  Iff.rfl

@[simp] theorem wp_bind (first : Cmd ε σ β) (rest : β -> Cmd ε σ α) :
    (first >>= rest).wp Q E s <->
      first.wp (fun value later => (rest value).wp Q E later) E s := by
  change (Cmd.bind first rest).wp Q E s <-> _
  unfold wp Cmd.bind
  rcases outcome : first s with ⟨thrown | value, later⟩
  · rfl
  · rfl

/-- A first command with a known postcondition, and the rest from there. -/
theorem wp_step {first : Cmd ε σ β} {rest : β -> Cmd ε σ α} {Q' : β -> σ -> Prop} {E' : ε -> σ -> Prop}
    (holds : first.wp Q' E' s)
    (returned : forall value later, Q' value later -> (rest value).wp Q E later)
    (threw : forall thrown later, E' thrown later -> E thrown later) : (first >>= rest).wp Q E s :=
  (wp_bind first rest).mpr (wp_mono holds returned threw)

@[simp] theorem wp_raise (thrown : ε) :
    (raise thrown : Cmd ε σ α).wp Q E s <-> E thrown s :=
  Iff.rfl

@[simp] theorem wp_handle (body : Cmd ε σ α) (handler : ε -> Cmd ε σ α) :
    (body.handle handler).wp Q E s <->
      body.wp Q (fun thrown later => (handler thrown).wp Q E later) s := by
  unfold wp handle
  rcases outcome : body s with ⟨thrown | value, later⟩
  · rfl
  · rfl

@[simp] theorem wp_read {Q : σ -> σ -> Prop} :
    (read : Cmd ε σ σ).wp Q E s <-> Q s s :=
  Iff.rfl

@[simp] theorem wp_update {Q : Unit -> σ -> Prop} (change : σ -> σ) :
    (update change : Cmd ε σ Unit).wp Q E s <-> Q () (change s) :=
  Iff.rfl

theorem wp_zoom (view : σ -> τ) (store : τ -> σ -> σ) (body : Cmd ε τ α) :
    (zoom view store body).wp Q E s <->
      body.wp (fun value part => Q value (store part s))
        (fun thrown part => E thrown (store part s)) (view s) := by
  unfold wp zoom
  rcases outcome : body (view s) with ⟨thrown | value, later⟩
  · rfl
  · rfl

theorem wp_ite {condition : Prop} [Decidable condition] {yes no : Cmd ε σ α}
    (positive : condition -> yes.wp Q E s) (negative : ¬ condition -> no.wp Q E s) :
    (if condition then yes else no).wp Q E s := by
  by_cases holds : condition
  · rw [if_pos holds]
    exact positive holds
  · rw [if_neg holds]
    exact negative holds

theorem wp_onlyIf {condition : Prop} [Decidable condition] {body : Cmd ε σ Unit}
    {Q : Unit -> σ -> Prop} (positive : condition -> body.wp Q E s)
    (negative : ¬ condition -> Q () s) : (onlyIf condition body).wp Q E s :=
  wp_ite positive negative

theorem wp_require {condition : Prop} [Decidable condition] {thrown : ε}
    {Q : Unit -> σ -> Prop} (positive : condition -> Q () s)
    (negative : ¬ condition -> E thrown s) : (require condition thrown).wp Q E s :=
  wp_ite positive negative

theorem wp_and {body : Cmd ε σ α} {Q' : α -> σ -> Prop} {E' : ε -> σ -> Prop}
    (one : body.wp Q E s) (two : body.wp Q' E' s) :
    body.wp (fun value t => Q value t ∧ Q' value t) (fun thrown t => E thrown t ∧ E' thrown t)
      s := by
  unfold wp at one two ⊢
  rcases outcome : body s with ⟨thrown | value, t⟩
  · rw [outcome] at one two
    exact ⟨one, two⟩
  · rw [outcome] at one two
    exact ⟨one, two⟩

/-- What holds however a command ends is a property of its final state. -/
theorem wp_state {body : Cmd ε σ α} (P : σ -> Prop) :
    body.wp (fun _ => P) (fun _ => P) s <-> P (body s).2 := by
  unfold wp
  rcases body s with ⟨thrown | value, t⟩
  · exact Iff.rfl
  · exact Iff.rfl

theorem wp_final {body : Cmd ε σ α} {P : σ -> Prop} {outcome : Except ε α}
    (holds : body.wp (fun _ => P) (fun _ => P) s) (ran : body s = (outcome, t)) : P t := by
  rw [wp_state, ran] at holds
  exact holds

/-- A postcondition may speak of the run that led to it. -/
theorem wp_ran {body : Cmd ε σ α} (holds : body.wp Q E s) :
    body.wp (fun value t => Q value t ∧ body s = (.ok value, t)) E s := by
  unfold wp at holds ⊢
  rcases outcome : body s with ⟨thrown | value, t⟩
  · rw [outcome] at holds
    exact holds
  · rw [outcome] at holds
    exact ⟨holds, rfl⟩

/-- A returning run ends in the postcondition. -/
theorem of_wp_ok {body : Cmd ε σ α} {value : α} (holds : body.wp Q E s)
    (outcome : body s = (.ok value, t)) : Q value t := by
  unfold wp at holds
  rw [outcome] at holds
  exact holds

/-- A throwing run ends in the exceptional postcondition. -/
theorem of_wp_error {body : Cmd ε σ α} {thrown : ε} (holds : body.wp Q E s)
    (outcome : body s = (.error thrown, t)) : E thrown t := by
  unfold wp at holds
  rw [outcome] at holds
  exact holds

/-- A precondition that excludes the exceptional outcome gives a run. -/
theorem exists_ok_of_wp {body : Cmd ε σ α} (holds : body.wp Q (fun _ _ => False) s) :
    exists value later, body s = (.ok value, later) ∧ Q value later := by
  unfold wp at holds
  rcases outcome : body s with ⟨thrown | value, later⟩
  · rw [outcome] at holds
    exact False.elim holds
  · rw [outcome] at holds
    exact ⟨value, later, rfl, holds⟩

/-- The invariant rule: what each round keeps, the whole loop keeps.  The
invariant speaks about the elements that are still to come. -/
theorem wp_forEach {body : ι -> Cmd ε σ Unit} (I : List ι -> σ -> Prop)
    (round : forall head tail later, I (head :: tail) later ->
      (body head).wp (fun _ after => I tail after) E later) :
    forall (items : List ι) (s : σ), I items s ->
      (forEach items body).wp (fun _ after => I [] after) E s := by
  intro items
  induction items with
  | nil =>
      intro s holds
      exact holds
  | cons head tail ih =>
      intro s holds
      change (body head >>= fun _ => forEach tail body).wp _ _ s
      rw [wp_bind]
      exact wp_mono (round head tail s holds)
        (fun _ later kept => ih later kept) (fun _ _ kept => kept)

/-! ## Sequences of steps -/

/-- A sequence of steps that starts with step number `n`: `P k` holds after the
first `k` steps, `F k` of the state that step `k` leaves when it throws, and `R` at
the end. -/
def Through (P F : Nat -> σ -> Prop) (R : σ -> Prop) : Nat -> List (Cmd ε σ Unit) -> σ -> Prop
  | n, [], s => P n s ∧ R s
  | n, step :: rest, s =>
      P n s ∧ step.wp (fun _ later => Through P F R (n + 1) rest later) (fun _ later => F n later) s

variable {P F P' F' : Nat -> σ -> Prop} {R R' : σ -> Prop} {n : Nat}
  {steps first second : List (Cmd ε σ Unit)}

theorem Through.now (through : Through P F R n steps s) : P n s := by
  cases steps with
  | nil | cons => exact through.1

theorem Through.append (through : Through P F R n first s)
    (next : forall later, R later -> Through P F R' (n + first.length) second later) :
    Through P F R' n (first ++ second) s := by
  induction first generalizing n s with
  | nil => exact next s through.2
  | cons step rest ih =>
      refine ⟨through.1, wp_mono through.2 ?_ (fun _ _ failed => failed)⟩
      intro _ later through
      refine ih through ?_
      intro last reached
      have through := next last reached
      rw [List.length_cons, Nat.add_comm rest.length 1, <- Nat.add_assoc] at through
      exact through

theorem Through.mono (through : Through P F R n steps s)
    (between : forall k later, n ≤ k -> k ≤ n + steps.length -> P k later -> P' k later)
    (failed : forall k later, n ≤ k -> k < n + steps.length -> F k later -> F' k later) :
    Through P' F' R n steps s := by
  induction steps generalizing n s with
  | nil => exact ⟨between n s (Nat.le_refl _) (Nat.le_refl _) through.1, through.2⟩
  | cons step rest ih =>
      rw [List.length_cons] at between failed
      refine ⟨between n s (Nat.le_refl _) (by omega) through.1, wp_mono through.2 ?_ ?_⟩
      · intro _ later through
        refine ih through ?_ ?_
        · exact fun k last above below => between k last (by omega) (by omega)
        · exact fun k last above below => failed k last (by omega) (by omega)
      · intro _ later holds
        exact failed n later (Nat.le_refl _) (by omega) holds

/-- The first `count` steps return and lead to `t`. -/
def Reaches (steps : List (Cmd ε σ Unit)) (s : σ) (count : Nat) (t : σ) : Prop :=
  forEach (steps.take count) id s = (.ok (), t)

/-- Step number `count` throws and leaves `t`. -/
def Breaks (steps : List (Cmd ε σ Unit)) (s : σ) (count : Nat) (thrown : ε) (t : σ) : Prop :=
  exists before step, Reaches steps s count before ∧ steps[count]? = some step ∧
    step before = (.error thrown, t)

theorem reaches_succ {step : Cmd ε σ Unit} {count : Nat}
    (reaches : Reaches (step :: steps) s (count + 1) t) :
    exists later, step s = (.ok (), later) ∧ Reaches steps later count t := by
  unfold Reaches at reaches
  change (step >>= fun _ => forEach (steps.take count) id) s = _ at reaches
  rcases ran : step s with ⟨thrown | _, later⟩
  · rw [bind_error ran] at reaches
    cases reaches
  · rw [bind_ok ran] at reaches
    exact ⟨later, rfl, reaches⟩

theorem Through.reached {count : Nat} (through : Through P F R n steps s)
    (inside : count ≤ steps.length) (reaches : Reaches steps s count t) : P (n + count) t := by
  induction count generalizing n steps s with
  | zero =>
      cases reaches
      exact through.now
  | succ count ih =>
      cases steps with
      | nil => cases inside
      | cons step rest =>
          rcases reaches_succ reaches with ⟨later, ran, reaches⟩
          have rest := of_wp_ok through.2 ran
          have next := ih rest (Nat.le_of_succ_le_succ inside) reaches
          rw [Nat.add_comm count 1, <- Nat.add_assoc]
          exact next

theorem Through.broken {count : Nat} {thrown : ε} (through : Through P F R n steps s)
    (breaks : Breaks steps s count thrown t) : F (n + count) t := by
  rcases breaks with ⟨before, step, reaches, found, threw⟩
  induction count generalizing n steps s with
  | zero =>
      cases steps with
      | nil => cases found
      | cons first rest =>
          cases found
          cases reaches
          have failed := of_wp_error through.2 threw
          exact failed
  | succ count ih =>
      cases steps with
      | nil => cases found
      | cons first rest =>
          rcases reaches_succ reaches with ⟨later, ran, reaches⟩
          have rest := of_wp_ok through.2 ran
          have next := ih rest reaches found
          rw [Nat.add_comm count 1, <- Nat.add_assoc]
          exact next

/-- A sequence that throws does so in one of its steps. -/
theorem forEach_breaks {thrown : ε} (ran : forEach steps id s = (.error thrown, t)) :
    exists count, Breaks steps s count thrown t := by
  induction steps generalizing s with
  | nil => cases ran
  | cons step rest ih =>
      change (step >>= fun _ => forEach rest id) s = _ at ran
      rcases stepped : step s with ⟨other | _, later⟩
      · rw [bind_error stepped] at ran
        cases ran
        exact ⟨0, s, step, rfl, rfl, stepped⟩
      · rw [bind_ok stepped] at ran
        rcases ih ran with ⟨count, before, last, reaches, found, threw⟩
        refine ⟨count + 1, before, last, ?_, found, threw⟩
        change (step >>= fun _ => forEach (rest.take count) id) s = _
        rw [bind_ok stepped]
        exact reaches

theorem wp_through (through : Through P F R n steps s) :
    (forEach steps id).wp (fun _ later => R later) (fun _ _ => True) s := by
  induction steps generalizing n s with
  | nil => exact through.2
  | cons step others ih =>
      change (step >>= fun _ => forEach others id).wp _ _ s
      rw [wp_bind]
      exact wp_mono through.2 (fun _ later through => ih through)
        (fun _ _ _ => trivial)

end Rules

end Cmd

end Library
end Reddish
