import Reddish.Database.Transparency

namespace Reddish

open Library Numeral

/-!
# One key at a time

What an operation does to its key depends on the entry of that key alone.  Seen
from there a run of operations is a run of a small sequential object, with two
additions: a deadline may pass between two operations, and an operation may throw
without an effect.  It may do so only for a reason: memory or the log fail, or the
request is refused for its size.
-/

namespace Database

variable {α : Type} {op : Op α} {key : Bytes} {world : World} {oversize : Prop}

/-- A database between two calls that is not replaying. -/
structure Live (world : World) : Prop where
  idle : Idle world
  live : world.db.replaying = false

theorem Reachable.toLive (reachable : Reachable world) : Live world :=
  ⟨reachable.idle, reachable.live⟩

/-- A later state of the same database, between two calls again. -/
structure Continues (world after : World) : Prop where
  live : Live after
  evolves : World.Evolves world after

theorem Continues.healthy {after : World} (continues : Continues world after)
    (healthy : world.Healthy) : after.Healthy := by
  rcases continues.live.idle with ⟨space, ready⟩
  exact healthy.evolves continues.evolves ready.sound

/-- What an operation on a key leaves there when it throws: the entry it found,
unless that had expired and was removed. -/
def Spared (key : Bytes) (world after : World) : Prop :=
  Continues world after ∧ (after.db.lookup key = world.db.lookup key ∨
    exists now, world.Reads now ∧ after.db.lookup key = seen now world key)

theorem result_writable_seen {space : Keyspace} (ready : Ready world space)
    (live : world.db.replaying = false) (now : Int64) :
    (Spec.writable (world.time now) key space).result = seen now world key := by
  rw [time_of_live live, Spec.result_writable, Spec.visible, ready.rep.find_eq, seen]

theorem Aborted.spared {after : World} {space : Keyspace} {thrown : Exn} (ready : Ready world space)
    (live : world.db.replaying = false) (aborted : Aborted world after key space oversize thrown) :
    Spared key world after := by
  rcases aborted with failed | ⟨now, reads, failed⟩
  · refine ⟨⟨⟨⟨space, failed.ready⟩, failed.evolves.replaying.trans live⟩, failed.evolves⟩, Or.inl ?_⟩
    rw [<- failed.rep.find_eq, ready.rep.find_eq]
  · refine ⟨⟨⟨⟨_, failed.ready⟩, failed.evolves.replaying.trans live⟩, failed.evolves⟩,
      Or.inr ⟨now, reads, ?_⟩⟩
    rw [<- failed.rep.find_eq, Spec.find_writable, result_writable_seen ready live]

/-- An operation that follows a plan, seen from its key. -/
theorem Implements.onKey {spec : Option Int64 -> Keyspace -> Spec.Outcome α}
    {plan : Option Entry -> Spec.Plan α} (implements : Implements op key oversize spec)
    (follows : Spec.Follows key spec plan) (live : Live world) :
    op.wp
      (fun result after => Continues world after ∧ exists now, world.Reads now ∧
        result = (plan (seen now world key)).result ∧
        after.db.lookup key = (plan (seen now world key)).effect.entry key (seen now world key))
      (fun _ after => Spared key world after) world := by
  rcases live with ⟨⟨space, ready⟩, live⟩
  refine Cmd.wp_mono (implements world space ready) ?_ (fun _ _ failed => failed.spared ready live)
  rintro result after ⟨now, reads, equal, reached⟩
  have seenThere := @result_writable_seen key _ _ ready live now
  rw [follows, seenThere] at equal reached
  refine ⟨⟨⟨⟨_, reached.ready⟩, reached.evolves.replaying.trans live⟩, reached.evolves⟩, now, reads,
    equal.symm, ?_⟩
  rw [<- reached.rep.find_eq]
  change (Spec.Effect.apply key _ _).find key = _
  rw [Spec.find_apply, seenThere]

/-- An operation that reads, seen from its key. -/
theorem Implements.readsKey {answer : Option Entry -> α}
    (implements : Implements op key oversize (Spec.reading answer key)) (live : Live world) :
    op.wp
      (fun result after => Continues world after ∧ exists now, world.Reads now ∧
        result = answer (seen now world key) ∧ after.db.lookup key = world.db.lookup key)
      (fun _ after => Spared key world after) world := by
  rcases live with ⟨⟨space, ready⟩, live⟩
  refine Cmd.wp_mono (implements world space ready) ?_ (fun _ _ failed => failed.spared ready live)
  rintro result after ⟨now, reads, equal, reached⟩
  have same : (Spec.active (world.time now) key space).space.find key = space.find key := by
    unfold Spec.active
    cases found : space.find key with
    | none => exact found
    | some entry =>
        by_cases gone : Spec.expired (world.time now) entry = true
        · simp only [gone, if_true]
          exact found
        · simp only [gone]
          rw [if_neg Bool.false_ne_true, Keyspace.find_touch, found]
  refine ⟨⟨⟨⟨_, reached.ready⟩, reached.evolves.replaying.trans live⟩, reached.evolves⟩, now, reads,
    ?_, ?_⟩
  · rw [<- equal, Spec.reading, time_of_live live, Spec.result_active, Spec.visible,
      ready.rep.find_eq, seen]
  · rw [<- reached.rep.find_eq, <- ready.rep.find_eq]
    exact same

/-- An exception has a cause: the environment is not healthy, the request is too
large, or the log does not take one of its records. -/
def Excused (oversize refused : Prop) (world : World) (thrown : Exn) : Prop :=
  ¬ world.Healthy ∨ thrown = .error .requestTooLarge ∧
    (oversize ∨ world.logging = true ∧ refused)

/-- In a healthy environment nothing but the size of a request makes it throw. -/
theorem Implements.excused {spec : Option Int64 -> Keyspace -> Spec.Outcome α} {refused : Prop}
    (implements : Implements op key oversize spec) (free : ¬ oversize -> LogFree refused op)
    (large : oversize -> (op world).1 = .error (.error .requestTooLarge)) (idle : Idle world)
    {after : World} {thrown : Exn} (ran : op world = (.error thrown, after)) :
    Excused oversize refused world thrown := by
  rcases idle with ⟨space, ready⟩
  by_cases healthy : world.Healthy
  · refine Or.inr ?_
    by_cases long : oversize
    · have equal := large long
      rw [ran] at equal
      exact ⟨Except.error.inj equal, Or.inl long⟩
    · rcases implements.total (free long) long ready healthy with
        ⟨now, later, -, returned, -⟩ | ⟨refused, later, threw, -, aborted⟩
      · rw [ran] at returned
        cases returned
      · rw [ran] at threw
        cases threw
        exact ⟨rfl, Or.inr ⟨aborted.logging healthy.memory long, refused⟩⟩
  · exact Or.inl healthy

/-! ## Sequential objects -/

/-- A sequential object at a key: the operations on it, what a state looks like in
the database, what the passing of a deadline does to it, and the answers and states
of its operations.  A request of an operation is `oversize` when the database does
not take it, and `refused` when the log does not. -/
structure Automaton (S C : Type) where
  run : C -> Op Answer
  entry : S -> Option Entry
  settle : Int64 -> S -> S
  answer : C -> S -> Answer
  next : C -> S -> S
  reads : C -> Bool
  oversize : C -> Prop
  refused : C -> Prop

namespace Automaton

variable {S C : Type}

/-- The state after an operation; reading does not remove what has expired. -/
def later (object : Automaton S C) (now : Int64) (call : C) (state : S) : S :=
  if object.reads call = true then state else object.next call (object.settle now state)

/-- The database answers a sequence of operations as the object does, and `Holds`
is true of it all the time.  An operation that throws has a cause and no effect,
and a healthy environment stays healthy. -/
def Tracks (object : Automaton S C) (Holds : World -> S -> Prop) : List C -> World -> S -> Prop
  | [], world, state => Holds world state
  | call :: rest, world, state => Holds world state ∧ exists now, world.Reads now ∧
      (world.Healthy -> (object.run call world).2.Healthy) ∧
      match object.run call world with
      | (.ok answer, after) => answer = object.answer call (object.settle now state) ∧
          Tracks object Holds rest after (object.later now call state)
      | (.error thrown, after) =>
          Excused (object.oversize call) (object.refused call) world thrown ∧
            (Tracks object Holds rest after state ∨
              Tracks object Holds rest after (object.settle now state))

/-- The answers of a sequence of operations, until one of them throws. -/
def answers (object : Automaton S C) : List C -> World -> List Answer
  | [], _ => []
  | call :: rest, world =>
      match object.run call world with
      | (.ok answer, after) => answer :: answers object rest after
      | (.error _, _) => []

def Steps (object : Automaton S C) (key : Bytes) (call : C) : Prop :=
  forall world state, Live world -> world.db.lookup key = object.entry state ->
    (object.run call).wp
      (fun answer after => Continues world after ∧ exists now, world.Reads now ∧
        answer = object.answer call (object.settle now state) ∧
        after.db.lookup key = object.entry (object.later now call state))
      (fun thrown after => Excused (object.oversize call) (object.refused call) world thrown ∧
        Spared key world after) world

/-- The passing of a deadline, in the object and in the database. -/
def Settles (object : Automaton S C) : Prop :=
  forall now state, object.entry (object.settle now state) =
    (object.entry state).filter fun entry => !Spec.expired (some now) entry

theorem Settles.seen {object : Automaton S C} (settles : object.Settles) {state : S} {now : Int64}
    (here : world.db.lookup key = object.entry state) :
    Database.seen now world key = object.entry (object.settle now state) := by
  rw [Database.seen, here, settles]

/-- A run is a sequence of steps. -/
theorem tracks {object : Automaton S C} {Holds : World -> S -> Prop} (settles : object.Settles)
    (steps : forall call, object.Steps key call)
    (holds : forall world state, Live world -> world.db.lookup key = object.entry state ->
      Holds world state) (calls : List C) :
    forall world state, Live world -> world.db.lookup key = object.entry state ->
      object.Tracks Holds calls world state := by
  induction calls with
  | nil => exact holds
  | cons call rest ih =>
      intro world state live here
      refine ⟨holds world state live here, ?_⟩
      have step := steps call world state live here
      unfold Cmd.wp at step
      rcases ran : object.run call world with ⟨thrown | answer, after⟩
      · rw [ran] at step
        rcases step with ⟨excused, continues, same | ⟨now, reads, gone⟩⟩
        · refine ⟨world.steady.reading 0, ⟨0, rfl⟩, continues.healthy, excused, Or.inl ?_⟩
          exact ih after state continues.live (same.trans here)
        · rw [settles.seen here] at gone
          exact ⟨now, reads, continues.healthy, excused, Or.inr (ih after _ continues.live gone)⟩
      · rw [ran] at step
        rcases step with ⟨continues, now, reads, equal, there⟩
        exact ⟨now, reads, continues.healthy, equal, ih after _ continues.live there⟩

/-- An operation and the cause of its exceptions. -/
theorem steps_excused {object : Automaton S C} {call : C} {op : Op α} {wrap : α -> Answer}
    {spec : Option Int64 -> Keyspace -> Spec.Outcome α} {Q : Answer -> World -> Prop}
    (runs : object.run call = answering wrap op)
    (implements : Implements op key (object.oversize call) spec)
    (free : ¬ object.oversize call -> LogFree (object.refused call) op)
    (large : object.oversize call -> (op world).1 = .error (.error .requestTooLarge))
    (live : Live world)
    (holds : op.wp (fun value => Q (wrap value)) (fun _ after => Spared key world after) world) :
    (object.run call).wp Q
      (fun thrown after => Excused (object.oversize call) (object.refused call) world thrown ∧
        Spared key world after) world := by
  unfold Cmd.wp at holds ⊢
  rcases ran : op world with ⟨thrown | value, after⟩
  · rw [ran] at holds
    rw [runs, answering_error ran]
    exact ⟨implements.excused free large live.idle ran, holds⟩
  · rw [ran] at holds
    rw [runs, answering_ok ran]
    exact holds

theorem steps_writing {object : Automaton S C} (settles : object.Settles) {call : C} {op : Op α}
    {wrap : α -> Answer} {spec : Option Int64 -> Keyspace -> Spec.Outcome α}
    {plan : Option Entry -> Spec.Plan α} (runs : object.run call = answering wrap op)
    (writes : object.reads call = false)
    (implements : Implements op key (object.oversize call) spec)
    (free : ¬ object.oversize call -> LogFree (object.refused call) op)
    (large : object.oversize call -> forall world,
      (op world).1 = .error (.error .requestTooLarge))
    (follows : Spec.Follows key spec plan)
    (agrees : forall state,
      wrap (plan (object.entry state)).result = object.answer call state ∧
      (plan (object.entry state)).effect.entry key (object.entry state) =
        object.entry (object.next call state)) : object.Steps key call := by
  intro world state live here
  refine steps_excused runs implements free (fun long => large long world) live ?_
  refine Cmd.wp_mono (implements.onKey follows live) ?_ (fun _ _ spared => spared)
  rintro result after ⟨continues, now, reads, rfl, there⟩
  rw [settles.seen here] at there ⊢
  refine ⟨continues, now, reads, (agrees _).1, ?_⟩
  rw [there, (agrees _).2, later, writes, if_neg Bool.false_ne_true]

theorem steps_reading {object : Automaton S C} (settles : object.Settles) {call : C} {op : Op α}
    {wrap : α -> Answer} {answer : Option Entry -> α} (runs : object.run call = answering wrap op)
    (reading : object.reads call = true) (small : object.oversize call = False)
    (implements : Implements op key False (Spec.reading answer key)) (free : LogFree False op)
    (answers : forall state, wrap (answer (object.entry state)) = object.answer call state) :
    object.Steps key call := by
  intro world state live here
  rw [<- small] at implements
  refine steps_excused runs implements (fun _ => free.weaken False.elim)
    (fun long => (small.mp long).elim) live ?_
  refine Cmd.wp_mono (implements.readsKey live) ?_ (fun _ _ spared => spared)
  rintro result after ⟨continues, now, reads, rfl, there⟩
  rw [settles.seen here]
  refine ⟨continues, now, reads, answers _, ?_⟩
  rw [there, here, later, reading, if_pos rfl]

end Automaton

end Database

end Reddish
