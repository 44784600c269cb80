import Reddish.Server.Delivery

namespace Reddish

open Library

/-!
# The event loop

A round of the loop of `start` gives a turn to the clients at the front of
`pending_clients` and then handles what the sockets report.  Handlers only add
clients at the end, so that every client that waits gets its turn in the round
that its place calls for, whatever the others send in the meantime.
-/

namespace Server

variable {Store : Type} {service : Service Store} {state later : State Store} {id : ClientId}

/-- What `wait` returns, with the outcomes of the calls on the sockets. -/
inductive SocketEvent where
  | listener (error : Bool) (accepted : List ClientId)
  | client (id : ClientId) (readable : Option (List Receiving × List Sending))
      (writable : Option (List Sending)) (error : Bool)

/-- What a round finds: a failure of the log or of the maintenance, the outcomes
of sending during the turns, and the events. -/
structure Round where
  failed : Bool
  sendings : Nat -> List Sending
  events : List SocketEvent

def handlers (service : Service Store) (readable : Option (List Receiving × List Sending))
    (writable : Option (List Sending)) (error : Bool) : List (Handler Store Unit) :=
  (readable.map fun outcomes => readClient service outcomes.1 outcomes.2).toList ++
    (writable.map flushClient).toList ++ if error then [failClient] else []

/-- The body of the loop over the events. -/
def dispatch (service : Service Store) : SocketEvent -> Cmd Exn (State Store) Unit
  | .listener true _ => Cmd.raise (.error .listeningSocketFailed)
  | .listener false accepted => Cmd.forEach accepted fun id => Cmd.update (acceptClient id)
  | .client id readable writable error =>
      Cmd.forEach (handlers service readable writable error) fun handler => do
        let state <- Cmd.read
        Cmd.onlyIf (id ∈ state.clients) (onClient id handler)

/-- The loop over `pending_clients`. -/
def takeTurns (service : Service Store) (sendings : List (List Sending)) :
    Cmd Exn (State Store) Unit :=
  Cmd.forEach sendings (popPending service)

/-- One round of the loop of `start`: the clients at the front of the queue have
their turns before the events are looked at. -/
def runRound (service : Service Store) (round : Round) : Cmd Exn (State Store) Unit := do
  Cmd.require (round.failed = false) (.error .diskWriteFailed)
  let state <- Cmd.read
  takeTurns service ((List.range (min state.pending.length queueTurn)).map round.sendings)
  Cmd.forEach round.events (dispatch service)

/-- The rounds of a run of `start`. -/
def runRounds (service : Service Store) (rounds : List Round) : Cmd Exn (State Store) Unit :=
  Cmd.forEach rounds (runRound service)

/-! ## The queue -/

/-- The first clients were taken from the queue and others added at its end. -/
def Dequeued (count : Nat) (state later : State Store) : Prop :=
  exists more, later.pending = state.pending.drop count ++ more

/-- Code that takes clients from the queue whenever it returns. -/
def Dequeues (count : Nat) (state : State Store) (body : Cmd Exn (State Store) Unit) : Prop :=
  body.wp (fun _ => Dequeued count state) (fun _ _ => True) state

theorem Dequeued.refl : Dequeued 0 state state :=
  ⟨[], (List.append_nil _).symm⟩

theorem Dequeued.trans {first second : Nat} {middle : State Store}
    (one : Dequeued first state middle) (two : Dequeued second middle later)
    (enough : first + second ≤ state.pending.length ∨ second = 0) :
    Dequeued (first + second) state later := by
  rcases one with ⟨more, one⟩
  rcases two with ⟨others, two⟩
  refine ⟨more ++ others, ?_⟩
  rw [two, one, List.drop_append_of_le_length (by rw [List.length_drop]; omega), List.drop_drop,
    List.append_assoc]

theorem Dequeues.bind {first second : Nat} {body rest : Cmd Exn (State Store) Unit}
    (one : Dequeues first state body)
    (two : forall middle, Dequeued first state middle -> Dequeues second middle rest)
    (enough : first + second ≤ state.pending.length ∨ second = 0) :
    Dequeues (first + second) state (body >>= fun _ => rest) := by
  unfold Dequeues
  refine Cmd.wp_step one (fun _ middle taken => ?_) (fun _ _ _ => trivial)
  exact Cmd.wp_mono (two middle taken) (fun _ _ more => taken.trans more enough)
    (fun _ _ _ => trivial)

/-- Handlers take nobody from the queue. -/
theorem dequeues_onClient (handler : Handler Store Unit) :
    Dequeues 0 state (onClient id handler) := by
  unfold Dequeues onClient
  rw [Cmd.wp_zoom]
  exact Cmd.wp_of_forall (fun _ session => ⟨_, rfl⟩) (fun _ _ => trivial)

theorem dequeues_popPending (sendings : List Sending) (waiting : state.pending ≠ []) :
    Dequeues 1 state (popPending service sendings) := by
  unfold Dequeues popPending
  rw [Cmd.wp_bind, Cmd.wp_read]
  cases pending : state.pending with
  | nil => exact absurd pending waiting
  | cons id rest =>
      simp only
      rw [Cmd.wp_bind, Cmd.wp_update]
      refine Cmd.wp_mono (dequeues_onClient _) ?_ (fun _ _ _ => trivial)
      rintro _ later ⟨more, added⟩
      refine ⟨more, ?_⟩
      rw [pending]
      exact added

theorem dequeues_forEach {ι : Type} {body : ι -> Cmd Exn (State Store) Unit}
    (step : forall item state, Dequeues 0 state (body item)) (items : List ι) :
    forall state, Dequeues 0 state (Cmd.forEach items body) := by
  induction items with
  | nil => exact fun _ => Dequeued.refl
  | cons item items ih =>
      exact fun state => (step item state).bind (fun middle _ => ih middle) (Or.inr rfl)

theorem dequeues_dispatch (event : SocketEvent) (state : State Store) :
    Dequeues 0 state (dispatch service event) := by
  cases event with
  | listener error accepted =>
      cases error with
      | true => exact trivial
      | false =>
          refine dequeues_forEach (fun id state => ?_) accepted state
          have same : (acceptClient id state).pending = state.pending := by
            unfold acceptClient
            split
            · rfl
            · rfl
          exact ⟨[], by rw [List.append_nil]; exact same⟩
  | client id readable writable error =>
      refine dequeues_forEach (fun handler state => ?_) _ state
      unfold Dequeues
      rw [Cmd.wp_bind, Cmd.wp_read]
      exact Cmd.wp_onlyIf (fun _ => dequeues_onClient handler) (fun _ => Dequeued.refl)

/-- The clients at the front take their turns. -/
theorem dequeues_takeTurns (sendings : List (List Sending)) : forall state : State Store,
    sendings.length ≤ state.pending.length ->
    Dequeues sendings.length state (takeTurns service sendings) := by
  induction sendings with
  | nil => exact fun _ _ => Dequeued.refl
  | cons first sendings ih =>
      intro state enough
      rw [List.length_cons] at enough
      have waiting : state.pending ≠ [] := by
        intro empty
        rw [empty] at enough
        cases enough
      rw [List.length_cons, Nat.add_comm]
      refine (dequeues_popPending first waiting).bind (fun middle taken => ih middle ?_)
        (Or.inl (by omega))
      rcases taken with ⟨more, popped⟩
      rw [popped, List.length_append, List.length_drop]
      omega

/-- A round takes the first clients, as many as it may. -/
theorem dequeues_runRound (round : Round) : Dequeues queueTurn state (runRound service round) := by
  unfold Dequeues runRound
  rw [Cmd.wp_bind]
  refine Cmd.wp_require (fun _ => ?_) (fun _ => trivial)
  rw [Cmd.wp_bind, Cmd.wp_read]
  refine Cmd.wp_mono ((dequeues_takeTurns _ state (by simp)).bind
    (fun middle _ => dequeues_forEach dequeues_dispatch round.events middle) (Or.inr rfl)) ?_
    (fun _ _ _ => trivial)
  rintro _ last ⟨more, pending⟩
  refine ⟨more, ?_⟩
  rw [pending, Nat.add_zero, List.length_map, List.length_range]
  rcases Nat.le_total state.pending.length queueTurn with short | long
  · rw [Nat.min_eq_left short, List.drop_length, List.drop_eq_nil_of_le short]
  · rw [Nat.min_eq_right long]

theorem forEach_thrown {ι : Type} {body : ι -> Cmd Exn (State Store) Unit} {thrown : Exn}
    (items more : List ι) : forall state, Cmd.forEach items body state = (.error thrown, later) ->
      Cmd.forEach (items ++ more) body state = (.error thrown, later) := by
  induction items with
  | nil => exact nofun
  | cons item items ih =>
      intro state failed
      change Cmd.bind (body item) (fun _ => Cmd.forEach items body) state = _ at failed
      change Cmd.bind (body item) (fun _ => Cmd.forEach (items ++ more) body) state = _
      unfold Cmd.bind at failed ⊢
      rcases ran : body item state with ⟨_ | _, middle⟩
      all_goals rw [ran] at failed
      · exact failed
      · exact ih middle failed

/-- A round that returned has given the first turns. -/
theorem takeTurns_front {round : Round} (ran : runRound service round state = (.ok (), later))
    (count : Nat) (few : count < min state.pending.length queueTurn) :
    exists turn, takeTurns service ((List.range count).map round.sendings) state =
      (.ok (), turn) := by
  rcases outcome : takeTurns service ((List.range count).map round.sendings) state with
    ⟨thrown | _, turn⟩
  · have split : List.range (min state.pending.length queueTurn) = List.range count ++
        (List.range (min state.pending.length queueTurn - count)).map (count + ·) := by
      rw [<- List.range_add]
      congr 1
      omega
    have never : (runRound service round).wp (fun _ _ => False) (fun _ _ => True) state := by
      unfold runRound
      rw [Cmd.wp_bind]
      refine Cmd.wp_require (fun _ => ?_) (fun _ => trivial)
      rw [Cmd.wp_bind, Cmd.wp_read, Cmd.wp_bind, split, List.map_append]
      unfold Cmd.wp takeTurns
      rw [forEach_thrown _ _ state outcome]
      exact trivial
    exact (Cmd.of_wp_ok never ran).elim
  · exact ⟨turn, rfl⟩

/-- A client that waits behind `i` others is at the front after `i % 64` turns of
the round number `i / 64`, if the loop gets that far. -/
theorem no_starvation (rounds : List Round) (i : Nat) (state : State Store)
    (place : state.pending[i]? = some id) (enough : i / queueTurn < rounds.length)
    (goes : (runRounds service rounds state).1 = .ok ()) :
    exists round middle turn, rounds[i / queueTurn]? = some round ∧
      runRounds service (rounds.take (i / queueTurn)) state = (.ok (), middle) ∧
      i % queueTurn < min middle.pending.length queueTurn ∧
      takeTurns service ((List.range (i % queueTurn)).map round.sendings) middle = (.ok (), turn) ∧
      turn.pending.head? = some id := by
  induction rounds generalizing i state with
  | nil => cases enough
  | cons round rounds ih =>
      change (Cmd.bind (runRound service round) (fun _ => runRounds service rounds) state).1 = _ at goes
      rcases ran : runRound service round state with ⟨thrown | _, next⟩
      · rw [Cmd.bind, ran] at goes
        cases goes
      rw [Cmd.bind, ran] at goes
      by_cases near : i < queueTurn
      · rw [Nat.div_eq_of_lt near, Nat.mod_eq_of_lt near]
        have inside : i < state.pending.length := (List.getElem?_eq_some_iff.mp place).1
        have few := Nat.lt_min.mpr ⟨inside, near⟩
        rcases takeTurns_front ran i few with ⟨turn, taken⟩
        have advanced := Cmd.of_wp_ok (dequeues_takeTurns _ state (by simp; omega)) taken
        rcases advanced with ⟨more, pending⟩
        refine ⟨round, state, turn, rfl, rfl, few, taken, ?_⟩
        rw [pending, List.length_map, List.length_range, List.head?_append, List.head?_drop, place]
        rfl
      · have advanced := Cmd.of_wp_ok (dequeues_runRound round) ran
        rcases advanced with ⟨more, pending⟩
        have far : i = i - queueTurn + queueTurn := by omega
        have there : next.pending[i - queueTurn]? = some id := by
          rw [far] at place
          rw [pending, List.getElem?_append_left, List.getElem?_drop, Nat.add_comm]
          · exact place
          · rw [List.length_drop]
            have inside := (List.getElem?_eq_some_iff.mp place).1
            omega
        have quotient : i / queueTurn = (i - queueTurn) / queueTurn + 1 := by
          conv_lhs => rw [far]
          exact Nat.add_div_right _ (by decide)
        have rest : i % queueTurn = (i - queueTurn) % queueTurn := by
          conv_lhs => rw [far]
          exact Nat.add_mod_right _ _
        rw [quotient, List.length_cons] at enough
        rcases ih (i - queueTurn) next there (by omega) goes with
          ⟨turns, middle, turn, known, before, place, taken, head⟩
        rw [quotient, rest]
        refine ⟨turns, middle, turn, known, ?_, place, taken, head⟩
        change Cmd.bind (runRound service round) _ state = _
        rw [Cmd.bind, ran]
        exact before

/-- A connection that waits for its turn with a command. -/
def waiting : ClientInfo :=
  { ClientInfo.fresh with buffer := ping, processingQueued := true }

def queue : State Unit :=
  { State.initial () with
    clients := ((∅ : Finmap fun _ : ClientId => ClientInfo).insert 5 waiting).insert 7 waiting
    pending := [5, 7] }

/-- Two clients wait, and the second one is next when the first has its reply. -/
theorem no_starvation_queue :
    exists turn, takeTurns pong [[.taken 6]] queue = (.ok (), turn) ∧
      turn.pending.head? = some 7 ∧ (turn.peers 5).sent = ascii "+PONG\r\n" ∧
      7 ∈ turn.clients := by
  rcases @no_starvation Unit pong 7 [⟨false, fun _ => [.taken 6], []⟩] 1 queue
    rfl (by decide) (by decide +kernel) with ⟨round, middle, turn, known, before, -, taken, head⟩
  cases known
  cases before
  have turned : turn = (takeTurns pong [[.taken 6]] queue).2 := (congrArg Prod.snd taken).symm
  refine ⟨turn, taken, head, ?_, ?_⟩
  · rw [turned]
    decide +kernel
  · rw [turned]
    decide +kernel

end Server
end Reddish
