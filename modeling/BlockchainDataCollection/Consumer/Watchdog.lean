import BlockchainDataCollection.Consumer.Offsets

/-!
# The idle watchdog

The two tasks of a consumer hand over through two sticky events.  As long as
the timeout task keeps up with the listening task, its timer only runs while
nothing is being handled.  Two messages whose notifications collapse into one
put it ahead, and the timer then runs during the work.
-/

namespace BlockchainDataCollection.Watchdog

open BlockchainDataCollection.Effect
open BlockchainDataCollection.Python
open BlockchainDataCollection.KafkaConsumer

/-- The message at this place was handled. -/
def HandledAt (state : ConsumerState) (partition offset : ℕ) : Prop :=
  ∃ event ∈ state.completed, event.partition = partition ∧ event.offset = offset

/-- Every message delivered so far was handled.  `committed` are the offsets
that the consumer started at. -/
def AllHandled (committed : ℕ → ℕ) (state : ConsumerState) : Prop :=
  ∀ partition offset, committed partition ≤ offset → offset < state.position partition →
    HandledAt state partition offset

/-- Every message delivered so far was handled, `event` apart. -/
def HandledExcept (committed : ℕ → ℕ) (state : ConsumerState) (event : KafkaEvent) : Prop :=
  ∀ partition offset, committed partition ≤ offset → offset < state.position partition →
    HandledAt state partition offset ∨ partition = event.partition ∧ offset = event.offset

/-- The timeout task keeps up: no message is retrieved when the task has yet to
see that the one before it came, although that one was already handled, or
after the task has raised; and the timer does not win against a notification
of a message that is not handled yet.  The error of the watchdog is its own. -/
def KeepsUp (state : ConsumerState) : ConsumerAction → Prop
  | .retrieve _ => state.timeout ≠ .raised ∧ ¬ (state.timeout = .waitingForEvent ∧
      state.kafkaTimeoutEvent = true ∧ state.kafkaConsumingEvent = true)
  | .expire => state.kafkaTimeoutEvent = false ∨ state.kafkaConsumingEvent = true
  | .retrieveFails error => error ≠ .kafkaConsumerPartitionsEmptyError
  | .decrement _ (.error error) => error ≠ .kafkaConsumerPartitionsEmptyError
  | .callback _ (.error error) => error ≠ .kafkaConsumerPartitionsEmptyError
  | _ => True

instance (state : ConsumerState) : (action : ConsumerAction) → Decidable (KeepsUp state action)
  | .retrieve _ => inferInstanceAs (Decidable (_ ∧ ¬ (_ ∧ _ ∧ _)))
  | .expire => inferInstanceAs (Decidable (_ ∨ _))
  | .retrieveFails _ => inferInstanceAs (Decidable (_ ≠ _))
  | .decrement _ (.error _) => inferInstanceAs (Decidable (_ ≠ _))
  | .callback _ (.error _) => inferInstanceAs (Decidable (_ ≠ _))
  | .decrement _ (.ok _) | .callback _ (.ok _) | .stopIteration | .seeEvent | .seeConsumed
  | .autoCommit | .propagate _ | .disconnect _ => isTrue trivial

/-- While a message is unfinished, the timeout task cannot get to its timer
without seeing an event that is still to come. -/
def Watching (state : ConsumerState) : Prop :=
  match state.timeout with
  | .waitingForEvent => state.kafkaTimeoutEvent = true ∧ state.kafkaConsumingEvent = false
  | .waitingForConsumed => state.kafkaConsumingEvent = true → state.kafkaTimeoutEvent = true
  | .raised => False

structure WatchdogInvariant (committed : ℕ → ℕ) (state : ConsumerState) : Prop where
  handled : state.listening = .retrieving ∨ state.listening = .stopped →
    AllHandled committed state
  current : ∀ event ∈ state.listening.current, HandledExcept committed state event
  watching : state.listening.current ≠ none ∨ ¬ AllHandled committed state → Watching state
  /-- A finished message was also announced. -/
  announced : state.timeout = .waitingForEvent → state.kafkaConsumingEvent = true →
    state.kafkaTimeoutEvent = true
  raised_of_gathered : state.gathered = some .kafkaConsumerPartitionsEmptyError →
    state.timeout = .raised
  gathered_of_disconnecting : ∀ error, state.collector = .disconnecting error →
    state.gathered = some error
  gathered_of_returned : ∀ code, state.collector = .returned code →
    ∃ error, state.gathered = some error ∧ code = exitCode error

variable {committed : ℕ → ℕ} {topic : ℕ → List String} {state : ConsumerState}

theorem watchdogInvariant_initial (committed : ℕ → ℕ) :
    WatchdogInvariant committed (initial committed) where
  handled _ _ _ hfrom hto := absurd hfrom hto.not_ge
  current _ h := by cases h
  watching h := by
    rcases h with h | h
    · exact absurd rfl h
    · exact absurd (fun _ _ hfrom hto => absurd hfrom hto.not_ge) h
  announced _ h := by cases h
  raised_of_gathered h := by cases h
  gathered_of_disconnecting _ h := by cases h
  gathered_of_returned _ h := by cases h

/-- The first error stays. -/
theorem gather_of_gathered {first : PyError} (h : state.gathered = some first) (error : PyError) :
    state.gather error = some first := by
  rw [ConsumerState.gather, h]
  rfl

namespace WatchdogInvariant

/-- The listening task raises an error that is not the watchdog's. -/
theorem listeningRaises (h : WatchdogInvariant committed state) {error : PyError}
    (herror : error ≠ .kafkaConsumerPartitionsEmptyError) :
    WatchdogInvariant committed (state.listeningRaises error) where
  handled hlistening := by rcases hlistening with hlistening | hlistening <;> cases hlistening
  current _ hcurrent := by cases hcurrent
  watching hbusy := h.watching (.inr (hbusy.resolve_left fun hcurrent => hcurrent rfl))
  announced := h.announced
  raised_of_gathered hgathered := by
    change state.gathered.or (some error) = _ at hgathered
    rcases Option.or_eq_some_iff.mp hgathered with hgathered | ⟨_, hgathered⟩
    · exact h.raised_of_gathered hgathered
    · exact absurd (Option.some.inj hgathered) herror
  gathered_of_disconnecting first hcollector :=
    gather_of_gathered (h.gathered_of_disconnecting first hcollector) error
  gathered_of_returned code hcollector := by
    obtain ⟨first, hgathered, hcode⟩ := h.gathered_of_returned code hcollector
    exact ⟨first, gather_of_gathered hgathered error, hcode⟩

/-- The next message sets the timeout event, whatever the timeout task waits for. -/
theorem retrieve (h : WatchdogInvariant committed state) {event : KafkaEvent}
    (hlistening : state.listening = .retrieving)
    (hoffset : event.offset = state.position event.partition)
    (hkeeps : KeepsUp state (.retrieve event)) :
    WatchdogInvariant committed (effect state (.retrieve event)) := by
  have hall := h.handled (.inl hlistening)
  refine { h with handled := ?_, current := ?_, watching := ?_, announced := fun _ _ => rfl }
  · intro hidle
    rcases hidle with hidle | hidle <;> cases hidle
  · intro other hother partition offset hfrom hto
    obtain rfl : event = other := Option.some.inj hother
    by_cases hpartition : partition = event.partition
    · subst hpartition
      simp only [effect, Function.update_self] at hto
      rcases Nat.lt_succ_iff_lt_or_eq.mp hto with hto | rfl
      · exact .inl (hall _ _ hfrom (hoffset ▸ hto))
      · exact .inr ⟨rfl, rfl⟩
    · simp only [effect, Function.update_of_ne hpartition] at hto
      exact .inl (hall _ _ hfrom hto)
  · intro _
    obtain ⟨hraised, hcollapse⟩ := hkeeps
    unfold Watching
    cases htimeout : state.timeout with
    | waitingForEvent =>
        simp only [effect, htimeout, true_and]
        -- a set consuming event would have been announced, and the two would collapse
        cases hconsuming : state.kafkaConsumingEvent with
        | false => rfl
        | true => exact absurd ⟨htimeout, h.announced htimeout hconsuming, hconsuming⟩ hcollapse
    | waitingForConsumed => simp only [effect, htimeout, implies_true]
    | raised => exact absurd htimeout hraised

/-- The callback of the current message returns, and everything is handled. -/
theorem callback_returns (h : WatchdogInvariant committed state) {event : KafkaEvent}
    (hlistening : state.listening = .handling event) :
    WatchdogInvariant committed (effect state (.callback event (.ok ()))) := by
  have hall : AllHandled committed (effect state (.callback event (.ok ()))) := by
    intro partition offset hfrom hto
    rcases h.current event (by rw [hlistening]; rfl) partition offset hfrom hto with
      ⟨other, hother, hplace⟩ | ⟨hpartition, hoffset⟩
    · exact ⟨other, List.mem_cons_of_mem _ hother, hplace⟩
    · exact ⟨event, List.mem_cons_self, hpartition.symm, hoffset.symm⟩
  have hwatching := h.watching (.inl (by rw [hlistening]; simp [ListeningTask.current]))
  refine { h with
    handled := fun _ => hall
    current := fun _ hcurrent => by cases hcurrent
    watching := fun hbusy => ?_
    announced := fun htimeout _ => ?_ }
  · rcases hbusy with hbusy | hbusy
    · exact absurd rfl hbusy
    · exact absurd hall hbusy
  · change state.timeout = .waitingForEvent at htimeout
    simp only [Watching, htimeout] at hwatching
    exact hwatching.1

theorem seeEvent (h : WatchdogInvariant committed state)
    (htimeout : state.timeout = .waitingForEvent) :
    WatchdogInvariant committed (effect state .seeEvent) := by
  refine { h with
    watching := fun hbusy => ?_
    announced := fun hwaiting => ?_
    raised_of_gathered := fun hgathered => ?_ }
  · have hwatching := h.watching hbusy
    simp only [Watching, htimeout] at hwatching
    simp [Watching, effect, hwatching.2]
  · cases hwaiting
  · rw [h.raised_of_gathered hgathered] at htimeout
    cases htimeout

theorem seeConsumed (h : WatchdogInvariant committed state)
    (htimeout : state.timeout = .waitingForConsumed)
    (hconsuming : state.kafkaConsumingEvent = true) :
    WatchdogInvariant committed (effect state .seeConsumed) := by
  refine { h with
    watching := fun hbusy => ?_
    announced := fun _ hset => ?_
    raised_of_gathered := fun hgathered => ?_ }
  · have hwatching := h.watching hbusy
    simp only [Watching, htimeout] at hwatching
    exact ⟨hwatching hconsuming, rfl⟩
  · cases hset
  · rw [h.raised_of_gathered hgathered] at htimeout
    cases htimeout

/-- When the timer may win, nothing is unfinished. -/
theorem idle_of_expire (h : WatchdogInvariant committed state)
    (htimeout : state.timeout = .waitingForEvent) (hkeeps : KeepsUp state .expire) :
    state.listening.current = none ∧ AllHandled committed state := by
  by_contra hbusy
  have hwatching := h.watching (by tauto)
  simp only [Watching, htimeout] at hwatching
  rcases hkeeps with hclear | hset
  · rw [hwatching.1] at hclear
    cases hclear
  · rw [hwatching.2] at hset
    cases hset

theorem expire (h : WatchdogInvariant committed state)
    (htimeout : state.timeout = .waitingForEvent) (hkeeps : KeepsUp state .expire) :
    WatchdogInvariant committed (effect state .expire) := by
  obtain ⟨hcurrent, hall⟩ := h.idle_of_expire htimeout hkeeps
  refine { h with
    watching := fun hbusy => ?_
    announced := fun hwaiting => by cases hwaiting
    raised_of_gathered := fun _ => rfl
    gathered_of_disconnecting := fun error hcollector =>
      gather_of_gathered (h.gathered_of_disconnecting error hcollector) _
    gathered_of_returned := fun code hcollector => ?_ }
  · rcases hbusy with hbusy | hbusy
    · exact absurd hcurrent hbusy
    · exact absurd hall hbusy
  · obtain ⟨error, hgathered, hcode⟩ := h.gathered_of_returned code hcollector
    exact ⟨error, gather_of_gathered hgathered _, hcode⟩

end WatchdogInvariant

/-- Step lemma: an action with which the timeout task keeps up keeps the invariant. -/
theorem watchdogInvariant_effect {action : ConsumerAction}
    (h : WatchdogInvariant committed state) (henabled : Enabled topic state action)
    (hkeeps : KeepsUp state action) : WatchdogInvariant committed (effect state action) := by
  cases action with
  | retrieve event => exact h.retrieve henabled.1 henabled.2.2.1 hkeeps
  | retrieveFails error => exact h.listeningRaises hkeeps
  | stopIteration =>
      exact { h with
        handled := fun _ => h.handled (.inl henabled.1)
        current := fun _ hcurrent => by cases hcurrent
        watching := fun hbusy =>
          h.watching (.inr (hbusy.resolve_left fun hcurrent => hcurrent rfl)) }
  | decrement event answer =>
      cases answer with
      | ok _ =>
          have hlistening : state.listening = .decrementing event := henabled
          refine { h with handled := ?_, current := ?_, watching := fun _ => ?_ }
          · intro hidle
            rcases hidle with hidle | hidle <;> cases hidle
          · intro other hother
            exact h.current other (by rw [hlistening]; exact hother)
          · exact h.watching (.inl (by rw [hlistening]; simp [ListeningTask.current]))
      | error error => exact h.listeningRaises hkeeps
  | callback event answer =>
      cases answer with
      | ok _ => exact h.callback_returns henabled
      | error error => exact { h.listeningRaises hkeeps with }
  | seeEvent => exact h.seeEvent henabled.1
  | seeConsumed => exact h.seeConsumed henabled.1 henabled.2
  | expire => exact h.expire henabled hkeeps
  | autoCommit => exact { h with }
  | propagate error =>
      exact { h with
        gathered_of_disconnecting := fun other hother => by
          obtain rfl : error = other := CollectorTask.disconnecting.inj hother
          exact henabled.2
        gathered_of_returned := fun _ hreturned => by cases hreturned }
  | disconnect error =>
      exact { h with
        gathered_of_disconnecting := fun _ hother => by cases hother
        gathered_of_returned := fun code hreturned =>
          ⟨error, h.gathered_of_disconnecting error henabled,
            (CollectorTask.returned.inj hreturned).symm⟩ }

/-- Run lemma: the invariant holds in every state of a schedule that keeps up. -/
theorem watchdogInvariant_of_reaches
    (hreaches : ((consumer topic).restrict KeepsUp).Reaches (initial committed) state) :
    WatchdogInvariant committed state :=
  hreaches.invariant (watchdogInvariant_initial committed) fun _ _ h henabled =>
    watchdogInvariant_effect h henabled.1 henabled.2

theorem exitCode_eq_zero_iff {error : PyError} :
    exitCode error = 0 ↔ error = .kafkaConsumerPartitionsEmptyError := by
  cases error <;> simp [exitCode]

/-- As long as the timeout task keeps up, its timer runs only when a message
has announced itself or everything delivered is handled, it raises only while
nothing is being handled, and exit code 0 means that everything delivered was
handled. -/
theorem timer_runs_when_idle
    (hreaches : ((consumer topic).restrict KeepsUp).Reaches (initial committed) state) :
    (state.timeout = .waitingForEvent →
      state.kafkaTimeoutEvent = true ∨ AllHandled committed state) ∧
    (((consumer topic).restrict KeepsUp).Enabled state .expire →
      state.listening.current = none ∧ AllHandled committed state) ∧
    (state.collector = .returned 0 → AllHandled committed state) := by
  have h := watchdogInvariant_of_reaches hreaches
  refine ⟨fun htimeout => ?_, fun henabled => h.idle_of_expire henabled.1 henabled.2,
    fun hreturned => ?_⟩
  · by_cases hall : AllHandled committed state
    · exact .inr hall
    · have hwatching := h.watching (.inr hall)
      simp only [Watching, htimeout] at hwatching
      exact .inl hwatching.1
  · obtain ⟨error, hgathered, hcode⟩ := h.gathered_of_returned 0 hreturned
    rw [exitCode_eq_zero_iff.mp hcode.symm] at hgathered
    have hraised := h.raised_of_gathered hgathered
    by_contra hall
    have hwatching := h.watching (.inr hall)
    simp only [Watching, hraised] at hwatching

section Deployment

open Offsets (threeMessages firstMessage secondMessage)

/-- One message is handled, and then the timer expires. -/
def idleRun : List ConsumerAction :=
  [.retrieve firstMessage, .decrement firstMessage (.ok ()), .seeEvent,
    .callback firstMessage (.ok ()), .seeConsumed, .expire,
    .propagate .kafkaConsumerPartitionsEmptyError, .disconnect .kafkaConsumerPartitionsEmptyError]

theorem timer_runs_when_idle_after_firstMessage : ∃ state,
    ((consumer threeMessages).restrict KeepsUp).Reaches (initial fun _ => 0) state ∧
      state.collector = .returned 0 ∧ AllHandled (fun _ => 0) state := by
  have hreaches : ((consumer threeMessages).restrict KeepsUp).Reaches (initial fun _ => 0) _ :=
    ⟨idleRun, rfl⟩
  exact ⟨_, hreaches, rfl, (timer_runs_when_idle hreaches).2.2 rfl⟩

/-- The first message is handled before the timeout task wakes up, and the
second one sets an event that is still set. -/
def collapsingRun : List ConsumerAction :=
  [.retrieve firstMessage, .decrement firstMessage (.ok ()), .callback firstMessage (.ok ()),
    .retrieve secondMessage, .seeEvent, .seeConsumed, .decrement secondMessage (.ok ())]

/-- The timer expires, and the consumer exits with success. -/
def expiringRun : List ConsumerAction :=
  collapsingRun ++ [.expire, .propagate .kafkaConsumerPartitionsEmptyError,
    .disconnect .kafkaConsumerPartitionsEmptyError]

theorem timer_runs_during_work : ∃ busy last,
    (consumer threeMessages).Reaches (initial fun _ => 0) busy ∧
      busy.timeout = .waitingForEvent ∧ busy.kafkaTimeoutEvent = false ∧
      busy.listening = .handling secondMessage ∧ ¬ AllHandled (fun _ => 0) busy ∧
    (consumer threeMessages).Reaches (initial fun _ => 0) last ∧
      last.collector = .returned 0 ∧ ¬ AllHandled (fun _ => 0) last := by
  have hunhandled : ∀ state : ConsumerState, state.completed = [firstMessage] →
      state.position 0 = 2 → ¬ AllHandled (fun _ => 0) state := by
    intro state hcompleted hposition hall
    obtain ⟨event, hevent, _, hoffset⟩ := hall 0 1 (Nat.zero_le _) (by omega)
    rw [hcompleted, List.mem_singleton] at hevent
    subst hevent
    exact absurd hoffset (by decide)
  exact ⟨_, _, ⟨collapsingRun, rfl⟩, rfl, rfl, rfl, hunhandled _ rfl rfl, ⟨expiringRun, rfl⟩, rfl,
    hunhandled _ rfl rfl⟩

end Deployment

end BlockchainDataCollection.Watchdog
