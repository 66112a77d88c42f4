import BlockchainDataCollection.Consumer.KafkaConsumer

/-!
# Offsets of failed messages

The position moves past a message before its callback runs, and the consumer
commits its positions when it stops.  Whichever way it stops, a message whose
callback raised is then committed.
-/

namespace BlockchainDataCollection.Offsets

open BlockchainDataCollection.Effect
open BlockchainDataCollection.Python
open BlockchainDataCollection.KafkaConsumer

/-- A message that was retrieved: its offset is from the first one on, and
before the position. -/
def Retrieved (committed : ℕ → ℕ) (state : ConsumerState) (event : KafkaEvent) : Prop :=
  committed event.partition ≤ event.offset ∧ event.offset < state.position event.partition

/-- `committed` are the offsets that the consumer started at. -/
structure OffsetInvariant (committed : ℕ → ℕ) (state : ConsumerState) : Prop where
  position_ge : ∀ partition, committed partition ≤ state.position partition
  completed : ∀ event ∈ state.completed, Retrieved committed state event
  failed : ∀ event ∈ state.failed, Retrieved committed state event
  current : ∀ event ∈ state.listening.current, Retrieved committed state event ∧
    event ∉ state.completed ∧ event ∉ state.failed
  not_completed : ∀ event ∈ state.failed, event ∉ state.completed
  closed_of_returned : ∀ code, state.collector = .returned code → state.closed = true
  committed_of_closed : state.closed = true → state.committed = state.position

variable {committed : ℕ → ℕ} {topic : ℕ → List String} {state : ConsumerState}

theorem offsetInvariant_initial (committed : ℕ → ℕ) :
    OffsetInvariant committed (initial committed) where
  position_ge _ := le_rfl
  completed _ h := by cases h
  failed _ h := by cases h
  current _ h := by cases h
  not_completed _ h := by cases h
  closed_of_returned _ h := by cases h
  committed_of_closed h := by cases h

/-- A raising task handles no message any more. -/
theorem OffsetInvariant.listeningRaises (h : OffsetInvariant committed state) (error : PyError) :
    OffsetInvariant committed (state.listeningRaises error) :=
  { h with current := fun _ hcurrent => by cases hcurrent }

theorem OffsetInvariant.retrieve (h : OffsetInvariant committed state) {event : KafkaEvent}
    (hclosed : state.closed = false) (hoffset : event.offset = state.position event.partition) :
    OffsetInvariant committed (effect state (.retrieve event)) := by
  have hposition : ∀ partition, state.position partition ≤
      (effect state (.retrieve event)).position partition := by
    intro partition
    by_cases hpartition : partition = event.partition
    · subst hpartition
      simp only [effect, Function.update_self]
      omega
    · simp only [effect, Function.update_of_ne hpartition, le_refl]
  have hmono : ∀ other, Retrieved committed state other →
      Retrieved committed (effect state (.retrieve event)) other :=
    fun other hother => ⟨hother.1, hother.2.trans_le (hposition _)⟩
  have hnew : ¬ Retrieved committed state event := fun hretrieved => by
    have hbefore := hretrieved.2
    omega
  refine {
    position_ge := fun partition => (h.position_ge partition).trans (hposition partition)
    completed := fun other hother => hmono other (h.completed other hother)
    failed := fun other hother => hmono other (h.failed other hother)
    current := ?_
    not_completed := h.not_completed
    closed_of_returned := h.closed_of_returned
    committed_of_closed := fun hstopped => absurd hstopped (by simp [effect, hclosed]) }
  intro other hother
  obtain rfl : event = other := Option.some.inj hother
  refine ⟨⟨hoffset ▸ h.position_ge _, ?_⟩, fun hmem => hnew (h.completed _ hmem),
    fun hmem => hnew (h.failed _ hmem)⟩
  simp only [effect, Function.update_self]
  omega

/-- The callback of the current message returns. -/
theorem OffsetInvariant.callback_returns (h : OffsetInvariant committed state)
    {event : KafkaEvent} (hcurrent : state.listening = .handling event) :
    OffsetInvariant committed (effect state (.callback event (.ok ()))) := by
  obtain ⟨hretrieved, _, hfailed⟩ := h.current event (by rw [hcurrent]; rfl)
  refine { h with completed := ?_, current := ?_, not_completed := ?_ }
  · intro other hother
    rcases List.mem_cons.mp hother with rfl | hother
    · exact hretrieved
    · exact h.completed other hother
  · intro other hother
    cases hother
  · intro other hother hcompleted
    rcases List.mem_cons.mp hcompleted with rfl | hcompleted
    · exact hfailed hother
    · exact h.not_completed other hother hcompleted

/-- The callback of the current message raises. -/
theorem OffsetInvariant.callback_raises (h : OffsetInvariant committed state)
    {event : KafkaEvent} (hcurrent : state.listening = .handling event) (error : PyError) :
    OffsetInvariant committed (effect state (.callback event (.error error))) := by
  obtain ⟨hretrieved, hcompleted, _⟩ := h.current event (by rw [hcurrent]; rfl)
  refine { h with failed := ?_, current := ?_, not_completed := ?_ }
  · intro other hother
    rcases List.mem_cons.mp hother with rfl | hother
    · exact hretrieved
    · exact h.failed other hother
  · intro other hother
    cases hother
  · intro other hother
    rcases List.mem_cons.mp hother with rfl | hother
    · exact hcompleted
    · exact h.not_completed other hother

/-- Step lemma: every enabled action keeps the invariant. -/
theorem offsetInvariant_effect {action : ConsumerAction} (h : OffsetInvariant committed state)
    (henabled : Enabled topic state action) : OffsetInvariant committed (effect state action) := by
  cases action with
  | retrieve event => exact h.retrieve henabled.2.1 henabled.2.2.1
  | retrieveFails error => exact h.listeningRaises error
  | stopIteration => exact { h with current := fun _ hcurrent => by cases hcurrent }
  | decrement event answer =>
      cases answer with
      | ok _ =>
          have hcurrent := h.current event (by rw [show state.listening = _ from henabled]; rfl)
          exact { h with current := fun _ hother => Option.some.inj hother ▸ hcurrent }
      | error error => exact h.listeningRaises error
  | callback event answer =>
      cases answer with
      | ok _ => exact h.callback_returns henabled
      | error error => exact h.callback_raises henabled error
  | seeEvent => exact { h with }
  | seeConsumed => exact { h with }
  | expire => exact { h with }
  | autoCommit => exact { h with committed_of_closed := fun _ => rfl }
  | propagate error => exact { h with closed_of_returned := fun _ hreturned => by cases hreturned }
  | disconnect error =>
      exact { h with
        closed_of_returned := fun _ _ => rfl
        committed_of_closed := fun _ => rfl }

/-- Run lemma: the invariant holds in every state of every schedule. -/
theorem offsetInvariant_of_reaches
    (hreaches : (consumer topic).Reaches (initial committed) state) :
    OffsetInvariant committed state :=
  hreaches.invariant (offsetInvariant_initial committed) fun _ _ h henabled =>
    offsetInvariant_effect h henabled

/-- The message was processed, or the group receives it again. -/
def Kept (state : ConsumerState) (event : KafkaEvent) : Prop :=
  event ∈ state.completed ∨ state.committed event.partition ≤ event.offset

section Returned

variable {code : ℕ} {event : KafkaEvent}

theorem offset_lt_committed (hreaches : (consumer topic).Reaches (initial committed) state)
    (hreturned : state.collector = .returned code) (hfailed : event ∈ state.failed) :
    event.offset < state.committed event.partition := by
  have h := offsetInvariant_of_reaches hreaches
  rw [h.committed_of_closed (h.closed_of_returned code hreturned)]
  exact (h.failed event hfailed).2

/-- Whatever the schedule and the error, a message whose callback raised is not
kept after the consumer has returned. -/
theorem failed_event_not_kept (hreaches : (consumer topic).Reaches (initial committed) state)
    (hreturned : state.collector = .returned code) (hfailed : event ∈ state.failed) :
    ¬ Kept state event := by
  rintro (hcompleted | hagain)
  · exact (offsetInvariant_of_reaches hreaches).not_completed event hfailed hcompleted
  · exact absurd (offset_lt_committed hreaches hreturned hfailed) hagain.not_gt

/-- The next consumer of the group does not complete it either. -/
theorem not_completed_by_next {next : ConsumerState}
    (hreaches : (consumer topic).Reaches (initial committed) state)
    (hreturned : state.collector = .returned code) (hfailed : event ∈ state.failed)
    (hnext : (consumer topic).Reaches (initial state.committed) next) :
    event ∉ next.completed := by
  intro hcompleted
  have hretrieved := (offsetInvariant_of_reaches hnext).completed event hcompleted
  exact absurd (offset_lt_committed hreaches hreturned hfailed) hretrieved.1.not_gt

end Returned

section Deployment

/-- A topic of one partition with three messages. -/
def threeMessages : ℕ → List String
  | 0 => ["partial:0x01", "partial:0x02", "partial:0x03"]
  | _ => []

def firstMessage : KafkaEvent := ⟨0, 0, "partial:0x01"⟩

def secondMessage : KafkaEvent := ⟨0, 1, "partial:0x02"⟩

/-- The node fails while the first message is handled. -/
def failingRun : List ConsumerAction :=
  [.retrieve firstMessage, .seeEvent, .decrement firstMessage (.ok ()),
    .callback firstMessage (.error (.nodeError "transaction not found")),
    .propagate (.nodeError "transaction not found"),
    .disconnect (.nodeError "transaction not found")]

theorem firstMessage_not_kept :
    ∃ state, (consumer threeMessages).Reaches (initial fun _ => 0) state ∧
      state.collector = .returned 1 ∧ firstMessage ∈ state.failed ∧
      ¬ Kept state firstMessage := by
  have hreaches : (consumer threeMessages).Reaches (initial fun _ => 0) _ := ⟨failingRun, rfl⟩
  have hfailed := List.mem_singleton_self firstMessage
  exact ⟨_, hreaches, rfl, hfailed, failed_event_not_kept hreaches rfl hfailed⟩

/-- The database fails while the second message is handled: the consumer commits
the offset of the third one. -/
def skippingRun : List ConsumerAction :=
  [.retrieve firstMessage, .seeEvent, .decrement firstMessage (.ok ()),
    .callback firstMessage (.ok ()), .seeConsumed,
    .retrieve secondMessage, .decrement secondMessage (.ok ()),
    .callback secondMessage (.error (.databaseError "connection is closed")),
    .propagate (.databaseError "connection is closed"),
    .disconnect (.databaseError "connection is closed")]

theorem secondMessage_skipped :
    ∃ state, (consumer threeMessages).Reaches (initial fun _ => 0) state ∧
      state.collector = .returned 1 ∧ secondMessage ∈ state.failed ∧
      state.committed 0 = 2 ∧ ¬ Kept state secondMessage := by
  refine ⟨_, ⟨skippingRun, rfl⟩, rfl, by decide, rfl, ?_⟩
  rintro (hcompleted | hagain)
  · exact absurd hcompleted (by decide)
  · exact absurd hagain (by decide)

end Deployment

end BlockchainDataCollection.Offsets
