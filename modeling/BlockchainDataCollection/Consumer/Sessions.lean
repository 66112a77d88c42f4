import BlockchainDataCollection.Consumer.Offsets

/-!
# Sessions of a consumer group

One consumer after the other starts at the committed offsets of its group, and
stops at any point: it returns, or it crashes.  No message is handled again after
a session that returned.
-/

namespace BlockchainDataCollection.Sessions

open BlockchainDataCollection.Effect
open BlockchainDataCollection.Python
open BlockchainDataCollection.KafkaConsumer
open BlockchainDataCollection.Offsets

/-- The states in which the consumers of a group ended, one after the other. -/
inductive GroupRun (topic : ℕ → List String) :
    (ℕ → ℕ) → List ConsumerState → (ℕ → ℕ) → Prop
  | nil (committed) : GroupRun topic committed [] committed
  | cons {committed state states last} :
      (consumer topic).Reaches (initial committed) state →
      GroupRun topic state.committed states last →
      GroupRun topic committed (state :: states) last

def place (event : KafkaEvent) : ℕ × ℕ := (event.partition, event.offset)

/-- The message is one of the topic. -/
def InTopic (topic : ℕ → List String) (event : KafkaEvent) : Prop :=
  (topic event.partition)[event.offset]? = some event.value

/-! ## One session -/

/-- `committed` are the offsets that the consumer started at. -/
structure DeliveryInvariant (topic : ℕ → List String) (committed : ℕ → ℕ)
    (state : ConsumerState) : Prop extends OffsetInvariant committed state where
  committed_ge : ∀ partition, committed partition ≤ state.committed partition
  committed_le : ∀ partition, state.committed partition ≤ state.position partition
  inTopic : ∀ event, event ∈ state.completed ∨ event ∈ state.listening.current →
    InTopic topic event
  distinct : (state.completed.map place).Nodup
  fresh : ∀ event ∈ state.listening.current, place event ∉ state.completed.map place

variable {committed : ℕ → ℕ} {topic : ℕ → List String} {state : ConsumerState}

theorem deliveryInvariant_initial (topic : ℕ → List String) (committed : ℕ → ℕ) :
    DeliveryInvariant topic committed (initial committed) where
  toOffsetInvariant := offsetInvariant_initial committed
  committed_ge _ := le_rfl
  committed_le _ := le_rfl
  inTopic _ h := by rcases h with h | h <;> cases h
  distinct := List.nodup_nil
  fresh _ h := by cases h

namespace DeliveryInvariant

theorem listeningRaises (h : DeliveryInvariant topic committed state) (error : PyError) :
    DeliveryInvariant topic committed (state.listeningRaises error) where
  toOffsetInvariant := h.toOffsetInvariant.listeningRaises error
  committed_ge := h.committed_ge
  committed_le := h.committed_le
  inTopic event hevent := h.inTopic event (.inl (hevent.resolve_right fun hcurrent => by
    cases hcurrent))
  distinct := h.distinct
  fresh _ hcurrent := by cases hcurrent

/-- The next message lies behind all that were completed. -/
theorem retrieve (h : DeliveryInvariant topic committed state) {event : KafkaEvent}
    (henabled : Enabled topic state (.retrieve event)) :
    DeliveryInvariant topic committed (effect state (.retrieve event)) := by
  obtain ⟨hlistening, hclosed, hoffset, hvalue⟩ := henabled
  have hposition : ∀ partition, state.position partition ≤
      (effect state (.retrieve event)).position partition := by
    intro partition
    by_cases hpartition : partition = event.partition
    · subst hpartition
      simp only [effect, Function.update_self]
      omega
    · simp only [effect, Function.update_of_ne hpartition, le_refl]
  refine {
    toOffsetInvariant := h.toOffsetInvariant.retrieve hclosed hoffset
    committed_ge := h.committed_ge
    committed_le := fun partition => (h.committed_le partition).trans (hposition partition)
    inTopic := ?_
    distinct := h.distinct
    fresh := ?_ }
  · intro other hother
    rcases hother with hother | hother
    · exact h.inTopic other (.inl hother)
    · obtain rfl : event = other := Option.some.inj hother
      exact hvalue
  · intro other hother hmem
    obtain rfl : event = other := Option.some.inj hother
    obtain ⟨done, hdone, hplace⟩ := List.mem_map.mp hmem
    obtain ⟨hpartition, hsame⟩ := Prod.mk.inj hplace
    have hbefore := (h.completed done hdone).2
    rw [hpartition, hsame, hoffset] at hbefore
    exact lt_irrefl _ hbefore

theorem callback_returns (h : DeliveryInvariant topic committed state) {event : KafkaEvent}
    (hlistening : state.listening = .handling event) :
    DeliveryInvariant topic committed (effect state (.callback event (.ok ()))) := by
  have hcurrent : event ∈ state.listening.current := by rw [hlistening]; rfl
  refine {
    toOffsetInvariant := h.toOffsetInvariant.callback_returns hlistening
    committed_ge := h.committed_ge
    committed_le := h.committed_le
    inTopic := ?_
    distinct := List.nodup_cons.mpr ⟨h.fresh event hcurrent, h.distinct⟩
    fresh := fun _ hother => by cases hother }
  intro other hother
  rcases hother with hother | hother
  · rcases List.mem_cons.mp hother with rfl | hother
    · exact h.inTopic _ (.inr hcurrent)
    · exact h.inTopic other (.inl hother)
  · cases hother

end DeliveryInvariant

/-- Step lemma: every enabled action keeps the invariant. -/
theorem deliveryInvariant_effect {action : ConsumerAction}
    (h : DeliveryInvariant topic committed state) (henabled : Enabled topic state action) :
    DeliveryInvariant topic committed (effect state action) := by
  have hoffsets := offsetInvariant_effect h.toOffsetInvariant henabled
  cases action with
  | retrieve event => exact h.retrieve henabled
  | retrieveFails error => exact h.listeningRaises error
  | stopIteration =>
      exact { h with
        toOffsetInvariant := hoffsets
        inTopic := fun event hevent => h.inTopic event (.inl (hevent.resolve_right fun hcurrent =>
          by cases hcurrent))
        fresh := fun _ hcurrent => by cases hcurrent }
  | decrement event answer =>
      have hcurrent : event ∈ state.listening.current := by
        rw [show state.listening = .decrementing event from henabled]
        rfl
      cases answer with
      | ok _ =>
          exact { h with
            toOffsetInvariant := hoffsets
            inTopic := fun other hother => by
              rcases hother with hother | hother
              · exact h.inTopic other (.inl hother)
              · obtain rfl : event = other := Option.some.inj hother
                exact h.inTopic event (.inr hcurrent)
            fresh := fun _ hother => Option.some.inj hother ▸ h.fresh event hcurrent }
      | error error => exact h.listeningRaises error
  | callback event answer =>
      cases answer with
      | ok _ => exact h.callback_returns henabled
      | error error => exact { h.listeningRaises error with toOffsetInvariant := hoffsets }
  | seeEvent => exact { h with toOffsetInvariant := hoffsets }
  | seeConsumed => exact { h with toOffsetInvariant := hoffsets }
  | expire => exact { h with toOffsetInvariant := hoffsets }
  | autoCommit =>
      exact { h with
        toOffsetInvariant := hoffsets
        committed_ge := h.position_ge
        committed_le := fun _ => le_rfl }
  | propagate error => exact { h with toOffsetInvariant := hoffsets }
  | disconnect error =>
      exact { h with
        toOffsetInvariant := hoffsets
        committed_ge := h.position_ge
        committed_le := fun _ => le_rfl }

/-- Run lemma: the invariant holds in every state of every session. -/
theorem deliveryInvariant_of_reaches
    (hreaches : (consumer topic).Reaches (initial committed) state) :
    DeliveryInvariant topic committed state :=
  hreaches.invariant (deliveryInvariant_initial topic committed) fun _ _ h henabled =>
    deliveryInvariant_effect h henabled

/-! ## All sessions of a group -/

/-- The session completed the message of this place. -/
def Handles (topic : ℕ → List String) (state : ConsumerState) (partition offset : ℕ) : Prop :=
  ∃ value, (topic partition)[offset]? = some value ∧ ⟨partition, offset, value⟩ ∈ state.completed

section Groups

variable {states : List ConsumerState} {last : ℕ → ℕ}

/-- The sessions of a group only get what lies behind the offsets it starts at. -/
theorem committed_le_of_handles (hrun : GroupRun topic committed states last)
    (hstate : state ∈ states) {partition offset : ℕ}
    (hhandles : Handles topic state partition offset) : committed partition ≤ offset := by
  induction hrun with
  | nil => cases hstate
  | cons hreaches _ ih =>
      have h := deliveryInvariant_of_reaches hreaches
      rcases List.mem_cons.mp hstate with rfl | hstate
      · obtain ⟨value, _, hcompleted⟩ := hhandles
        exact (h.completed _ hcompleted).1
      · exact (h.committed_ge partition).trans (ih hstate)

/-- No session handles a message twice; and a message is handled in two sessions
only if the earlier one had not committed it, and crashed. -/
theorem handled_once_unless_crashed (hrun : GroupRun topic committed states last) :
    (∀ state ∈ states, (state.completed.map place).Nodup) ∧
      states.Pairwise fun earlier later => ∀ partition offset,
        Handles topic earlier partition offset → Handles topic later partition offset →
          earlier.committed partition ≤ offset ∧ ∀ code, earlier.collector ≠ .returned code := by
  induction hrun with
  | nil => exact ⟨fun _ hstate => (List.not_mem_nil hstate).elim, List.Pairwise.nil⟩
  | @cons committed state states last hreaches hrest ih =>
      have h := deliveryInvariant_of_reaches hreaches
      refine ⟨List.forall_mem_cons.mpr ⟨h.distinct, ih.1⟩, List.pairwise_cons.mpr ⟨?_, ih.2⟩⟩
      intro later hlater partition offset hhandles hagain
      have hbehind := committed_le_of_handles hrest hlater hagain
      refine ⟨hbehind, fun code hreturned => ?_⟩
      obtain ⟨value, _, hcompleted⟩ := hhandles
      have hbefore := (h.completed _ hcompleted).2
      rw [← h.committed_of_closed (h.closed_of_returned code hreturned)] at hbefore
      exact absurd hbehind hbefore.not_ge

end Groups

section Deployment

/-- The next consumer handles the second message, and crashes. -/
def crashingRun : List ConsumerAction :=
  [.retrieve secondMessage, .decrement secondMessage (.ok ()),
    .callback secondMessage (.ok ()), .autoCommit]

/-- The first message is lost by a consumer that fails. -/
theorem groupRun_restart : ∃ failing crashing, failing.collector = .returned 1 ∧
    GroupRun threeMessages (fun _ => 0) [failing, crashing] crashing.committed ∧
    crashing.committed 0 = 2 ∧ Handles threeMessages crashing 0 1 :=
  ⟨_, _, rfl, .cons ⟨failingRun, rfl⟩ (.cons ⟨crashingRun, rfl⟩ (.nil _)), rfl,
    ⟨"partial:0x02", rfl, List.mem_singleton_self _⟩⟩

theorem handled_once_after_restart : ∃ failing crashing,
    GroupRun threeMessages (fun _ => 0) [failing, crashing] crashing.committed ∧
      Handles threeMessages crashing 0 1 ∧ ¬ Handles threeMessages failing 0 1 := by
  obtain ⟨failing, crashing, hreturned, hrun, _, hhandles⟩ := groupRun_restart
  refine ⟨failing, crashing, hrun, hhandles, fun hearlier => ?_⟩
  obtain ⟨hpair, _⟩ := List.pairwise_cons.mp (handled_once_unless_crashed hrun).2
  exact (hpair crashing (List.mem_singleton_self _) 0 1 hearlier hhandles).2 1 hreturned

end Deployment

end BlockchainDataCollection.Sessions
