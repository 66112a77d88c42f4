import BlockchainDataCollection.Consumer.Sessions
import BlockchainDataCollection.Effect.ReaderGroup

/-!
# The consumer group

The consumer worker starts several consumers, and all of them are members of one
group.  Its coordinator assigns each partition to one of them, and assigns the
partitions anew whenever a member joins, leaves or stays away for too long.  A
member learns of that later, and may be in the middle of a message by then.
-/

namespace BlockchainDataCollection.Membership

open BlockchainDataCollection.Effect
open BlockchainDataCollection.Python
open BlockchainDataCollection.KafkaConsumer
open BlockchainDataCollection.Sessions (place InTopic)

/-! ## Members -/

structure Member where
  state : ConsumerState
  /-- The partitions that the client fetches from. -/
  assigned : ℕ → Bool
  /-- The client has adopted the latest assignment. -/
  current : Bool
  /-- The messages that the client has yielded, the latest one first. -/
  retrieved : List KafkaEvent

/-- The message that the client yields. -/
def retrievedBy : ConsumerAction → Option KafkaEvent
  | .retrieve event => some event
  | _ => none

/-- The client sends its positions to the coordinator. -/
def Committing : ConsumerAction → Prop
  | .autoCommit => True
  | .disconnect _ => True
  | _ => False

namespace Member

/-- A consumer that was just created. -/
def start : Member where
  state := initial fun _ => 0
  assigned _ := false
  current := false
  retrieved := []

def revoke (member : Member) : Member :=
  { member with current := false }

def adopt (member : Member) (committed : ℕ → ℕ) (partitions : ℕ → Bool) : Member :=
  { member with
    state := { member.state with
      position := fun partition =>
        if partitions partition then committed partition else member.state.position partition }
    assigned := partitions
    current := true }

def act (member : Member) (action : ConsumerAction) : Member :=
  { member with
    state := effect member.state action
    retrieved := (retrievedBy action).toList ++ member.retrieved }

/-- What the group sees of a member. -/
def reader (member : Member) : Reader ℕ where
  assigned := member.assigned
  current := member.current
  position := member.state.position
  read := member.retrieved.map place

/-- The committed offsets change only when the client commits, and only as far as
the coordinator accepts it. -/
def CommitsTo (member : Member) (action : ConsumerAction) (committed committed' : ℕ → ℕ) : Prop :=
  committed' = committed ∨ Committing action ∧ member.reader.Commits committed committed'

/-- A client yields messages of its partitions, and with clean handovers none
while the partitions are assigned anew. -/
def Yields (clean : Prop) (member : Member) (action : ConsumerAction) : Prop :=
  ∀ event ∈ retrievedBy action, member.assigned event.partition ∧ (clean → member.current)

end Member

structure ConsumerGroup where
  committed : ℕ → ℕ
  owner : ℕ → Option ℕ
  members : List Member

namespace ConsumerGroup

def start : ConsumerGroup where
  committed _ := 0
  owner _ := none
  members := []

def readers (group : ConsumerGroup) : ReaderGroup ℕ where
  committed := group.committed
  owner := group.owner
  readers := group.members.map Member.reader

end ConsumerGroup

inductive Step (topic : ℕ → List String) (clean : Prop) : ConsumerGroup → ConsumerGroup → Prop
  | join (committed owner members) :
      Step topic clean ⟨committed, owner, members⟩ ⟨committed, owner, members ++ [.start]⟩
  | assign (committed owner owner' members) :
      (clean → ∀ member ∈ members, member.reader.Settled committed) →
      Step topic clean ⟨committed, owner, members⟩ ⟨committed, owner', members.map Member.revoke⟩
  | adopt (committed owner before member after) :
      member.current = false → member.state.closed = false →
      Step topic clean ⟨committed, owner, before ++ member :: after⟩
        ⟨committed, owner, before ++ member.adopt committed
          (fun partition => owner partition = some before.length) :: after⟩
  | act (committed committed' owner before member after action) :
      Enabled topic member.state action → member.Yields clean action →
      member.CommitsTo action committed committed' →
      Step topic clean ⟨committed, owner, before ++ member :: after⟩
        ⟨committed', owner, before ++ member.act action :: after⟩

def Reaches (topic : ℕ → List String) (clean : Prop) (group : ConsumerGroup) : Prop :=
  Relation.ReflTransGen (Step topic clean) .start group

/-! ## A group of readers -/

section Readers

variable {topic : ℕ → List String} {clean : Prop} {group group' : ConsumerGroup} {member : Member}

theorem reader_act_retrieve {event : KafkaEvent}
    (henabled : Enabled topic member.state (.retrieve event)) :
    (member.act (.retrieve event)).reader = member.reader.advance event.partition := by
  obtain ⟨_, _, hoffset, _⟩ := henabled
  obtain ⟨partition, offset, value⟩ := event
  obtain rfl : offset = member.state.position partition := hoffset
  rfl

theorem reader_act {action : ConsumerAction} (h : retrievedBy action = none) :
    (member.act action).reader = member.reader := by
  cases action with
  | retrieve event => cases h
  | decrement event answer => cases answer <;> rfl
  | callback event answer => cases answer <;> rfl
  | _ => rfl

/-- Step lemma: what the members do is what readers of a group do. -/
theorem readers_step (hstep : Step topic clean group group') :
    Relation.ReflTransGen (ReaderGroup.Step clean) group.readers group'.readers := by
  cases hstep with
  | join committed owner members =>
      rw [ConsumerGroup.readers, ConsumerGroup.readers, List.map_append]
      exact .single (.join committed owner (members.map Member.reader))
  | assign committed owner owner' members hsettled =>
      have hrevoked : (members.map Member.revoke).map Member.reader =
          (members.map Member.reader).map Reader.revoke := by
        rw [List.map_map, List.map_map]
        rfl
      rw [ConsumerGroup.readers, ConsumerGroup.readers, hrevoked]
      exact .single (.assign committed owner owner' _ fun hclean =>
        List.forall_mem_map.mpr (hsettled hclean))
  | adopt committed owner before member after hcurrent =>
      have hadopt := @ReaderGroup.Step.adopt _ _ clean committed owner (before.map Member.reader)
        member.reader (after.map Member.reader) hcurrent
      rw [List.length_map] at hadopt
      rw [ConsumerGroup.readers, ConsumerGroup.readers, List.map_append, List.map_append]
      exact .single hadopt
  | act committed committed' owner before member after action henabled hyields hcommits =>
      simp only [ConsumerGroup.readers, List.map_append, List.map_cons]
      cases hevent : retrievedBy action with
      | none =>
          rw [reader_act hevent]
          rcases hcommits with rfl | ⟨_, hcommits⟩
          · exact .refl
          · exact .single (.commit committed committed' owner _ member.reader _ hcommits)
      | some event =>
          obtain rfl : action = .retrieve event := by
            cases action with
            | retrieve other => rw [Option.some.inj hevent]
            | _ => cases hevent
          obtain ⟨hassigned, hcurrent⟩ := hyields event rfl
          rcases hcommits with rfl | ⟨hcommitting, _⟩
          · rw [reader_act_retrieve henabled]
            exact .single (.advance committed' owner _ member.reader _ event.partition hassigned
              hcurrent)
          · exact hcommitting.elim

/-- Run lemma: so it is for every run of the group. -/
theorem readers_of_reaches (hreaches : Reaches topic clean group) :
    Relation.ReflTransGen (ReaderGroup.Step clean) .start group.readers := by
  induction hreaches with
  | refl => exact .refl
  | tail _ hstep ih => exact ih.trans (readers_step hstep)

end Readers

/-! ## Growing topics -/

section Growth

variable {topic topic' : ℕ → List String} {clean : Prop} {group group' : ConsumerGroup}

/-- What is in the topic stays there. -/
theorem enabled_mono (hgrows : ∀ partition, (topic partition).IsPrefix (topic' partition))
    {state : ConsumerState} {action : ConsumerAction} (h : Enabled topic state action) :
    Enabled topic' state action := by
  cases action with
  | retrieve event =>
      obtain ⟨hlistening, hclosed, hoffset, hvalue⟩ := h
      obtain ⟨later, hlater⟩ := hgrows event.partition
      obtain ⟨hbefore, _⟩ := List.getElem?_eq_some_iff.mp hvalue
      refine ⟨hlistening, hclosed, hoffset, ?_⟩
      rw [← hlater, List.getElem?_append_left hbefore]
      exact hvalue
  | _ => exact h

theorem step_mono (hgrows : ∀ partition, (topic partition).IsPrefix (topic' partition))
    (hstep : Step topic clean group group') : Step topic' clean group group' := by
  cases hstep with
  | join committed owner members => exact .join committed owner members
  | assign committed owner owner' members hsettled =>
      exact .assign committed owner owner' _ hsettled
  | adopt committed owner before member after hcurrent hclosed =>
      exact .adopt committed owner before member after hcurrent hclosed
  | act committed committed' owner before member after action henabled hyields hcommits =>
      exact .act committed committed' owner before member after action
        (enabled_mono hgrows henabled) hyields hcommits

/-- The group has run on the messages that are in the topic by now. -/
theorem Reaches.mono (hgrows : ∀ partition, (topic partition).IsPrefix (topic' partition))
    (hreaches : Reaches topic clean group) : Reaches topic' clean group :=
  hreaches.lift id fun _ _ hstep => step_mono hgrows hstep

end Growth

/-! ## What a member leaves unfinished -/

/-- The message that was retrieved and not completed. -/
def Leaves : ListeningTask → List KafkaEvent → Prop
  | .retrieving, left => left = []
  | .stopped, left => left = []
  | .decrementing event, left => left = [event]
  | .handling event, left => left = [event]
  | .raised _, left => left.length ≤ 1

structure MemberInvariant (topic : ℕ → List String) (member : Member) : Prop where
  inTopic : ∀ event ∈ member.retrieved, InTopic topic event
  left : ∃ left, Leaves member.state.listening left ∧
    member.retrieved.Perm (left ++ member.state.completed)

section Members

variable {topic : ℕ → List String} {clean : Prop} {group group' : ConsumerGroup} {member : Member}

theorem MemberInvariant.mem_retrieved_of_current (h : MemberInvariant topic member)
    {event : KafkaEvent} (hcurrent : event ∈ member.state.listening.current) :
    event ∈ member.retrieved := by
  obtain ⟨left, hleaves, hperm⟩ := h.left
  rw [hperm.mem_iff, List.mem_append]
  cases hlistening : member.state.listening <;> rw [hlistening] at hcurrent hleaves
  case decrementing other | handling other =>
    obtain rfl : left = [other] := hleaves
    exact .inl (List.mem_singleton.mpr (Option.some.inj hcurrent).symm)
  all_goals cases hcurrent

theorem MemberInvariant.inTopic_of_completed (h : MemberInvariant topic member)
    {event : KafkaEvent} (hcompleted : event ∈ member.state.completed) : InTopic topic event := by
  obtain ⟨left, _, hperm⟩ := h.left
  exact h.inTopic event (hperm.mem_iff.mpr (List.mem_append_right left hcompleted))

theorem memberInvariant_start : MemberInvariant topic .start where
  inTopic _ h := by cases h
  left := ⟨[], rfl, List.Perm.refl _⟩

/-- Every enabled action keeps the invariant of a member. -/
theorem memberInvariant_act {action : ConsumerAction} (h : MemberInvariant topic member)
    (henabled : Enabled topic member.state action) :
    MemberInvariant topic (member.act action) := by
  obtain ⟨left, hleaves, hperm⟩ := h.left
  cases action with
  | retrieve event =>
      obtain ⟨hlistening, _, _, hvalue⟩ := henabled
      rw [hlistening] at hleaves
      obtain rfl : left = [] := hleaves
      exact ⟨List.forall_mem_cons.mpr ⟨hvalue, h.inTopic⟩, [event], rfl, hperm.cons event⟩
  | retrieveFails error =>
      rw [henabled.1] at hleaves
      obtain rfl : left = [] := hleaves
      exact ⟨h.inTopic, [], Nat.zero_le _, hperm⟩
  | stopIteration =>
      rw [henabled.1] at hleaves
      exact ⟨h.inTopic, left, hleaves, hperm⟩
  | decrement event answer =>
      rw [show member.state.listening = .decrementing event from henabled] at hleaves
      obtain rfl : left = [event] := hleaves
      cases answer with
      | ok _ => exact ⟨h.inTopic, [event], rfl, hperm⟩
      | error error => exact ⟨h.inTopic, [event], le_rfl, hperm⟩
  | callback event answer =>
      rw [show member.state.listening = .handling event from henabled] at hleaves
      obtain rfl : left = [event] := hleaves
      cases answer with
      | ok _ => exact ⟨h.inTopic, [], rfl, hperm⟩
      | error error => exact ⟨h.inTopic, [event], le_rfl, hperm⟩
  | _ => exact ⟨h.inTopic, left, hleaves, hperm⟩

/-- Step lemma: every step of the group keeps the invariant of all members. -/
theorem members_step (hstep : Step topic clean group group')
    (h : ∀ member ∈ group.members, MemberInvariant topic member) :
    ∀ member ∈ group'.members, MemberInvariant topic member := by
  cases hstep with
  | join committed owner members =>
      exact List.forall_mem_append.mpr ⟨h, List.forall_mem_singleton.mpr memberInvariant_start⟩
  | assign committed owner owner' members =>
      exact List.forall_mem_map.mpr fun member hmember =>
        ⟨(h member hmember).1, (h member hmember).2⟩
  | adopt committed owner before member after =>
      intro other hother
      rcases ReaderGroup.mem_replaced hother with rfl | hother
      · have hmember := h member (List.mem_append_right _ List.mem_cons_self)
        exact ⟨hmember.1, hmember.2⟩
      · exact h other hother
  | act committed committed' owner before member after action henabled =>
      intro other hother
      rcases ReaderGroup.mem_replaced hother with rfl | hother
      · exact memberInvariant_act (h member (List.mem_append_right _ List.mem_cons_self)) henabled
      · exact h other hother

/-- Run lemma: the invariant holds of all members in every state of the group. -/
theorem members_of_reaches (hreaches : Reaches topic clean group) :
    ∀ member ∈ group.members, MemberInvariant topic member := by
  induction hreaches with
  | refl => exact fun member hmember => absurd hmember List.not_mem_nil
  | tail _ hstep ih => exact members_step hstep ih

end Members

/-! ## The group -/

section Groups

variable {topic : ℕ → List String} {clean : Prop} {group : ConsumerGroup}

/-- The listening task is in the middle of a message, or has raised. -/
def interrupted (state : ConsumerState) : Bool :=
  match state.listening with
  | .retrieving => false
  | .stopped => false
  | _ => true

theorem length_le_of_leaves {state : ConsumerState} {left : List KafkaEvent}
    (h : Leaves state.listening left) : left.length ≤ if interrupted state then 1 else 0 := by
  unfold interrupted
  cases hlistening : state.listening with
  | retrieving | stopped =>
      rw [hlistening] at h
      obtain rfl : left = [] := h
      exact le_rfl
  | decrementing event | handling event =>
      rw [hlistening] at h
      obtain rfl : left = [event] := h
      exact le_rfl
  | raised error =>
      rw [hlistening] at h
      exact h

/-- Every member leaves at most one message unfinished. -/
theorem exists_unfinished {members : List Member}
    (h : ∀ member ∈ members, MemberInvariant topic member) :
    ∃ lost : List KafkaEvent,
      lost.length ≤ members.countP (fun member => interrupted member.state) ∧
      (members.flatMap Member.retrieved).Perm
        (lost ++ members.flatMap fun member => member.state.completed) := by
  induction members with
  | nil => exact ⟨[], le_rfl, List.Perm.refl _⟩
  | cons member members ih =>
      obtain ⟨hmember, hmembers⟩ := List.forall_mem_cons.mp h
      obtain ⟨left, hleaves, hperm⟩ := hmember.left
      obtain ⟨lost, hlength, hperms⟩ := ih hmembers
      refine ⟨left ++ lost, ?_, ?_⟩
      · rw [List.length_append, List.countP_cons, add_comm]
        exact Nat.add_le_add hlength (length_le_of_leaves hleaves)
      · rw [List.flatMap_cons, List.flatMap_cons]
        refine (hperm.append hperms).trans ?_
        rw [List.append_assoc, List.append_assoc]
        refine List.Perm.append_left left ?_
        rw [← List.append_assoc, ← List.append_assoc]
        exact List.perm_append_comm.append_right _

/-- What is committed was retrieved by some member. -/
theorem exists_retrieved (hreaches : Reaches topic clean group) {partition offset : ℕ}
    (hoffset : offset < group.committed partition) :
    ∃ member ∈ group.members, ∃ event ∈ member.retrieved, place event = (partition, offset) := by
  have hreaders := ReaderGroup.invariant_of_steps (readers_of_reaches hreaches)
    ReaderGroup.invariant_start
  obtain ⟨_, hreader, hread⟩ := hreaders.covered partition offset hoffset
  obtain ⟨member, hmember, rfl⟩ := List.mem_map.mp hreader
  exact ⟨member, hmember, List.mem_map.mp hread⟩

theorem committed_le_length (hreaches : Reaches topic clean group) (partition : ℕ) :
    group.committed partition ≤ (topic partition).length := by
  by_contra hbeyond
  obtain ⟨member, hmember, event, hevent, hplace⟩ :=
    exists_retrieved hreaches (not_le.mp hbeyond)
  obtain ⟨rfl, hoffset⟩ := Prod.mk.inj hplace
  obtain ⟨hbefore, _⟩ := List.getElem?_eq_some_iff.mp
    ((members_of_reaches hreaches member hmember).inTopic event hevent)
  exact absurd hoffset hbefore.ne

/-- Whatever the members do and whenever the partitions are assigned anew, the
messages before the committed offsets were completed, apart from at most one for
each member that is in the middle of a message or has failed. -/
theorem lost_at_most_one_a_member (hreaches : Reaches topic clean group) :
    ∃ lost : List KafkaEvent,
      lost.length ≤ group.members.countP (fun member => interrupted member.state) ∧
      ∀ partition offset, offset < group.committed partition →
        (∃ member ∈ group.members, ∃ event ∈ member.state.completed,
          place event = (partition, offset)) ∨
        ∃ event ∈ lost, place event = (partition, offset) := by
  obtain ⟨lost, hlength, hperm⟩ := exists_unfinished (members_of_reaches hreaches)
  refine ⟨lost, hlength, fun partition offset hoffset => ?_⟩
  obtain ⟨member, hmember, event, hevent, hplace⟩ := exists_retrieved hreaches hoffset
  have hretrieved : event ∈ lost ++ group.members.flatMap fun member => member.state.completed :=
    hperm.subset (List.mem_flatMap.mpr ⟨member, hmember, hevent⟩)
  rcases List.mem_append.mp hretrieved with hlost | hcompleted
  · exact .inr ⟨event, hlost, hplace⟩
  · obtain ⟨other, hother, hcompleted⟩ := List.mem_flatMap.mp hcompleted
    exact .inl ⟨other, hother, event, hcompleted, hplace⟩

/-- With clean handovers, no message is retrieved twice, by one member or by two, so
none is completed twice. -/
theorem completed_once (hreaches : Reaches topic True group) :
    ((group.members.flatMap fun member => member.state.completed).map place).Nodup := by
  have honce := (ReaderGroup.cleanInvariant_of_steps (readers_of_reaches hreaches)
    ReaderGroup.cleanInvariant_start).once
  rw [ConsumerGroup.readers, List.flatMap_map] at honce
  have hretrieved : ((group.members.flatMap Member.retrieved).map place).Nodup := by
    rw [List.map_flatMap]
    exact honce
  obtain ⟨lost, _, hperm⟩ := exists_unfinished (members_of_reaches hreaches)
  rw [(hperm.map place).nodup_iff, List.map_append] at hretrieved
  exact hretrieved.of_append_right

end Groups

end BlockchainDataCollection.Membership
