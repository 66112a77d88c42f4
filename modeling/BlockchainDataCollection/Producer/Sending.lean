import BlockchainDataCollection.Effect.Typestate
import BlockchainDataCollection.Producer.KafkaProducer

/-!
# What a sender is doing

The typestate of a task that sends messages: how many messages of its call it
may still put into the topic since it passed the capacity gate, where it is in
`_choose_partition`, and which counter it still has to increment.
-/

namespace BlockchainDataCollection.Sending

open BlockchainDataCollection.Effect
open BlockchainDataCollection.Python
open BlockchainDataCollection.KafkaProducer

/-! ## Phases -/

inductive Stage where
  | idle
  /-- The index of the next partition was read, and has to be advanced. -/
  | read (partition : ℤ)
  | advanced (partition : ℤ)
  /-- The index has reached the number of partitions, and has to be reset. -/
  | last (partition : ℤ)
  | asking
  | chosen (partition : ℤ)
  /-- The messages of a record are not counted yet. -/
  | owing (partition : ℤ) (amount : ℕ)
  deriving DecidableEq

structure Phase where
  /-- The messages that may still be sent in this call. -/
  remaining : ℕ
  stage : Stage

/-- A task that just started, or failed. -/
def Phase.rest : Phase := ⟨0, .idle⟩

/-- What is owed after a record came back, or none. -/
def Stage.afterSend (amount : ℕ) : Option RecordMetadata → Stage
  | some record => .owing record.partition amount
  | none => .idle

/-- The capacity gate: the numbers of partitions it may see, the counts it lets
pass, the longest list it is asked about, and whether single messages are sent. -/
structure Gate where
  partitions : ℕ → Prop
  Room : ℤ → Prop
  bound : ℕ
  single : Prop
  room_zero : Room 0
  room_of_le : ∀ {nPart : ℕ} {nTxs : ℤ}, partitions nPart →
    nTxs ≤ maxMessagesPerPartition * nPart → Room nTxs

def Expects (phase : Phase) (op : ProducerCall) : Prop :=
  match phase.stage, op with
  | .idle, .getNTransactions => True
  | .idle, .partitionsFor => True
  | .idle, .sleep _ => True
  | .idle, .append _ => True
  | .idle, .getIPartition => True
  | .idle, .send _ => True
  | .read partition, .setIPartition next => next = partition + 1
  | .advanced _, .partitionsFor => True
  | .last _, .setIPartition next => next = -1
  | .asking, .getLowestScorePartition => True
  | .chosen partition, .sendBatch _ target => target = partition
  | .owing partition amount, .incrbyNTransactions target incrBy =>
      target = partition ∧ incrBy = amount
  | _, _ => False

/-- What an answered call does to the phase; an error ends the call. -/
inductive Advance (gate : Gate) : Phase → ProducerEvent → Phase → Prop
  | error {phase op error} : Advance gate phase ⟨op, .error error⟩ .rest
  | gate {remaining nTxs allowed} :
      (allowed = 0 ∨ gate.Room nTxs ∧ allowed ≤ gate.bound) →
      Advance gate ⟨remaining, .idle⟩ ⟨.getNTransactions, .ok nTxs⟩ ⟨allowed, .idle⟩
  | partitionsFor {remaining nPart} :
      Advance gate ⟨remaining, .idle⟩ ⟨.partitionsFor, .ok nPart⟩ ⟨remaining, .idle⟩
  | sleep {remaining seconds} :
      Advance gate ⟨remaining, .idle⟩ ⟨.sleep seconds, .ok ()⟩ ⟨remaining, .idle⟩
  | append {remaining message metadata} :
      Advance gate ⟨remaining, .idle⟩ ⟨.append message, .ok metadata⟩ ⟨remaining, .idle⟩
  | send {remaining remaining' message record} : gate.single → remaining' + 1 ≤ remaining →
      Advance gate ⟨remaining, .idle⟩ ⟨.send message, .ok record⟩
        ⟨remaining', .afterSend 1 record⟩
  | read {remaining partition} : partition ≠ -1 →
      Advance gate ⟨remaining, .idle⟩ ⟨.getIPartition, .ok partition⟩
        ⟨remaining, .read partition⟩
  | ask {remaining} :
      Advance gate ⟨remaining, .idle⟩ ⟨.getIPartition, .ok (-1 : ℤ)⟩ ⟨remaining, .asking⟩
  | advance {remaining partition} :
      Advance gate ⟨remaining, .read partition⟩ ⟨.setIPartition (partition + 1), .ok ()⟩
        ⟨remaining, .advanced partition⟩
  | more {remaining} {partition : ℤ} {nPartitions : ℕ} : partition + 1 ≠ nPartitions →
      Advance gate ⟨remaining, .advanced partition⟩ ⟨.partitionsFor, .ok nPartitions⟩
        ⟨remaining, .chosen partition⟩
  | last {remaining} {partition : ℤ} {nPartitions : ℕ} : partition + 1 = nPartitions →
      Advance gate ⟨remaining, .advanced partition⟩ ⟨.partitionsFor, .ok nPartitions⟩
        ⟨remaining, .last partition⟩
  | reset {remaining partition} :
      Advance gate ⟨remaining, .last partition⟩ ⟨.setIPartition (-1), .ok ()⟩
        ⟨remaining, .chosen partition⟩
  | lowest {remaining} {lowest : Option ℤ} :
      Advance gate ⟨remaining, .asking⟩ ⟨.getLowestScorePartition, .ok lowest⟩
        ⟨remaining, .chosen (lowest.getD 0)⟩
  | sendBatch {remaining remaining' partition messages record} :
      remaining' + messages.length ≤ remaining → messages.length ≤ messagesPerBatch →
      Advance gate ⟨remaining, .chosen partition⟩ ⟨.sendBatch messages partition, .ok record⟩
        ⟨remaining', .afterSend messages.length record⟩
  | count {remaining partition amount} :
      Advance gate ⟨remaining, .owing partition amount⟩
        ⟨.incrbyNTransactions partition amount, .ok ()⟩ ⟨remaining, .idle⟩

def Given (gate : Gate) : ProducerEvent → Prop
  | ⟨.partitionsFor, .ok nPartitions⟩ => gate.partitions nPartitions
  | _ => True

theorem given_of_partitionsFor {gate : Gate} {event : ProducerEvent}
    (h : ∀ answer, event = ⟨.partitionsFor, .ok answer⟩ → gate.partitions answer) :
    Given gate event := by
  rw [Given.eq_def]
  split
  · exact h _ rfl
  · trivial

def typestate (gate : Gate) : Typestate producerSignature PyError Phase where
  given := Given gate
  expects := Expects
  advance := Advance gate
  rests phase := phase.stage = .idle

/-- The task does not suspend before its next call. -/
def Busy (phase : Phase) : Prop :=
  match phase.stage with
  | .read _ => True
  | .last _ => True
  | _ => False

/-! ## The programs of the manager -/

section Conforms

variable {gate : Gate} {remaining : ℕ}

/-- One call, whose errors end the call of the task. -/
theorem conforms_perform {A : Type} {phase : Phase} {op : ProducerCall}
    {rest : op.Answer → ProducerProgram A} {post : A → Phase → Prop} (hexpects : Expects phase op)
    (hok : ∀ answer, Given gate ⟨op, .ok answer⟩ →
      ∃ phase', Advance gate phase ⟨op, .ok answer⟩ phase' ∧
        (rest answer).Conforms (typestate gate) post phase') :
    (perform op >>= rest).Conforms (typestate gate) post phase := by
  apply Program.conforms_bind
  exact Program.conforms_perform hexpects hok fun _ _ => ⟨.rest, .error, rfl⟩

theorem conforms_choosePartition :
    choosePartition.Conforms (typestate gate)
      (fun partition phase => phase = ⟨remaining, .chosen partition⟩) ⟨remaining, .idle⟩ := by
  refine conforms_perform trivial fun partition _ => ?_
  by_cases hphase : partition = -1
  · subst hphase
    refine ⟨_, .ask, ?_⟩
    exact conforms_perform trivial fun lowest _ => ⟨_, .lowest, rfl⟩
  · refine ⟨_, .read hphase, ?_⟩
    rw [if_pos hphase]
    refine conforms_perform rfl fun _ _ => ⟨_, .advance, ?_⟩
    refine conforms_perform trivial fun nPartitions _ => ?_
    by_cases hlast : partition + 1 = nPartitions
    · refine ⟨_, .last hlast, ?_⟩
      rw [if_pos hlast]
      exact conforms_perform rfl fun _ _ => ⟨_, .reset, rfl⟩
    · refine ⟨_, .more hlast, ?_⟩
      rw [if_neg hlast]
      exact rfl

/-- Past the gate, all messages of the call may be sent. -/
theorem conforms_limitTopicCapacity {size : ℕ} (hsize : size ≤ gate.bound) (fuel stallCounter : ℕ)
    (remaining : ℕ) :
    (limitTopicCapacity fuel stallCounter).Conforms (typestate gate)
      (fun _ phase => phase = ⟨size, .idle⟩) ⟨remaining, .idle⟩ := by
  induction fuel generalizing stallCounter remaining with
  | zero => exact rfl
  | succ fuel ih =>
      refine conforms_perform trivial fun nTxs _ => ?_
      obtain ⟨allowed, hallowed, hroom⟩ : ∃ allowed,
          (allowed = 0 ∨ gate.Room nTxs ∧ allowed ≤ gate.bound) ∧
            (gate.Room nTxs → allowed = size) := by
        by_cases hroom : gate.Room nTxs
        · exact ⟨size, .inr ⟨hroom, hsize⟩, fun _ => rfl⟩
        · exact ⟨0, .inl rfl, fun h => absurd h hroom⟩
      refine ⟨⟨allowed, .idle⟩, .gate hallowed, ?_⟩
      split
      · refine conforms_perform trivial fun nPart hnPart => ⟨_, .partitionsFor, ?_⟩
        split
        · exact conforms_perform trivial fun _ _ => ⟨_, .sleep, ih _ _⟩
        next hfull =>
            exact congrArg (Phase.mk · .idle) (hroom (gate.room_of_le hnPart (not_lt.mp hfull)))
      next hzero =>
          obtain rfl : nTxs = 0 := not_not.mp hzero
          split
          · exact congrArg (Phase.mk · .idle) (hroom gate.room_zero)
          · exact ih _ _

theorem conforms_appendMessages (msgs : List String) :
    (appendMessages msgs).Conforms (typestate gate)
      (fun appended phase => phase = ⟨remaining, .idle⟩ ∧ appended.length ≤ msgs.length)
      ⟨remaining, .idle⟩ := by
  induction msgs with
  | nil => exact ⟨rfl, le_rfl⟩
  | cons msg msgs ih =>
      refine conforms_perform trivial fun metadata _ => ⟨_, .append, ?_⟩
      apply ih.bind
      rintro appended _ ⟨rfl, hlength⟩
      refine ⟨rfl, ?_⟩
      split
      · exact Nat.succ_le_succ hlength
      · exact hlength.trans (Nat.le_succ _)

/-- A chunk uses up its part of what may be sent. -/
theorem conforms_sendChunk {chunk : List String} (hremaining : chunk.length ≤ remaining)
    (hbatch : chunk.length ≤ messagesPerBatch) :
    (sendChunk chunk).Conforms (typestate gate)
      (fun _ phase => phase = ⟨remaining - chunk.length, .idle⟩) ⟨remaining, .idle⟩ := by
  apply (conforms_appendMessages chunk).bind
  rintro appended _ ⟨rfl, hlength⟩
  apply conforms_choosePartition.bind
  rintro partition _ rfl
  have hsent : remaining - chunk.length + appended.length ≤ remaining := by omega
  refine conforms_perform rfl fun record _ => ⟨_, .sendBatch hsent (hlength.trans hbatch), ?_⟩
  cases record with
  | some metadata => exact conforms_perform ⟨rfl, rfl⟩ fun _ _ => ⟨_, .count, rfl⟩
  | none => exact rfl

theorem conforms_sendChunks {chunks : List (List String)}
    (hremaining : (chunks.map List.length).sum ≤ remaining)
    (hbatch : ∀ chunk ∈ chunks, chunk.length ≤ messagesPerBatch) :
    (sendChunks chunks).Conforms (typestate gate) (fun _ phase => phase.stage = .idle)
      ⟨remaining, .idle⟩ := by
  induction chunks generalizing remaining with
  | nil => exact rfl
  | cons chunk chunks ih =>
      rw [List.map_cons, List.sum_cons] at hremaining
      apply (conforms_sendChunk (by omega) (hbatch chunk List.mem_cons_self)).bind
      rintro record _ rfl
      apply (ih (by omega) fun other hother => hbatch other (List.mem_cons_of_mem _ hother)).bind
      intro records phase hphase
      exact hphase

theorem conforms_sendBatch (fuel : ℕ) {msgs : List String} (hbound : msgs.length ≤ gate.bound) :
    (sendBatch fuel msgs).Conforms (typestate gate) (fun _ phase => phase.stage = .idle)
      ⟨remaining, .idle⟩ := by
  apply (conforms_limitTopicCapacity hbound fuel 0 remaining).bind
  rintro _ _ rfl
  split
  · exact rfl
  · apply Program.Conforms.rescue
    · have hsum : ((chunks messagesPerBatch msgs).map List.length).sum ≤ msgs.length := by
        rw [← List.length_flatten, flatten_chunks (by decide)]
      apply (conforms_sendChunks hsum fun _ => length_le_of_mem_chunks).bind
      intro records phase hphase
      exact hphase
    · intro error rescued hrescued phase hphase
      cases error with
      | kafkaTimeoutError => exact Option.some.inj hrescued ▸ hphase
      | _ => cases hrescued

theorem conforms_sendMessage (fuel : ℕ) (msg : String) (hsingle : gate.single)
    (hbound : 1 ≤ gate.bound) :
    (sendMessage fuel msg).Conforms (typestate gate) (fun _ phase => phase.stage = .idle)
      ⟨remaining, .idle⟩ := by
  apply (conforms_limitTopicCapacity hbound fuel 0 remaining).bind
  rintro _ _ rfl
  apply Program.Conforms.rescue
  · refine conforms_perform trivial fun record _ => ⟨_, .send hsingle le_rfl, ?_⟩
    cases record with
    | some metadata => exact conforms_perform ⟨rfl, rfl⟩ fun _ _ => ⟨_, .count, rfl⟩
    | none => exact rfl
  · intro error rescued hrescued phase hphase
    cases error with
    | kafkaTimeoutError => exact Option.some.inj hrescued ▸ hphase
    | _ => cases hrescued

end Conforms

/-! ## Sequences of calls -/

/-- A call of `send_batch` or of `send_message`. -/
inductive Send where
  | batch (msgs : List String)
  | message (msg : String)

def Send.size : Send → ℕ
  | .batch msgs => msgs.length
  | .message _ => 1

def Gate.Admits (gate : Gate) : Send → Prop
  | .batch msgs => msgs.length ≤ gate.bound
  | .message _ => gate.single ∧ 1 ≤ gate.bound

theorem Gate.admits_of_size_le {gate : Gate} (hsingle : gate.single) {call : Send}
    (h : call.size ≤ gate.bound) : gate.Admits call := by
  cases call with
  | batch msgs => exact h
  | message msg => exact ⟨hsingle, h⟩

def send (fuel : ℕ) : Send → ProducerProgram Unit
  | .batch msgs => do
      let _ ← sendBatch fuel msgs
      return
  | .message msg => do
      let _ ← sendMessage fuel msg
      return

/-- The calls of one task, one after the other; their results are ignored. -/
def sends (fuel : ℕ) : List Send → ProducerProgram Unit
  | [] => return
  | first :: rest => do
      send fuel first
      sends fuel rest

theorem conforms_sends {gate : Gate} (fuel : ℕ) {calls : List Send}
    (hadmits : ∀ call ∈ calls, gate.Admits call) {phase : Phase} (hphase : phase.stage = .idle) :
    (sends fuel calls).Conforms (typestate gate) (fun _ phase => phase.stage = .idle) phase := by
  obtain ⟨remaining, _⟩ := phase
  cases hphase
  induction calls generalizing remaining with
  | nil => exact rfl
  | cons call calls ih =>
      have hrest := ih fun other hother => hadmits other (List.mem_cons_of_mem _ hother)
      have hcall := hadmits call List.mem_cons_self
      have hsend : (send fuel call).Conforms (typestate gate) (fun _ phase => phase.stage = .idle)
          ⟨remaining, .idle⟩ := by
        cases call with
        | batch msgs => exact (conforms_sendBatch fuel hcall).bind fun _ _ hphase => hphase
        | message msg =>
            apply (conforms_sendMessage fuel msg hcall.1 hcall.2).bind
            exact fun _ _ hphase => hphase
      apply hsend.bind
      rintro _ ⟨remaining', _⟩ rfl
      exact hrest remaining'

theorem conforms_tasks {gate : Gate} {fuel : ℕ} {calls : List (List Send)}
    (hadmits : ∀ sequence ∈ calls, ∀ call ∈ sequence, gate.Admits call) (task : ℕ)
    (program : ProducerProgram Unit) (h : (calls.map (sends fuel))[task]? = some program) :
    program.Conforms (typestate gate) (fun _ phase => phase.stage = .idle) .rest := by
  obtain ⟨sequence, hsequence, rfl⟩ := List.mem_map.mp (List.mem_of_getElem? h)
  exact conforms_sends fuel (hadmits sequence hsequence) rfl

end BlockchainDataCollection.Sending
