import BlockchainDataCollection.Producer.KafkaProducer

/-!
# The capacity gate

The decorator `limit_topic_capacity` polls the number of messages in the topic
and should call the wrapped function after the first poll that leaves room.  A
poll of zero is falsy: the loop then only ends while it has not stalled before,
and goes on polling otherwise.
-/

namespace BlockchainDataCollection.Capacity

open BlockchainDataCollection.Effect
open BlockchainDataCollection.Python
open BlockchainDataCollection.KafkaProducer

/-! ## Sequences of polls -/

/-- One poll, and the number of partitions at that time. -/
structure Reading where
  nTxs : ℤ
  nPartitions : ℕ
  positive : 0 < nPartitions

def Reading.WithinLimit (reading : Reading) : Prop :=
  reading.nTxs ≤ maxMessagesPerPartition * reading.nPartitions

instance (reading : Reading) : Decidable reading.WithinLimit :=
  inferInstanceAs (Decidable (_ ≤ _))

/-- The polls in order; a finite sequence ends with a poll that fails. -/
abbrev Polls := ℕ → Option Reading

/-- The answers to the gate, counting the polls. -/
def answer (polls : Polls) : (op : ProducerCall) → ℕ → Except PyError op.Answer × ℕ
  | .getNTransactions, made =>
      match polls made with
      | some reading => (.ok reading.nTxs, made + 1)
      | none => (.error (.redisError "Connection closed by server."), made)
  | .partitionsFor, made =>
      match polls (made - 1) with
      | some reading => (.ok reading.nPartitions, made)
      | none => (.error .kafkaTimeoutError, made)
  | .sleep _, made => (.ok (), made)
  | _, made => (.error .kafkaTimeoutError, made)

/-- The wrapped function is called right after poll number `last`. -/
def OpensAfter (polls : Polls) (last : ℕ) : Prop :=
  ∃ fuel, (limitTopicCapacity fuel 0).run (answer polls) 0 = (.returned (), last + 1)

/-- Poll number `last` is the first within the limit. -/
def FirstWithin (polls : Polls) (last : ℕ) : Prop :=
  (∃ reading, polls last = some reading ∧ reading.WithinLimit) ∧
    ∀ made < last, ∃ reading, polls made = some reading ∧ ¬ reading.WithinLimit

/-- The gate opens after the first poll within the limit, and never otherwise. -/
def OpensExactly (polls : Polls) : Prop :=
  ∀ last, OpensAfter polls last ↔ FirstWithin polls last

/-- The first poll within the limit is not a zero after a stall. -/
def NoZeroAfterStall (polls : Polls) : Prop :=
  ∀ last reading, FirstWithin polls last → polls last = some reading →
    reading.nTxs = 0 → last = 0

/-! ## One iteration -/

section Iteration

variable {polls : Polls} {made stallCounter : ℕ} {reading : Reading}

theorem run_getNTransactions (hpoll : polls made = some reading) :
    (perform .getNTransactions).run (answer polls) made =
      (.returned reading.nTxs, made + 1) := by
  apply Program.run_perform_ok
  simp only [answer, hpoll]

theorem run_partitionsFor (hpoll : polls made = some reading) :
    (perform .partitionsFor).run (answer polls) (made + 1) =
      (.returned reading.nPartitions, made + 1) := by
  apply Program.run_perform_ok
  simp only [answer, Nat.add_sub_cancel, hpoll]

/-- A poll above the limit stalls for a second. -/
theorem run_above (fuel : ℕ) (hpoll : polls made = some reading) (habove : ¬ reading.WithinLimit) :
    (limitTopicCapacity (fuel + 1) stallCounter).run (answer polls) made =
      (limitTopicCapacity fuel (stallCounter + 1)).run (answer polls) (made + 1) := by
  have hgt : reading.nTxs > maxMessagesPerPartition * reading.nPartitions := not_le.mp habove
  have hne : reading.nTxs ≠ 0 := by
    have hnonneg : (0 : ℤ) ≤ maxMessagesPerPartition * reading.nPartitions := by positivity
    omega
  rw [limitTopicCapacity, Program.run_bind_of_returned (run_getNTransactions hpoll), if_pos hne,
    Program.run_bind_of_returned (run_partitionsFor hpoll), if_pos hgt]
  exact Program.run_bind_of_returned (Program.run_perform_ok rfl)

/-- A poll within the limit that is not zero opens the gate. -/
theorem run_within (fuel : ℕ) (hpoll : polls made = some reading) (hwithin : reading.WithinLimit)
    (hne : reading.nTxs ≠ 0) :
    (limitTopicCapacity (fuel + 1) stallCounter).run (answer polls) made =
      (.returned (), made + 1) := by
  rw [limitTopicCapacity, Program.run_bind_of_returned (run_getNTransactions hpoll), if_pos hne,
    Program.run_bind_of_returned (run_partitionsFor hpoll), if_neg (not_lt.mpr hwithin)]
  rfl

/-- A poll of zero opens the gate only as long as nothing has stalled. -/
theorem run_zero (fuel : ℕ) (hpoll : polls made = some reading) (hzero : reading.nTxs = 0) :
    (limitTopicCapacity (fuel + 1) stallCounter).run (answer polls) made =
      if stallCounter = 0 then (.returned (), made + 1)
      else (limitTopicCapacity fuel stallCounter).run (answer polls) (made + 1) := by
  rw [limitTopicCapacity, Program.run_bind_of_returned (run_getNTransactions hpoll),
    if_neg (not_not.mpr hzero)]
  split <;> rfl

/-- A failed poll is raised. -/
theorem run_none (fuel : ℕ) (hpoll : polls made = none) :
    (limitTopicCapacity (fuel + 1) stallCounter).run (answer polls) made =
      (.raised (.redisError "Connection closed by server."), made) := by
  rw [limitTopicCapacity]
  apply Program.run_bind_of_raised
  apply Program.run_perform_error
  simp only [answer, hpoll]

/-- What one iteration does: it fails, it opens the gate, or it goes on. -/
theorem run_succ_cases (polls : Polls) (fuel stallCounter made : ℕ) :
    (polls made = none ∧ ∃ error,
      (limitTopicCapacity (fuel + 1) stallCounter).run (answer polls) made =
        (.raised error, made)) ∨
    ∃ reading, polls made = some reading ∧
      (¬ reading.WithinLimit ∧
        (limitTopicCapacity (fuel + 1) stallCounter).run (answer polls) made =
          (limitTopicCapacity fuel (stallCounter + 1)).run (answer polls) (made + 1) ∨
      reading.WithinLimit ∧ (reading.nTxs ≠ 0 ∨ stallCounter = 0) ∧
        (limitTopicCapacity (fuel + 1) stallCounter).run (answer polls) made =
          (.returned (), made + 1) ∨
      reading.nTxs = 0 ∧ stallCounter ≠ 0 ∧
        (limitTopicCapacity (fuel + 1) stallCounter).run (answer polls) made =
          (limitTopicCapacity fuel stallCounter).run (answer polls) (made + 1)) := by
  cases hpoll : polls made with
  | none => exact .inl ⟨rfl, _, run_none fuel hpoll⟩
  | some reading =>
      refine .inr ⟨reading, rfl, ?_⟩
      by_cases hwithin : reading.WithinLimit
      · by_cases hzero : reading.nTxs = 0
        · have hrun := @run_zero polls made stallCounter reading fuel hpoll hzero
          by_cases hstall : stallCounter = 0
          · rw [if_pos hstall] at hrun
            exact .inr (.inl ⟨hwithin, .inr hstall, hrun⟩)
          · rw [if_neg hstall] at hrun
            exact .inr (.inr ⟨hzero, hstall, hrun⟩)
        · exact .inr (.inl ⟨hwithin, .inl hzero, run_within fuel hpoll hwithin hzero⟩)
      · exact .inl ⟨hwithin, run_above fuel hpoll hwithin⟩

end Iteration

/-! ## Whole runs -/

section Runs

variable {polls : Polls}

def AllAbove (polls : Polls) (count : ℕ) : Prop :=
  ∀ made < count, ∃ reading, polls made = some reading ∧ ¬ reading.WithinLimit

theorem AllAbove.succ {count : ℕ} {reading : Reading} (h : AllAbove polls count)
    (hpoll : polls count = some reading) (habove : ¬ reading.WithinLimit) :
    AllAbove polls (count + 1) := by
  intro made hmade
  rcases Nat.lt_succ_iff_lt_or_eq.mp hmade with hlt | rfl
  · exact h made hlt
  · exact ⟨reading, hpoll, habove⟩

/-- After polls above the limit the gate has stalled once for each of them. -/
theorem run_allAbove {count : ℕ} (h : AllAbove polls count) (fuel : ℕ) :
    (limitTopicCapacity (fuel + count) 0).run (answer polls) 0 =
      (limitTopicCapacity fuel count).run (answer polls) count := by
  induction count generalizing fuel with
  | zero => rfl
  | succ count ih =>
      obtain ⟨reading, hpoll, habove⟩ := h count (Nat.lt_succ_self count)
      calc (limitTopicCapacity (fuel + (count + 1)) 0).run (answer polls) 0
          = (limitTopicCapacity (fuel + 1 + count) 0).run (answer polls) 0 := by
            rw [Nat.add_right_comm, Nat.add_assoc]
        _ = (limitTopicCapacity (fuel + 1) count).run (answer polls) count :=
            ih (fun made hmade => h made (Nat.lt_succ_of_lt hmade)) (fuel + 1)
        _ = (limitTopicCapacity fuel (count + 1)).run (answer polls) (count + 1) :=
            run_above fuel hpoll habove

/-- The gate makes at least one poll. -/
theorem lt_of_returned {fuel stallCounter made last : ℕ}
    (hrun : (limitTopicCapacity fuel stallCounter).run (answer polls) made =
      (.returned (), last)) : made < last := by
  induction fuel generalizing stallCounter made with
  | zero => cases hrun
  | succ fuel ih =>
      rcases run_succ_cases polls fuel stallCounter made with
        ⟨_, error, hstep⟩ | ⟨reading, _, ⟨_, hstep⟩ | ⟨_, _, hstep⟩ | ⟨_, _, hstep⟩⟩
      · rw [hstep] at hrun
        cases hrun
      · exact (Nat.lt_succ_self made).trans (ih (hstep ▸ hrun))
      · rw [hstep] at hrun
        cases hrun
        exact Nat.lt_succ_self made
      · exact (Nat.lt_succ_self made).trans (ih (hstep ▸ hrun))

/-- A zero after a stall is passed over. -/
theorem passes_zero_after_stall {last : ℕ} {reading : Reading} (habove : AllAbove polls last)
    (hpoll : polls last = some reading) (hzero : reading.nTxs = 0) (hlast : last ≠ 0)
    {fuel made opened : ℕ} (hmade : made ≤ last)
    (hrun : (limitTopicCapacity fuel made).run (answer polls) made = (.returned (), opened)) :
    last + 1 < opened := by
  induction fuel generalizing made with
  | zero => cases hrun
  | succ fuel ih =>
      rcases hmade.lt_or_eq with hlt | rfl
      · obtain ⟨other, hother, hgt⟩ := habove made hlt
        rw [run_above fuel hother hgt] at hrun
        exact ih hlt hrun
      · rw [run_zero fuel hpoll hzero, if_neg hlast] at hrun
        exact lt_of_returned hrun

/-- Without such a zero, the gate opens after the first poll within the limit only. -/
theorem firstWithin_of_returned (hzero : NoZeroAfterStall polls) {fuel made last : ℕ}
    (habove : AllAbove polls made)
    (hrun : (limitTopicCapacity fuel made).run (answer polls) made = (.returned (), last + 1)) :
    FirstWithin polls last := by
  induction fuel generalizing made with
  | zero => cases hrun
  | succ fuel ih =>
      rcases run_succ_cases polls fuel made made with
        ⟨_, error, hstep⟩ | ⟨reading, hpoll, ⟨hgt, hstep⟩ | ⟨hwithin, _, hstep⟩ |
          ⟨hread, hstall, _⟩⟩
      · rw [hstep] at hrun
        cases hrun
      · exact ih (habove.succ hpoll hgt) (hstep ▸ hrun)
      · rw [hstep] at hrun
        cases hrun
        exact ⟨⟨reading, hpoll, hwithin⟩, habove⟩
      · have hwithin : reading.WithinLimit := by
          rw [Reading.WithinLimit, hread]
          positivity
        exact absurd (hzero made reading ⟨⟨reading, hpoll, hwithin⟩, habove⟩ hpoll hread) hstall

theorem opensAfter_of_firstWithin (hzero : NoZeroAfterStall polls) {last : ℕ}
    (hfirst : FirstWithin polls last) : OpensAfter polls last := by
  obtain ⟨⟨reading, hpoll, hwithin⟩, habove⟩ := hfirst
  refine ⟨1 + last, ?_⟩
  rw [run_allAbove habove]
  by_cases hread : reading.nTxs = 0
  · obtain rfl := hzero last reading ⟨⟨reading, hpoll, hwithin⟩, habove⟩ hpoll hread
    rw [run_zero 0 hpoll hread, if_pos rfl]
  · exact run_within 0 hpoll hwithin hread

/-- The gate opens exactly when there is room, unless there is room for the
first time at a zero that follows a stall. -/
theorem opensExactly_iff (polls : Polls) : OpensExactly polls ↔ NoZeroAfterStall polls := by
  constructor
  · intro hopens last reading hfirst hpoll hread
    by_contra hlast
    obtain ⟨fuel, hrun⟩ := (hopens last).mpr hfirst
    exact Nat.lt_irrefl _
      (passes_zero_after_stall hfirst.2 hpoll hread hlast (Nat.zero_le last) hrun)
  · intro hzero last
    constructor
    · rintro ⟨fuel, hrun⟩
      exact firstWithin_of_returned hzero (fun made hmade => absurd hmade made.not_lt_zero) hrun
    · exact opensAfter_of_firstWithin hzero

end Runs

/-- A full topic of one partition, then an empty one for good. -/
def drained : Polls
  | 0 => some ⟨1001, 1, Nat.one_pos⟩
  | _ => some ⟨0, 1, Nat.one_pos⟩

/-- The gate does not open after the poll that finds the topic drained. -/
theorem drained_not_opensExactly : ¬ OpensExactly drained := by
  intro hopens
  have hfirst : FirstWithin drained 1 := by
    refine ⟨⟨_, rfl, by decide⟩, fun made hmade => ?_⟩
    obtain rfl : made = 0 := by omega
    exact ⟨_, rfl, by decide⟩
  obtain ⟨fuel, hrun⟩ := (hopens 1).mpr hfirst
  exact Nat.lt_irrefl _
    (passes_zero_after_stall hfirst.2 rfl rfl Nat.one_ne_zero (Nat.zero_le 1) hrun)

end BlockchainDataCollection.Capacity
