import BlockchainDataCollection.Producer.Coverage

/-!
# Runs with and without rewards

Erasing the rewards, a run with rewards is a prefix of the run without.  It is
the whole run exactly when every block reached has a reward to read.
-/

namespace BlockchainDataCollection.Rewards

open BlockchainDataCollection.Effect
open BlockchainDataCollection.Effect.Program (Yields)
open BlockchainDataCollection.Python
open BlockchainDataCollection.Data
open BlockchainDataCollection.Storage
open BlockchainDataCollection.KafkaProducer
open BlockchainDataCollection.DataProducer
open BlockchainDataCollection.Producing

/-! ## Rewards -/

def isReward (trace : BlockTrace) : Bool := trace.type = "reward"

/-- The value of the first reward trace, or 0 when there is none. -/
def expectedReward (traces : List BlockTrace) : Except PyError ℤ :=
  match traces.find? isReward with
  | some trace => intBase16 trace.actionValue
  | none => .ok 0

/-- Some trace is a reward, and the value of the first one is a number. -/
def HasReward (traces : List BlockTrace) : Prop :=
  ∃ trace value, traces.find? isReward = some trace ∧ intBase16 trace.actionValue = .ok value

theorem blockReward_eq_ok_iff {traces : List BlockTrace} {value : ℤ} :
    blockReward traces = .ok value ↔
      (traces.find? isReward).isSome ∧ expectedReward traces = .ok value := by
  have hfind : (traces.find? fun trace => trace.type = "reward") = traces.find? isReward := rfl
  rw [blockReward, expectedReward, hfind]
  cases traces.find? isReward <;> simp

theorem hasReward_iff {traces : List BlockTrace} :
    HasReward traces ↔ ∃ value, blockReward traces = .ok value := by
  simp only [blockReward_eq_ok_iff, expectedReward, HasReward]
  cases traces.find? isReward <;> simp

/-! ## Outputs up to rewards -/

def withoutReward : Produced → Produced
  | .written (.insert .block row) => .written (.insert .block { row with blockReward := 0 })
  | produced => produced

/-- The same rows and messages, and the rewards that the traces give. -/
def Agree (chain : Chain) (full withoutRewards : List Produced) : Prop :=
  full.map withoutReward = withoutRewards.map withoutReward ∧
    ∀ row, Produced.written (insertBlock row) ∈ full →
      expectedReward (chain.traces row.blockNumber) = .ok row.blockReward

section Runs

variable {chain : Chain} {cfg : DataCollectionConfig} {overflow : Overflow}
  {startBlock : ℤ}

theorem map_withoutReward_blockOutput (number reward reward' : ℤ) :
    (blockOutput chain cfg number reward).map withoutReward =
      (blockOutput chain cfg number reward').map withoutReward := by
  rw [blockOutput, blockOutput, List.map_cons, List.map_cons]
  rfl

theorem eq_blockRow_of_mem_blockOutput {number reward : ℤ} {row : BlockRow}
    (hrow : Produced.written (insertBlock row) ∈ blockOutput chain cfg number reward) :
    row = blockRow (chain.block number) reward := by
  rcases List.mem_cons.mp hrow with hrow | hrow
  · exact Statement.insert_inj.mp (Produced.written.inj hrow)
  · obtain ⟨_, _, hmessage⟩ := List.mem_map.mp hrow
    cases hmessage

/-- Whatever a run with rewards stores is the expected reward. -/
theorem expectedReward_of_mem_transcript {count : ℕ} {number : ℤ} {row : BlockRow}
    (hrow : Produced.written (insertBlock row) ∈
      (transcript chain cfg overflow true startBlock count number).1) :
    expectedReward (chain.traces row.blockNumber) = .ok row.blockReward := by
  induction count generalizing number with
  | zero => cases hrow
  | succ count ih =>
      cases hreward : rewardOf chain true number with
      | error error =>
          rw [transcript_of_reward_error hreward] at hrow
          cases hrow
      | ok reward =>
          have hstored : Produced.written (insertBlock row) ∈ blockOutput chain cfg number reward →
              expectedReward (chain.traces row.blockNumber) = .ok row.blockReward := by
            intro hmem
            rw [eq_blockRow_of_mem_blockOutput hmem, blockRow, chain.blockNumber_eq]
            exact (blockReward_eq_ok_iff.mp hreward).2
          cases hlogged : progressOf cfg overflow startBlock number with
          | error error =>
              rw [transcript_of_progress_error hreward hlogged] at hrow
              exact hstored hrow
          | ok _ =>
              rw [transcript_of_ok hreward hlogged] at hrow
              exact (List.mem_append.mp hrow).elim hstored ih

/-- A run without rewards gets to the block: it is in the range, and no progress
line before it raises. -/
def Reached (chain : Chain) (cfg : DataCollectionConfig) (overflow : Overflow)
    (startBlock first number : ℤ) : Prop :=
  first ≤ number ∧ number ≤ lastProduced chain cfg ∧
    ∀ i, first ≤ i → i < number → progressOf cfg overflow startBlock i = .ok ()

theorem reached_iff_of_lt {first number : ℤ} (hlt : first < number) :
    Reached chain cfg overflow startBlock first number ↔
      progressOf cfg overflow startBlock first = .ok () ∧
        Reached chain cfg overflow startBlock (first + 1) number := by
  constructor
  · rintro ⟨_, hlast, hprogress⟩
    exact ⟨hprogress first le_rfl hlt, hlt, hlast, fun i hi => hprogress i (by omega)⟩
  · rintro ⟨hlogged, _, hlast, hprogress⟩
    refine ⟨hlt.le, hlast, fun i hi hnumber => ?_⟩
    rcases hi.eq_or_lt with rfl | hi
    · exact hlogged
    · exact hprogress i hi hnumber

theorem forall_reached_iff {P : ℤ → Prop} {first : ℤ} (hfirst : first ≤ lastProduced chain cfg) :
    (∀ number, Reached chain cfg overflow startBlock first number → P number) ↔
      P first ∧ (progressOf cfg overflow startBlock first = .ok () →
        ∀ number, Reached chain cfg overflow startBlock (first + 1) number → P number) := by
  constructor
  · intro h
    refine ⟨h first ⟨le_rfl, hfirst, fun i hi hlt => absurd hlt hi.not_gt⟩,
      fun hlogged number hreached => ?_⟩
    exact h number ((reached_iff_of_lt hreached.1).mpr ⟨hlogged, hreached⟩)
  · rintro ⟨hhead, htail⟩ number hreached
    rcases hreached.1.eq_or_lt with rfl | hlt
    · exact hhead
    · obtain ⟨hlogged, hrest⟩ := (reached_iff_of_lt hlt).mp hreached
      exact htail hlogged number hrest

/-- The transcripts have the same rows and messages exactly when every block
reached has a reward. -/
theorem transcripts_agree_iff {count : ℕ} {number : ℤ}
    (hcount : (lastProduced chain cfg + 1 - number).toNat = count) :
    (transcript chain cfg overflow true startBlock count number).1.map withoutReward =
        (transcript chain cfg overflow false startBlock count number).1.map withoutReward ↔
      ∀ i, Reached chain cfg overflow startBlock number i → HasReward (chain.traces i) := by
  induction count generalizing number with
  | zero =>
      refine iff_of_true rfl fun i hreached => ?_
      have hempty := hreached.1.trans hreached.2.1
      omega
  | succ count ih =>
      have hnumber : number ≤ lastProduced chain cfg := by omega
      have hrest : (lastProduced chain cfg + 1 - (number + 1)).toNat = count := by omega
      have hzero : rewardOf chain false number = .ok 0 := rfl
      rw [forall_reached_iff hnumber, hasReward_iff, ← ih hrest]
      cases hreward : rewardOf chain true number with
      | error error =>
          -- the run with rewards stops before the row that the other run writes
          have hproduced :
              (transcript chain cfg overflow false startBlock (count + 1) number).1 ≠ [] := by
            cases hlogged : progressOf cfg overflow startBlock number with
            | error error => simp [transcript_of_progress_error hzero hlogged, blockOutput]
            | ok _ => simp [transcript_of_ok hzero hlogged, blockOutput]
          rw [transcript_of_reward_error hreward]
          refine iff_of_false (fun hsame => ?_) fun h => ?_
          · exact hproduced (List.map_eq_nil_iff.mp hsame.symm)
          · obtain ⟨value, hvalue⟩ := h.1
            cases hreward.symm.trans hvalue
      | ok reward =>
          have hread : ∃ value, blockReward (chain.traces number) = .ok value := ⟨reward, hreward⟩
          cases hlogged : progressOf cfg overflow startBlock number with
          | error error =>
              rw [transcript_of_progress_error hreward hlogged,
                transcript_of_progress_error hzero hlogged]
              exact iff_of_true (map_withoutReward_blockOutput _ _ _) ⟨hread, fun h => by cases h⟩
          | ok _ =>
              rw [transcript_of_ok hreward hlogged, transcript_of_ok hzero hlogged,
                List.map_append, List.map_append, map_withoutReward_blockOutput number reward 0,
                List.append_cancel_left_eq]
              simp [hread]

/-- The runs with and without rewards come to an end, and what they produced
agrees. -/
def ProducersAgree (chain : Chain) (cfg : DataCollectionConfig)
    (fullEnvironment partialEnvironment : ProducerEnvironment) : Prop :=
  ∃ fullOutcome partialOutcome full withoutRewards,
    Yields fullEnvironment observe (fun fuel => startProducer fuel cfg true)
      (· = outcomeOf fullOutcome) full ∧
    Yields partialEnvironment observe (fun fuel => startProducer fuel cfg false)
      (· = outcomeOf partialOutcome) withoutRewards ∧
    Agree chain full withoutRewards

/-- With a numeric start block, the runs with and without rewards agree if and
only if every block reached has a reward to read. -/
theorem producers_agree_iff {lastBlock : Option ℤ}
    {fullEnvironment partialEnvironment : ProducerEnvironment}
    (hfull : Cooperative chain lastBlock overflow fullEnvironment)
    (hplain : Cooperative chain lastBlock overflow partialEnvironment)
    (hstart : cfg.startBlock = some startBlock) :
    ProducersAgree chain cfg fullEnvironment partialEnvironment ↔
      ∀ number, Reached chain cfg overflow startBlock startBlock number →
        HasReward (chain.traces number) := by
  have hfirst : firstBlock cfg lastBlock = startBlock := by rw [firstBlock, hstart]; rfl
  have hresume : cfg.startBlock = none → lastBlock = none := by simp [hstart]
  have hfullRun : Yields fullEnvironment observe (fun fuel => startProducer fuel cfg true) _ _ :=
    yields_startProducer hfull hresume rfl
  have hplainRun : Yields partialEnvironment observe
      (fun fuel => startProducer fuel cfg false) _ _ :=
    yields_startProducer hplain hresume rfl
  rw [hfirst] at hfullRun hplainRun
  rw [← transcripts_agree_iff rfl]
  constructor
  · rintro ⟨_, _, full, withoutRewards, hfull', hplain', hagree, _⟩
    obtain ⟨rfl, _⟩ := hfull'.unique hfullRun
    obtain ⟨rfl, _⟩ := hplain'.unique hplainRun
    exact hagree
  · intro hagree
    exact ⟨_, _, _, _, hfullRun, hplainRun, hagree, fun _ => expectedReward_of_mem_transcript⟩

end Runs

section Deployment

open Deployment

/-- A chain of blocks that earn a reward. -/
def rewarded : Chain := chain [⟨"call", "0x0"⟩, ⟨"reward", "0x1bc16d674ec80000"⟩]

theorem producers_agree_of_rewards :
    ProducersAgree rewarded (config (some 0) (some 7)) (answering rewarded none fun _ _ => none)
      (answering rewarded none fun _ _ => none) :=
  (producers_agree_iff (cooperative_answering _ _ _) (cooperative_answering _ _ _) rfl).mpr
    fun _ _ => ⟨⟨"reward", "0x1bc16d674ec80000"⟩, 2000000000000000000, rfl, by decide⟩

/-- Without rewards in the traces, the run that asks for them raises before its
first row. -/
theorem missing_reward_raises :
    ¬ ProducersAgree (chain []) (config (some 0) (some 7))
      (answering (chain []) none fun _ _ => none) (answering (chain []) none fun _ _ => none) := by
  rintro ⟨_, _, full, withoutRewards, hfull, hplain, hagree, _⟩
  have hcooperative := cooperative_answering (chain []) none fun _ _ => none
  have hfullRun : Yields _ observe
      (fun fuel => startProducer fuel (config (some 0) (some 7)) true) _ _ :=
    yields_startProducer hcooperative (by simp) rfl
  have hplainRun : Yields _ observe
      (fun fuel => startProducer fuel (config (some 0) (some 7)) false) _ _ :=
    yields_startProducer hcooperative (by simp) rfl
  obtain ⟨rfl, _⟩ := hfull.unique hfullRun
  obtain ⟨rfl, _⟩ := hplain.unique hplainRun
  exact absurd (congrArg List.length hagree) (by decide)

end Deployment

end BlockchainDataCollection.Rewards
