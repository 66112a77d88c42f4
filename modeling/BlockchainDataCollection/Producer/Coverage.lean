import BlockchainDataCollection.Producer.Producing

/-!
# Block range coverage

A run without rewards covers its range of blocks exactly when no progress line
raises.  With the end block unset, every progress line does.
-/

namespace BlockchainDataCollection.Coverage

open BlockchainDataCollection.Effect
open BlockchainDataCollection.Effect.Program (Yields)
open BlockchainDataCollection.Python
open BlockchainDataCollection.Data
open BlockchainDataCollection.KafkaProducer
open BlockchainDataCollection.DataProducer
open BlockchainDataCollection.Producing

/-! ## Ranges of blocks -/

theorem range_of_le {first last : ℤ} (h : last ≤ first) : Int.range first last = [] := by
  have hempty : (last - first).toNat = 0 := by omega
  rw [Int.range, hempty]
  rfl

theorem range_of_lt {first last : ℤ} (h : first < last) :
    Int.range first last = first :: Int.range (first + 1) last := by
  have hlength : (last - first).toNat = (last - (first + 1)).toNat + 1 := by omega
  rw [Int.range, Int.range, hlength, List.range_succ_eq_map, List.map_cons, List.map_map]
  congr 1
  · simp
  · apply List.map_congr_left
    intro index _
    rw [Function.comp_apply, Nat.succ_eq_add_one]
    push_cast
    ring

section Coverage

variable (chain : Chain) (cfg : DataCollectionConfig) (overflow : Overflow)

/-- The rows and messages of the blocks from `startBlock` on, in ascending order. -/
def coveredOutput (startBlock : ℤ) : List Produced :=
  (Int.range startBlock (lastProduced chain cfg + 1)).flatMap fun number =>
    blockOutput chain cfg number 0

/-- The time estimates of all progress lines of the range fit a `timedelta`. -/
def EstimatesFit (startBlock : ℤ) : Prop :=
  ∀ endBlock ∈ cfg.endBlock, ∀ number, startBlock ≤ number → number ≤ lastProduced chain cfg →
    progressDue (number - startBlock) (endBlock - startBlock) →
    overflow (number - startBlock) ((endBlock - startBlock) - (number - startBlock)) = none

variable {chain cfg overflow}

theorem progressOf_eq_ok_iff {startBlock number : ℤ} :
    progressOf cfg overflow startBlock number = .ok () ↔
      ∃ endBlock, cfg.endBlock = some endBlock ∧
        (progressDue (number - startBlock) (endBlock - startBlock) →
          overflow (number - startBlock)
            ((endBlock - startBlock) - (number - startBlock)) = none) := by
  rw [progressOf]
  cases cfg.endBlock with
  | none => simp
  | some endBlock =>
      simp only [Option.some.injEq, exists_eq_left']
      generalize overflow (number - startBlock)
        ((endBlock - startBlock) - (number - startBlock)) = estimate
      cases estimate <;> simp

theorem progressOf_ne_blockNotFound {startBlock number : ℤ} :
    progressOf cfg overflow startBlock number ≠ .error .blockNotFound := by
  rw [progressOf]
  cases cfg.endBlock with
  | none => simp
  | some endBlock =>
      simp only
      generalize overflow (number - startBlock)
        ((endBlock - startBlock) - (number - startBlock)) = estimate
      cases estimate <;> split <;> simp

/-- All progress lines of a range print. -/
theorem forall_progressOf_eq_ok_iff {startBlock : ℤ} :
    (∀ number, startBlock ≤ number → number ≤ lastProduced chain cfg →
        progressOf cfg overflow startBlock number = .ok ()) ↔
      (cfg.endBlock ≠ none ∨ chain.height < startBlock) ∧
        EstimatesFit chain cfg overflow startBlock := by
  simp only [progressOf_eq_ok_iff, EstimatesFit]
  cases hend : cfg.endBlock with
  | none =>
      simp only [lastProduced, hend, reduceCtorEq, false_and, exists_false, imp_false, not_le,
        ne_eq, not_true_eq_false, false_or, Option.mem_def, false_imp_iff, implies_true, and_true]
      exact ⟨fun h => h startBlock le_rfl, fun h number hle => h.trans_le hle⟩
  | some endBlock =>
      simp only [Option.some.injEq, exists_eq_left', Option.mem_def, forall_eq', ne_eq,
        reduceCtorEq, not_false_eq_true, true_or, true_and]

/-- The loop goes over all blocks that are left exactly when all their progress
lines print. -/
theorem transcript_returned_iff {startBlock : ℤ} {count : ℕ} {number : ℤ}
    (hcount : (lastProduced chain cfg + 1 - number).toNat = count) :
    afterBlockNotFound
          (transcript chain cfg overflow false startBlock count number).2 = .ok () ↔
      ∀ i, number ≤ i → i ≤ lastProduced chain cfg →
        progressOf cfg overflow startBlock i = .ok () := by
  induction count generalizing number with
  | zero =>
      refine iff_of_true ?_ fun i hfirst hlast => absurd hcount (by omega)
      rw [transcript]
      split <;> rfl
  | succ count ih =>
      have hnumber : number ≤ lastProduced chain cfg := by omega
      have hreward : rewardOf chain false number = .ok 0 := rfl
      cases hlogged : progressOf cfg overflow startBlock number with
      | error error =>
          rw [transcript_of_progress_error hreward hlogged]
          refine iff_of_false ?_ fun h => ?_
          · intro hended
            rcases afterBlockNotFound_eq_ok_iff.mp hended with hok | hmissing
            · cases hok
            · exact progressOf_ne_blockNotFound (hlogged.trans hmissing)
          · cases hlogged.symm.trans (h number le_rfl hnumber)
      | ok _ =>
          have hrest : (lastProduced chain cfg + 1 - (number + 1)).toNat = count := by omega
          rw [transcript_of_ok hreward hlogged, ih hrest]
          constructor
          · intro h i hfirst hlast
            rcases hfirst.eq_or_lt with rfl | hlt
            · exact hlogged
            · exact h i hlt hlast
          · exact fun h i hfirst hlast => h i (by omega) hlast

/-- A loop over all blocks that are left produces them all. -/
theorem transcript_output {startBlock : ℤ} {count : ℕ} {number : ℤ}
    (hcount : (lastProduced chain cfg + 1 - number).toNat = count)
    (hprogress : ∀ i, number ≤ i → i ≤ lastProduced chain cfg →
      progressOf cfg overflow startBlock i = .ok ()) :
    (transcript chain cfg overflow false startBlock count number).1 =
      coveredOutput chain cfg number := by
  induction count generalizing number with
  | zero =>
      rw [coveredOutput, range_of_le (by omega)]
      rfl
  | succ count ih =>
      have hreward : rewardOf chain false number = .ok 0 := rfl
      have hlogged := hprogress number le_rfl (by omega)
      rw [transcript_of_ok hreward hlogged, coveredOutput, range_of_lt (by omega),
        List.flatMap_cons, ← coveredOutput]
      have hrest : (lastProduced chain cfg + 1 - (number + 1)).toNat = count := by omega
      exact congrArg (blockOutput chain cfg number 0 ++ ·)
        (ih hrest fun i hfirst hlast => hprogress i (by omega) hlast)

/-- A run without rewards finishes, having produced exactly the blocks of its
range once and in ascending order, if and only if the end block is set or the
range is empty, no stored block replaces a missing start block, and the time
estimates fit. -/
theorem blockRange_covered_iff {lastBlock : Option ℤ} {environment : ProducerEnvironment}
    (h : Cooperative chain lastBlock overflow environment) :
    Yields environment observe (fun fuel => startProducer fuel cfg false) (· = .returned ())
        (coveredOutput chain cfg (firstBlock cfg lastBlock)) ↔
      (cfg.endBlock ≠ none ∨ chain.height < firstBlock cfg lastBlock) ∧
        (cfg.startBlock = none → lastBlock = none) ∧
        EstimatesFit chain cfg overflow (firstBlock cfg lastBlock) := by
  by_cases hstart : cfg.startBlock = none → lastBlock = none
  · have hrun : Yields environment observe (fun fuel => startProducer fuel cfg false) _ _ :=
      yields_startProducer h hstart rfl
    constructor
    · intro hcovered
      obtain ⟨_, _, rfl, houtcome⟩ := hcovered.unique hrun
      have hended := (transcript_returned_iff rfl).mp (outcomeOf_eq_returned_iff.mp houtcome.symm)
      obtain ⟨hend, hfit⟩ := forall_progressOf_eq_ok_iff.mp hended
      exact ⟨hend, hstart, hfit⟩
    · rintro ⟨hend, _, hfit⟩
      have hprogress := forall_progressOf_eq_ok_iff.mpr ⟨hend, hfit⟩
      rw [(transcript_returned_iff rfl).mpr hprogress, transcript_output rfl hprogress] at hrun
      exact hrun
  · refine iff_of_false ?_ fun hcondition => hstart hcondition.2.1
    intro hcovered
    rw [Classical.not_imp] at hstart
    obtain ⟨number, hlast⟩ := Option.ne_none_iff_exists'.mp hstart.2
    obtain ⟨error, hraised⟩ := yields_startProducer_resumed h hstart.1 hlast
    obtain ⟨_, _, rfl, houtcome⟩ := hcovered.unique hraised
    cases houtcome

end Coverage

section Deployment

open Deployment

/-- With an end block, the run covers both blocks of the chain. -/
theorem blockRange_covered_of_endBlock :
    Yields (answering (chain []) none fun _ _ => none) observe
      (fun fuel => startProducer fuel (config (some 0) (some 7)) false) (· = .returned ())
      (coveredOutput (chain []) (config (some 0) (some 7)) 0) :=
  (blockRange_covered_iff (cooperative_answering _ _ _)).mpr
    ⟨.inl (by simp [config]), by simp [config], fun _ _ _ _ _ _ => rfl⟩

/-- Without one, the progress line after the first block raises. -/
theorem firstBlock_progress_raises :
    ¬ Yields (answering (chain []) none fun _ _ => none) observe
      (fun fuel => startProducer fuel (config (some 0) none) false) (· = .returned ())
      (coveredOutput (chain []) (config (some 0) none) 0) := by
  intro hcovered
  have hrun : Yields _ observe (fun fuel => startProducer fuel (config (some 0) none) false) _ _ :=
    yields_startProducer (cooperative_answering (chain []) none fun _ _ => none) (by simp) rfl
  obtain ⟨_, _, rfl, houtcome⟩ := hcovered.unique hrun
  exact absurd houtcome (by decide)

end Deployment

end BlockchainDataCollection.Coverage
