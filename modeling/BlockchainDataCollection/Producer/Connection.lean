import BlockchainDataCollection.Producer.Counters
import BlockchainDataCollection.Producer.DataProducer

/-!
# The database connection of the producers

All producer tasks share one database connection, on which only one operation
may be in progress.  A task that reads blocks asks the database where to start
before anything else, and nothing keeps the next one from asking as well.
-/

namespace BlockchainDataCollection.Connection

open BlockchainDataCollection.Effect
open BlockchainDataCollection.Python
open BlockchainDataCollection.Data
open BlockchainDataCollection.KafkaProducer
open BlockchainDataCollection.DataProducer
open BlockchainDataCollection.Sending

/-! ## Operations of the database -/

def UsesDatabase : ProducerCall → Prop
  | .getBlock => True
  | .execute _ => True
  | _ => False

/-- The producers of these modes read the blocks and store them. -/
def storesBlocks : DataCollectionMode → Bool
  | .full => true
  | .partialMode => true
  | .logFilter => false
  | .getLogs => false

/-- An operation of a task is in progress on the connection. -/
def AwaitsDatabase (program : ProducerProgram Unit) : Prop :=
  ∃ op ∈ program.nextCall, UsesDatabase op

/-- At most one operation is in progress. -/
def Exclusive (state : Tasks producerSignature PyError Unit Unit) : Prop :=
  ∀ (task : ℕ) program (other : ℕ) program', state.started[task]? = some program →
    state.started[other]? = some program' → AwaitsDatabase program → AwaitsDatabase program' →
      task = other

/-- All calls may be answered in any way, and at any time. -/
def surroundings : Surroundings producerSignature PyError Unit Empty where
  Serves _ _ _ := True
  serve _ _ _ := ()
  synchronous := Sharing.synchronous
  Acts _ _ := False
  act _ _ := ()
  decidableServes _ _ _ := instDecidableTrue
  decidableActs _ _ := instDecidableFalse

/-! ## The producers -/

theorem not_usesDatabase_of_expects {phase : Phase} {op : ProducerCall} (h : Expects phase op) :
    ¬ UsesDatabase op := by
  obtain ⟨remaining, stage⟩ := phase
  cases op with
  | getBlock => cases stage <;> exact h.elim
  | execute statement => cases stage <;> exact h.elim
  | _ => exact id

/-- `send_batch` leaves the database alone. -/
theorem limiting_sendBatch (fuel : ℕ) (msgs : List String) :
    (sendBatch fuel msgs).Conforms (Program.limiting UsesDatabase) (fun _ phase => phase = false)
      false := by
  have hgiven : ∀ event, Given (Counters.anyGate msgs.length) event := fun _ =>
    given_of_partitionsFor fun _ _ => trivial
  have hsend : (sendBatch fuel msgs).Conforms (typestate (Counters.anyGate msgs.length))
      (fun _ phase => phase.stage = .idle) ⟨0, .idle⟩ := conforms_sendBatch fuel le_rfl
  exact hsend.limiting hgiven fun _ _ => not_usesDatabase_of_expects

/-- Only the producers that store blocks use the database. -/
theorem limiting_startProducerTask (fuel : ℕ) (cfg : DataCollectionConfig) :
    (startProducerTask fuel cfg).Conforms (Program.limiting UsesDatabase) (fun _ _ => True)
      (storesBlocks cfg.mode) := by
  rw [startProducerTask]
  cases cfg.mode with
  | full => exact Program.conforms_limiting _
  | partialMode => exact Program.conforms_limiting _
  | logFilter => trivial
  | getLogs =>
      refine Program.conforms_bind (Program.conforms_perform nofun ?_ ?_)
      · intro logs _
        refine ⟨false, rfl, ?_⟩
        split
        · trivial
        · exact (limiting_sendBatch fuel _).bind fun _ _ _ => trivial
      · exact fun error _ => ⟨false, rfl, trivial⟩

theorem any_synchronous_startProducerTask (fuel : ℕ) (cfg : DataCollectionConfig) :
    (startProducerTask fuel cfg).nextCall.any surroundings.synchronous = false := by
  rw [startProducerTask]
  cases cfg.mode <;> rfl

/-- They use it first of all. -/
theorem awaitsDatabase_startProducerTask (fuel : ℕ) {cfg : DataCollectionConfig}
    (h : storesBlocks cfg.mode) : AwaitsDatabase (startProducerTask fuel cfg) := by
  rw [startProducerTask]
  cases hmode : cfg.mode with
  | full => exact ⟨.getBlock, rfl, trivial⟩
  | partialMode => exact ⟨.getBlock, rfl, trivial⟩
  | logFilter =>
      rw [hmode] at h
      cases h
  | getLogs =>
      rw [hmode] at h
      cases h

/-! ## Positions of a filtered list -/

section Positions

variable {α : Type} {items : List α} {p : α → Bool}

theorem eq_of_length_filter_le_one (h : (items.filter p).length ≤ 1) {i j : ℕ} {x y : α}
    (hi : items[i]? = some x) (hx : p x) (hj : items[j]? = some y) (hy : p y) : i = j := by
  by_contra hne
  wlog hlt : i < j generalizing i j x y
  · exact this hj hy hi hx (Ne.symm hne) (by omega)
  obtain ⟨before, after, rfl, rfl⟩ := exists_append_of_getElem? hi
  rw [List.getElem?_append_right hlt.le, List.getElem?_cons, if_neg (by omega)] at hj
  have hmem : y ∈ after.filter p := List.mem_filter.mpr ⟨List.mem_of_getElem? hj, hy⟩
  have hpos := List.length_pos_of_mem hmem
  rw [List.filter_append, List.filter_cons_of_pos hx, List.length_append, List.length_cons] at h
  omega

theorem length_filter_le_one (h : ∀ (i j : ℕ) (x y : α), items[i]? = some x → p x →
    items[j]? = some y → p y → i = j) : (items.filter p).length ≤ 1 := by
  by_contra hlength
  obtain ⟨position, hposition⟩ := List.sublist_iff_exists_orderEmbedding_getElem?_eq.mp
    (List.filter_sublist (p := p) (l := items))
  have hitem : ∀ index, index < (items.filter p).length →
      ∃ x, items[position index]? = some x ∧ p x := by
    intro index hindex
    have hget := List.getElem?_eq_getElem hindex
    exact ⟨_, (hposition index).symm.trans hget, (List.mem_filter.mp (List.getElem_mem hindex)).2⟩
  obtain ⟨x, hx, hpx⟩ := hitem 0 (by omega)
  obtain ⟨y, hy, hpy⟩ := hitem 1 (by omega)
  exact absurd (position.injective (h _ _ x y hx hpx hy hpy)) (by decide)

end Positions

/-! ## Runs -/

/-- Whether the task at a position may use the connection. -/
def mayUse (configs : List DataCollectionConfig) (task : ℕ) : Bool :=
  configs[task]?.any fun cfg => storesBlocks cfg.mode

/-- Tasks that do not store blocks never use the connection. -/
theorem mayUse_of_awaits {fuel : ℕ} {configs : List DataCollectionConfig}
    {state : Tasks producerSignature PyError Unit Unit}
    (h : Machine.Reaches surroundings.machine (.init (configs.map (startProducerTask fuel)) ())
      state) {task : ℕ} {program : ProducerProgram Unit}
    (hprogram : state.started[task]? = some program) (hawaits : AwaitsDatabase program) :
    mayUse configs task := by
  have hmaintains : surroundings.Maintains (Program.limiting UsesDatabase)
      (fun (_ : Unit) _ => True) (fun _ => False) configs.length (mayUse configs)
      (fun _ phases => ∀ (task : ℕ) phase, phases[task]? = some phase →
        phase = mayUse configs task) := by
    constructor
    · exact fun _ => trivial
    · exact fun _ hbusy => hbusy.elim
    · exact fun _ => id
    · exact fun _ => id
    · intro _ phases hphases _ task phase hphase
      rcases lt_or_ge task phases.length with hlt | hge
      · rw [List.getElem?_append_left hlt] at hphase
        exact hphases task phase hphase
      · rw [List.getElem?_append_right hge, List.getElem?_singleton] at hphase
        split at hphase
        · obtain rfl : task = phases.length := by omega
          exact (Option.some.inj hphase).symm
        · cases hphase
    · rintro _ before phase after _ _ hphases _ _ _ rfl
      exact hphases
    · exact fun _ hacts => hacts.elim
  have hprograms : ∀ (task : ℕ) (program : ProducerProgram Unit),
      (configs.map (startProducerTask fuel))[task]? = some program →
        program.Conforms (Program.limiting UsesDatabase) (fun _ _ => True)
          (mayUse configs task) := by
    intro task program hprogram
    rw [List.getElem?_map, Option.map_eq_some_iff] at hprogram
    obtain ⟨cfg, hcfg, rfl⟩ := hprogram
    rw [mayUse, hcfg]
    exact limiting_startProducerTask fuel cfg
  obtain ⟨tracks, htracked⟩ := hmaintains.tracked_of_reaches (List.length_map _) hprograms
    (by simp) h
  rw [← htracked.started, List.getElem?_map, Option.map_eq_some_iff] at hprogram
  obtain ⟨⟨_, phase⟩, htrack, rfl⟩ := hprogram
  have hphase := htracked.invariant task phase (by rw [List.getElem?_map, htrack, Option.map_some])
  have hconforms := htracked.conforms _ (List.mem_of_getElem? htrack)
  obtain ⟨op, hop, huses⟩ := hawaits
  rw [← hphase]
  exact hconforms.expects hop huses

/-- No two operations overlap exactly if at most one configuration stores blocks. -/
theorem exclusive_iff (fuel : ℕ) (configs : List DataCollectionConfig) :
    (∀ state, Machine.Reaches surroundings.machine
      (.init (configs.map (startProducerTask fuel)) ()) state → Exclusive state) ↔
      (configs.filter fun cfg => storesBlocks cfg.mode).length ≤ 1 := by
  constructor
  · intro hexclusive
    have hstarted := hexclusive _ (surroundings.reaches_started
      (List.forall_mem_map.mpr fun cfg _ => any_synchronous_startProducerTask fuel cfg))
    apply length_filter_le_one
    intro i j x y hi hx hj hy
    exact hstarted i _ j _ (by rw [List.getElem?_map, hi, Option.map_some])
      (by rw [List.getElem?_map, hj, Option.map_some]) (awaitsDatabase_startProducerTask fuel hx)
      (awaitsDatabase_startProducerTask fuel hy)
  · intro hlength state hreaches task program other program' hprogram hprogram' hawaits hawaits'
    have hmay := mayUse_of_awaits hreaches hprogram hawaits
    have hmay' := mayUse_of_awaits hreaches hprogram' hawaits'
    rw [mayUse, Option.any_eq_true] at hmay hmay'
    obtain ⟨cfg, hcfg, hstores⟩ := hmay
    obtain ⟨cfg', hcfg', hstores'⟩ := hmay'
    exact eq_of_length_filter_le_one hlength hcfg hstores hcfg' hstores'

section Deployment

/-- A configuration of the partial mode. -/
def partialConfig : DataCollectionConfig := ⟨.partialMode, some 0, some 10, none, none⟩

/-- What the connection answers while an operation of another task is in progress. -/
def refusal : PyError :=
  .databaseError "cannot perform operation: another operation is in progress"

/-- Two partial producers ask the database for its last block at the same time,
and the second one fails. -/
theorem not_exclusive_of_two_partial : ∃ busy last,
    Machine.Reaches surroundings.machine
      (.init ([partialConfig, partialConfig].map (startProducerTask 1)) ()) busy ∧
      ¬ Exclusive busy ∧
    Machine.Reaches surroundings.machine
      (.init ([partialConfig, partialConfig].map (startProducerTask 1)) ()) last ∧
      last.started[1]? = some (.raise refusal) := by
  refine ⟨_, _, ⟨[.start, .start], rfl⟩, fun hexclusive => ?_,
    ⟨[.start, .start, .call 1 fun _ => .error refusal], rfl⟩, rfl⟩
  exact absurd (hexclusive 0 _ 1 _ rfl rfl ⟨.getBlock, rfl, trivial⟩ ⟨.getBlock, rfl, trivial⟩)
    (by decide)

end Deployment

end BlockchainDataCollection.Connection
