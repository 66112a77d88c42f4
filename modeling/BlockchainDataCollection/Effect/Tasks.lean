import BlockchainDataCollection.Effect.Machine
import BlockchainDataCollection.Effect.Typestate

/-!
# Cooperative tasks

Tasks of one event loop as a state machine.  A task waits at its next call
until the surroundings answer it; in between, other tasks and other parties
take their steps.  Calls that are answered without a suspension, such as a read
of an attribute, keep the event loop to their task.

An invariant is proved from a typestate: one phase for each task, and a relation
between the phases and the shared state that every step keeps.
-/

namespace BlockchainDataCollection.Effect

open Program

variable {S : Signature} {E A Shared Act Phase : Type}

namespace Program

def nextCall : Program S E A → Option S.Call
  | .done _ => none
  | .raise _ => none
  | .suspended => none
  | .call op _ => some op

theorem Conforms.expects {typestate : Typestate S E Phase} {post : A → Phase → Prop}
    {program : Program S E A} {phase : Phase} (h : program.Conforms typestate post phase)
    {op : S.Call} (hop : op ∈ program.nextCall) : typestate.expects phase op := by
  cases program with
  | call other next =>
      obtain rfl := Option.some.inj hop
      exact h.1
  | _ => cases hop

/-- The program after its next call is answered. -/
def resume (answers : (op : S.Call) → Except E (S.Answer op)) : Program S E A → Program S E A
  | .done value => .done value
  | .raise error => .raise error
  | .suspended => .suspended
  | .call op next => next (answers op)

end Program

/-- What surrounds the tasks: how calls are answered, which of them do not
suspend, and what other parties do. -/
structure Surroundings (S : Signature) (E Shared Act : Type) where
  /-- The answers that the task at a position may get. -/
  Serves : Shared → ℕ → Event S E → Prop
  serve : Shared → ℕ → Event S E → Shared
  synchronous : S.Call → Bool
  Acts : Shared → Act → Prop
  act : Shared → Act → Shared
  decidableServes : ∀ shared task event, Decidable (Serves shared task event)
  decidableActs : ∀ shared action, Decidable (Acts shared action)

structure Tasks (S : Signature) (E A Shared : Type) where
  /-- The tasks that were created and did not start yet. -/
  waiting : List (Program S E A)
  started : List (Program S E A)
  /-- The task that keeps the event loop. -/
  running : Option ℕ
  shared : Shared

/-- Nothing has started yet. -/
def Tasks.init (programs : List (Program S E A)) (shared : Shared) : Tasks S E A Shared where
  waiting := programs
  started := []
  running := none
  shared := shared

inductive TaskAction (S : Signature) (E Act : Type) where
  /-- Run the first waiting task up to its first call. -/
  | start
  /-- Answer the next call of a task. -/
  | call (task : ℕ) (answers : (op : S.Call) → Except E (S.Answer op))
  /-- A step of another party. -/
  | other (action : Act)

theorem exists_append_of_getElem? {α : Type} {items : List α} {index : ℕ} {item : α}
    (h : items[index]? = some item) :
    ∃ before after, items = before ++ item :: after ∧ before.length = index := by
  obtain ⟨hindex, rfl⟩ := List.getElem?_eq_some_iff.mp h
  refine ⟨items.take index, items.drop (index + 1), ?_, List.length_take_of_le hindex.le⟩
  rw [List.getElem_cons_drop, List.take_append_drop]

namespace Surroundings

variable (surroundings : Surroundings S E Shared Act)

/-- The surroundings in which every answered call meets a condition on the
state it starts from. -/
def restrict (condition : Shared → ℕ → Event S E → Prop)
    [∀ shared task event, Decidable (condition shared task event)] :
    Surroundings S E Shared Act where
  Serves shared task event := surroundings.Serves shared task event ∧ condition shared task event
  serve := surroundings.serve
  synchronous := surroundings.synchronous
  Acts := surroundings.Acts
  act := surroundings.act
  decidableServes shared task event :=
    have := surroundings.decidableServes shared task event
    inferInstance
  decidableActs := surroundings.decidableActs

/-- A program that just got to its next call keeps the event loop if the call
does not suspend. -/
def keeps (task : ℕ) (program : Program S E A) : Option ℕ :=
  if program.nextCall.any surroundings.synchronous then some task else none

def Enabled (state : Tasks S E A Shared) : TaskAction S E Act → Prop
  | .start => state.running = none ∧ state.waiting ≠ []
  | .call task answers =>
      (state.running = none ∨ state.running = some task) ∧
        ∃ op ∈ (state.started[task]?).bind nextCall,
          surroundings.Serves state.shared task ⟨op, answers op⟩
  | .other action => surroundings.Acts state.shared action

def effect (state : Tasks S E A Shared) : TaskAction S E Act → Tasks S E A Shared
  | .start =>
      match state.waiting with
      | [] => state
      | program :: waiting =>
          { state with
            waiting := waiting
            started := state.started ++ [program]
            running := surroundings.keeps state.started.length program }
  | .call task answers =>
      match state.started[task]? with
      | none => state
      | some program =>
          match program.nextCall with
          | none => state
          | some op =>
              { state with
                started := state.started.set task (program.resume answers)
                running := surroundings.keeps task (program.resume answers)
                shared := surroundings.serve state.shared task ⟨op, answers op⟩ }
  | .other action => { state with shared := surroundings.act state.shared action }

instance (state : Tasks S E A Shared) (action : TaskAction S E Act) :
    Decidable (surroundings.Enabled state action) :=
  match action with
  | .start => inferInstanceAs (Decidable (_ ∧ _))
  | .call task answers =>
      have : ∀ op, Decidable (surroundings.Serves state.shared task ⟨op, answers op⟩) :=
        fun _ => surroundings.decidableServes _ _ _
      inferInstanceAs (Decidable (_ ∧ _))
  | .other _ => surroundings.decidableActs _ _

def machine : Machine (Tasks S E A Shared) (TaskAction S E Act) where
  Enabled := surroundings.Enabled
  effect := surroundings.effect
  decidableEnabled _ _ := inferInstance

variable {surroundings} in
theorem effect_start {state : Tasks S E A Shared} {program : Program S E A}
    {waiting : List (Program S E A)} (h : state.waiting = program :: waiting) :
    surroundings.effect state .start =
      { waiting := waiting
        started := state.started ++ [program]
        running := surroundings.keeps state.started.length program
        shared := state.shared } := by
  simp only [effect, h]

variable {surroundings} in
theorem effect_call {state : Tasks S E A Shared} {task : ℕ} {op : S.Call}
    {next : Except E (S.Answer op) → Program S E A}
    (h : state.started[task]? = some (.call op next))
    (answers : (op : S.Call) → Except E (S.Answer op)) :
    surroundings.effect state (.call task answers) =
      { waiting := state.waiting
        started := state.started.set task (next (answers op))
        running := surroundings.keeps task (next (answers op))
        shared := surroundings.serve state.shared task ⟨op, answers op⟩ } := by
  simp only [effect, h, nextCall, resume]

/-- All tasks may start before any of them goes on, unless one keeps the event
loop. -/
theorem reaches_started {programs : List (Program S E A)} {shared : Shared}
    (h : ∀ program ∈ programs, program.nextCall.any surroundings.synchronous = false) :
    Machine.Reaches surroundings.machine (.init programs shared)
      ⟨[], programs, none, shared⟩ := by
  have hstart : ∀ (waiting started : List (Program S E A)),
      (∀ program ∈ waiting, program.nextCall.any surroundings.synchronous = false) →
        surroundings.machine.run ⟨waiting, started, none, shared⟩
          (List.replicate waiting.length .start) =
            some ⟨[], started ++ waiting, none, shared⟩ := by
    intro waiting
    induction waiting with
    | nil =>
        intro started _
        rw [List.append_nil]
        rfl
    | cons program waiting ih =>
        intro started hasync
        have henabled : surroundings.machine.Enabled
            ⟨program :: waiting, started, none, shared⟩ .start := ⟨rfl, List.cons_ne_nil _ _⟩
        have hkeeps : surroundings.keeps started.length program = none := by
          rw [keeps, hasync program List.mem_cons_self, if_neg Bool.false_ne_true]
        have heffect : surroundings.machine.effect
            ⟨program :: waiting, started, none, shared⟩ .start =
              ⟨waiting, started ++ [program], none, shared⟩ := by
          rw [← hkeeps]
          rfl
        rw [List.length_cons, List.replicate_succ, Machine.run, if_pos henabled, heffect,
          ih (started ++ [program]) fun other hother =>
            hasync other (List.mem_cons_of_mem _ hother),
          List.append_assoc, List.singleton_append]
  exact ⟨_, hstart programs [] h⟩

/-! ## Invariants over phases -/

/-- A relation between the shared state and the phases of the tasks that every
step keeps, for `count` tasks with given first phases.  In a busy phase a task
keeps the event loop. -/
structure Maintains (typestate : Typestate S E Phase) (post : A → Phase → Prop)
    (busy : Phase → Prop) (count : ℕ) (first : ℕ → Phase)
    (Invariant : Shared → List Phase → Prop) : Prop where
  given : ∀ {shared task event}, surroundings.Serves shared task event → typestate.given event
  synchronous : ∀ {phase op}, typestate.expects phase op → busy phase →
    surroundings.synchronous op = true
  rests : ∀ {phase}, typestate.rests phase → ¬ busy phase
  post : ∀ {value phase}, post value phase → ¬ busy phase
  start : ∀ {shared phases}, Invariant shared phases → phases.length < count →
    Invariant shared (phases ++ [first phases.length])
  call : ∀ {shared before phase after event phase'},
    Invariant shared (before ++ phase :: after) → (∀ other ∈ before ++ after, ¬ busy other) →
    typestate.expects phase event.op → surroundings.Serves shared before.length event →
    typestate.advance phase event phase' →
    Invariant (surroundings.serve shared before.length event) (before ++ phase' :: after)
  act : ∀ {shared phases action}, Invariant shared phases → surroundings.Acts shared action →
    Invariant (surroundings.act shared action) phases

variable {surroundings} {typestate : Typestate S E Phase} {post : A → Phase → Prop}
  {busy : Phase → Prop} {count : ℕ} {first : ℕ → Phase} {Invariant : Shared → List Phase → Prop}

/-- Every task conforms to the typestate from some phase on; the phases are
related to the shared state, and a busy task keeps the event loop. -/
structure Tracked (typestate : Typestate S E Phase) (post : A → Phase → Prop)
    (busy : Phase → Prop) (count : ℕ) (first : ℕ → Phase)
    (Invariant : Shared → List Phase → Prop)
    (state : Tasks S E A Shared) (tracks : List (Program S E A × Phase)) : Prop where
  started : tracks.map Prod.fst = state.started
  conforms : ∀ track ∈ tracks, track.1.Conforms typestate post track.2
  count : state.waiting.length + tracks.length = count
  waiting : ∀ task (program : Program S E A), state.waiting[task]? = some program →
    program.Conforms typestate post (first (tracks.length + task))
  invariant : Invariant state.shared (tracks.map Prod.snd)
  running : ∀ task track, tracks[task]? = some track → busy track.2 → state.running = some task

namespace Maintains

variable (h : surroundings.Maintains typestate post busy count first Invariant)

include h

theorem keeps_of_busy {program : Program S E A} {phase : Phase}
    (hconforms : program.Conforms typestate post phase) (hbusy : busy phase) (task : ℕ) :
    surroundings.keeps task program = some task := by
  cases program with
  | done value => exact absurd hbusy (h.post hconforms)
  | raise error => exact absurd hbusy (h.rests hconforms)
  | suspended => exact absurd hbusy (h.rests hconforms)
  | call op next =>
      rw [keeps, nextCall, Option.any_some, if_pos (h.synchronous hconforms.1 hbusy)]

theorem tracked_start {state : Tasks S E A Shared} {tracks : List (Program S E A × Phase)}
    (htracked : Tracked typestate post busy count first Invariant state tracks)
    (henabled : surroundings.Enabled state .start) :
    ∃ tracks', Tracked typestate post busy count first Invariant
      (surroundings.effect state .start) tracks' := by
  obtain ⟨hidle, hwaiting⟩ := henabled
  obtain ⟨program, waiting, hcons⟩ := List.exists_cons_of_ne_nil hwaiting
  have hcount := htracked.count
  rw [hcons, List.length_cons] at hcount
  have hprogram : program.Conforms typestate post (first tracks.length) :=
    htracked.waiting 0 program (by rw [hcons, List.getElem?_cons_zero])
  have hlength : tracks.length = state.started.length := by
    rw [← htracked.started, List.length_map]
  rw [effect_start hcons]
  refine ⟨tracks ++ [(program, first tracks.length)], ?_, ?_, ?_, ?_, ?_, ?_⟩
  · rw [List.map_append, htracked.started]
    rfl
  · intro track htrack
    rcases List.mem_append.mp htrack with htrack | htrack
    · exact htracked.conforms track htrack
    · rw [List.mem_singleton.mp htrack]
      exact hprogram
  · rw [List.length_append, List.length_singleton, ← hcount, Nat.add_right_comm, Nat.add_assoc]
  · intro task other hother
    rw [List.length_append, List.length_singleton, Nat.add_assoc, Nat.add_comm 1]
    exact htracked.waiting (task + 1) other (by rw [hcons, List.getElem?_cons_succ, hother])
  · rw [List.map_append]
    have hstart := h.start htracked.invariant (by rw [List.length_map]; omega)
    rw [List.length_map] at hstart
    exact hstart
  · intro task track htrack hbusy
    rcases lt_trichotomy task tracks.length with hlt | rfl | hgt
    · rw [List.getElem?_append_left hlt] at htrack
      rw [htracked.running task track htrack hbusy] at hidle
      cases hidle
    · rw [List.getElem?_append_right le_rfl, Nat.sub_self] at htrack
      cases htrack
      rw [hlength]
      exact h.keeps_of_busy (hlength ▸ hprogram) hbusy _
    · rw [List.getElem?_eq_none (by simpa using hgt)] at htrack
      cases htrack

theorem tracked_call {state : Tasks S E A Shared} {tracks : List (Program S E A × Phase)}
    (htracked : Tracked typestate post busy count first Invariant state tracks) {task : ℕ}
    {answers : (op : S.Call) → Except E (S.Answer op)}
    (henabled : surroundings.Enabled state (.call task answers)) :
    ∃ tracks', Tracked typestate post busy count first Invariant
      (surroundings.effect state (.call task answers)) tracks' := by
  obtain ⟨hrunning, op, hop, hserves⟩ := henabled
  obtain ⟨program, hprogram, hcall⟩ := Option.mem_bind_iff.mp hop
  obtain ⟨next, rfl⟩ : ∃ next, program = .call op next := by
    cases program with
    | call other next =>
        cases hcall
        exact ⟨next, rfl⟩
    | _ => cases hcall
  obtain ⟨⟨_, phase⟩, htrack, rfl⟩ : ∃ track, tracks[task]? = some track ∧
      track.1 = .call op next := by
    rw [← htracked.started, Option.mem_def, List.getElem?_map, Option.map_eq_some_iff] at hprogram
    exact hprogram
  -- the phase of the task moves on, all others stay
  obtain ⟨hexpects, hnext⟩ := htracked.conforms _ (List.mem_of_getElem? htrack)
  obtain ⟨phase', hadvance, hconforms⟩ := hnext _ (h.given hserves)
  obtain ⟨before, after, rfl, rfl⟩ := exists_append_of_getElem? htrack
  have hkeeps : ∀ other track, (before ++ (.call op next, phase) :: after)[other]? = some track →
      busy track.2 → other = before.length := by
    intro other track hother hbusy
    have hother := htracked.running other track hother hbusy
    rcases hrunning with hidle | hself
    · rw [hidle] at hother
      cases hother
    · exact Option.some.inj (hother.symm.trans hself)
  have hothers : ∀ track ∈ before ++ after, ¬ busy track.2 := by
    intro track htrack hbusy
    rcases List.mem_append.mp htrack with htrack | htrack
    · obtain ⟨other, hlt, rfl⟩ := List.getElem_of_mem htrack
      have hself := hkeeps other _ (by rw [List.getElem?_append_left hlt,
        List.getElem?_eq_getElem hlt]) hbusy
      omega
    · obtain ⟨other, hlt, rfl⟩ := List.getElem_of_mem htrack
      have hself := hkeeps (before.length + (other + 1)) _ (by
        rw [List.getElem?_append_right (by omega), Nat.add_sub_cancel_left,
          List.getElem?_cons_succ, List.getElem?_eq_getElem hlt]) hbusy
      omega
  have hset : before ++ (next (answers op), phase') :: after =
      (before ++ (.call op next, phase) :: after).set before.length
        (next (answers op), phase') := by
    simp
  rw [effect_call hprogram]
  have hlength : (before ++ (next (answers op), phase') :: after).length =
      (before ++ (.call op next, phase) :: after).length := by rw [hset, List.length_set]
  refine ⟨before ++ (next (answers op), phase') :: after, ?_, ?_, hlength ▸ htracked.count,
    hlength ▸ htracked.waiting, ?_, ?_⟩
  · rw [hset, List.map_set, htracked.started]
  · intro track htrack
    rcases List.mem_or_eq_of_mem_set (hset ▸ htrack) with htrack | rfl
    · exact htracked.conforms track htrack
    · exact hconforms
  · have hinvariant := htracked.invariant
    rw [List.map_append, List.map_cons] at hinvariant ⊢
    have hlength : (before.map Prod.snd).length = before.length := List.length_map _
    rw [← hlength]
    refine h.call hinvariant ?_ hexpects (hlength ▸ hserves) hadvance
    rw [← List.map_append]
    exact List.forall_mem_map.mpr hothers
  · intro other track htrack hbusy
    rw [hset, List.getElem?_set] at htrack
    split at htrack
    next hself =>
        subst hself
        rw [if_pos (by simp)] at htrack
        obtain rfl := Option.some.inj htrack
        exact h.keeps_of_busy hconforms hbusy _
    next hself => exact absurd (hkeeps other track htrack hbusy).symm hself

/-- In every state that is reached, the tasks are in phases that the invariant
relates to the shared state. -/
theorem tracked_of_reaches {programs : List (Program S E A)} {shared : Shared}
    (hcount : programs.length = count)
    (hprograms : ∀ task (program : Program S E A), programs[task]? = some program →
      program.Conforms typestate post (first task))
    (hinvariant : Invariant shared []) {state : Tasks S E A Shared}
    (hreaches : Machine.Reaches surroundings.machine (.init programs shared) state) :
    ∃ tracks, Tracked typestate post busy count first Invariant state tracks := by
  apply hreaches.invariant
  · exact ⟨[], rfl, by simp, hcount, by simpa [Tasks.init] using hprograms,
      hinvariant, by simp⟩
  · rintro state action ⟨tracks, htracked⟩ henabled
    cases action with
    | start => exact h.tracked_start htracked henabled
    | call task answers => exact h.tracked_call htracked henabled
    | other action =>
        exact ⟨tracks, htracked.started, htracked.conforms, htracked.count, htracked.waiting,
          h.act htracked.invariant henabled, htracked.running⟩

end Maintains

end Surroundings

end BlockchainDataCollection.Effect
